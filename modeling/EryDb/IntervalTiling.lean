import Mathlib.Data.Set.Insert

/-!
# Families of cells that tile a space

A family of cells tiles a space when every point of the space lies in exactly one
cell and no cell leaves the space. Splitting a cell, moving it to another index
and merging several cells into one are all regroupings: the cells outside a
chosen set of indices stay, and the cells inside cover the same points as before
without overlapping.
-/

namespace IntervalTiling

universe u v

variable {Index : Type u} {Point : Type v}

structure Tiling (cell : Index → Set Point) (space : Set Point) : Prop where
  inside : ∀ i x, x ∈ cell i → x ∈ space
  covered : ∀ x, x ∈ space → ∃ i, x ∈ cell i
  disjoint : ∀ x i j, x ∈ cell i → x ∈ cell j → i = j

variable {cell cell' : Index → Set Point} {space : Set Point}

lemma Tiling.regroup (tiling : Tiling cell space) (chosen : Set Index)
    (kept : ∀ i, i ∉ chosen → cell' i = cell i)
    (points : ∀ x, (∃ i ∈ chosen, x ∈ cell' i) ↔ ∃ i ∈ chosen, x ∈ cell i)
    (hap : ∀ x i j, i ∈ chosen → j ∈ chosen → x ∈ cell' i → x ∈ cell' j → i = j) :
    Tiling cell' space := by
  have origin : ∀ x i, x ∈ cell' i → ∃ j, x ∈ cell j ∧ (i ∈ chosen ↔ j ∈ chosen) ∧
      (i ∉ chosen → j = i) := by
    intro x i owned
    by_cases picked : i ∈ chosen
    · obtain ⟨j, hm, old⟩ := (points x).mp ⟨i, picked, owned⟩
      exact ⟨j, old, by simp [picked, hm], fun hout => absurd picked hout⟩
    · exact ⟨i, by rwa [← kept i picked], Iff.rfl, fun _ => rfl⟩
  constructor
  · intro i x owned
    obtain ⟨j, old, _, _⟩ := origin x i owned
    exact tiling.inside j x old
  · intro x hm
    obtain ⟨i, owned⟩ := tiling.covered x hm
    by_cases picked : i ∈ chosen
    · obtain ⟨j, _, new⟩ := (points x).mpr ⟨i, picked, owned⟩
      exact ⟨j, new⟩
    · exact ⟨i, by rwa [kept i picked]⟩
  · intro x i j left right
    obtain ⟨i', oldLeft, sameLeft, fixLeft⟩ := origin x i left
    obtain ⟨j', oldRight, sameRight, fixRight⟩ := origin x j right
    have heq := tiling.disjoint x i' j' oldLeft oldRight
    by_cases pickedLeft : i ∈ chosen
    · by_cases pickedRight : j ∈ chosen
      · exact hap x i j pickedLeft pickedRight left right
      · exact absurd (sameRight.mpr (heq ▸ sameLeft.mp pickedLeft)) pickedRight
    · have hout : j ∉ chosen := fun picked =>
        pickedLeft (sameLeft.mpr (heq ▸ sameRight.mp picked))
      rw [← fixLeft pickedLeft, ← fixRight hout, heq]

/-- Everything the chosen cells held ends up in the target; the others are emptied. -/
lemma Tiling.merge (tiling : Tiling cell space) (merged : Set Index) (target : Index)
    (hm : target ∈ merged)
    (kept : ∀ i, i ∉ merged → cell' i = cell i) (emptied : ∀ i ∈ merged, i ≠ target → cell' i = ∅)
    (hfil : ∀ x, x ∈ cell' target ↔ ∃ i ∈ merged, x ∈ cell i) :
    Tiling cell' space := by
  have atTarget : ∀ x i, i ∈ merged → x ∈ cell' i → i = target := by
    intro x i picked owned
    by_contra ho
    simp [emptied i picked ho] at owned
  refine tiling.regroup merged kept ?_ ?_
  · intro x
    constructor
    · rintro ⟨i, picked, owned⟩
      rw [atTarget x i picked owned] at owned
      exact (hfil x).mp owned
    · intro held
      exact ⟨target, hm, (hfil x).mpr held⟩
  · intro x i j left right ownsLeft ownsRight
    rw [atTarget x i left ownsLeft, atTarget x j right ownsRight]

/-- One cell gives some of its points to a cell that was empty. -/
lemma Tiling.split (tiling : Tiling cell space) {source target : Index}
    (ho : target ≠ source) (hem : cell target = ∅)
    (kept : ∀ i, i ≠ source → i ≠ target → cell' i = cell i)
    (points : ∀ x, x ∈ cell source ↔ x ∈ cell' source ∨ x ∈ cell' target)
    (hap : ∀ x, x ∈ cell' source → x ∉ cell' target) :
    Tiling cell' space := by
  refine tiling.regroup {source, target} ?_ ?_ ?_
  · intro i hout
    simp only [Set.mem_insert_iff, Set.mem_singleton_iff, not_or] at hout
    exact kept i hout.1 hout.2
  · intro x
    simp [points x, hem]
  rintro x i j (rfl | rfl) (rfl | rfl) left right
  · rfl
  · exact absurd right (hap x left)
  · exact absurd left (hap x right)
  · rfl

end IntervalTiling
