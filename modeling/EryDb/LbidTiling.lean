import Mathlib
import EryDb.IntervalTiling
import EryDb.ExtentCreation
import EryDb.ExtentUpdates

/-!
# The extents and the free list tile the LBID space

Every LBID belongs to exactly one used extent or exactly one used free-list entry,
free ranges never touch, and both byte counters agree with the number of used
slots. Creation splits a free range, deletion merges an extent with its free
neighbours; each is a regrouping of the tiling.
-/

namespace LbidTiling

open ImageUndo SlotScan IntervalTiling BrmTypes ExtentMap ExtentCreation ExtentUpdates

def usedExtent (s : Map) (i : Nat) : Prop := (fExtentMap s i).range.size ≠ 0
def usedFree (s : Map) (i : Nat) : Prop := (fFreeList s i).size ≠ 0

instance (s : Map) : DecidablePred (usedExtent s) := fun i =>
  inferInstanceAs (Decidable ((fExtentMap s i).range.size ≠ 0))
instance (s : Map) : DecidablePred (usedFree s) := fun i =>
  inferInstanceAs (Decidable ((fFreeList s i).size ≠ 0))

def blocks (r : InlineLBIDRange) : Set Int := Set.Ico r.start r.blockEnd

def lbidSpace : Set Int := Set.Ico 0 ((maxLBIDSize : Int) * 1024)

/-- Extent slots on the left, free-list slots on the right; an unused slot is empty. -/
def cell (s : Map) : Nat ⊕ Nat → Set Int
  | .inl i => blocks (fExtentMap s i).range
  | .inr j => blocks (fFreeList s j)

structure Valid (s : Map) : Prop where
  tiling : Tiling (cell s) lbidSpace
  apart : ∀ i j, usedFree s i → usedFree s j → (fFreeList s i).blockEnd ≠ (fFreeList s j).start
  emCount : (fEMShminfo s).currentSize = sizeofEMEntry * Nat.count (usedExtent s) (emEntries s)
  flCount : (fFLShminfo s).currentSize =
    sizeofInlineLBIDRange * Nat.count (usedFree s) (flEntries s)
  emWhole : (fEMShminfo s).allocdSize = emEntries s * sizeofEMEntry
  flWhole : (fFLShminfo s).allocdSize = flEntries s * sizeofInlineLBIDRange
  emBeyond : ∀ i, usedExtent s i → i < emEntries s
  flBeyond : ∀ i, usedFree s i → i < flEntries s

variable {r : InlineLBIDRange}

@[simp] lemma mem_blocks {x : Int} :
    x ∈ blocks r ↔ r.start ≤ x ∧ x < r.start + (r.size : Int) * 1024 := Iff.rfl

lemma blocks_eq_empty (hun : r.size = 0) : blocks r = ∅ := by
  ext x
  simp [hun]

lemma fresh_valid : Valid fresh := by
  have em : ∀ i, (fExtentMap fresh i).range.size = 0 := fun _ => rfl
  have fl : ∀ i, fFreeList fresh i = if i = 0 then ⟨0, maxLBIDSize⟩ else zeroRange := fun _ => rfl
  have onlyFirst : ∀ i, usedFree fresh i ↔ i = 0 := by
    intro i
    by_cases first : i = 0 <;> simp [usedFree, fl, first, maxLBIDSize, zeroRange]
  have only : ∀ x i, x ∈ cell fresh i → i = .inr 0 := by
    rintro x (i | j) owned
    · simp [cell, blocks_eq_empty (em i)] at owned
    by_contra ho
    have hun : (fFreeList fresh j).size = 0 := by
      have : j ≠ 0 := fun first => ho (by rw [first])
      simp [fl, this, zeroRange]
    simp [cell, blocks_eq_empty hun] at owned
  have first : cell fresh (.inr 0) = lbidSpace := by
    ext x
    simp [cell, fl, lbidSpace]
  constructor
  · constructor
    · intro i x owned
      rw [only x i owned, first] at owned
      exact owned
    · intro x hm
      exact ⟨.inr 0, by rwa [first]⟩
    · intro x i j left right
      rw [only x i left, only x j right]
  · intro i j left right
    rw [onlyFirst] at left right
    subst left right
    simp [fl, InlineLBIDRange.blockEnd, maxLBIDSize]
  · have none : Nat.count (usedExtent fresh) (emEntries fresh) = 0 := by
      rw [count_congr (q := fun _ => False) (fun i _ => by simp [usedExtent, em])]
      simp
    rw [none]
    rfl
  · have one : Nat.count (usedFree fresh) (flEntries fresh) = 1 := by
      have := count_gain (p := fun _ => False) (q := usedFree fresh) (n := flEntries fresh)
        (i := 0) (by decide) id ((onlyFirst 0).mpr rfl) (fun j _ ho => by simp [onlyFirst, ho])
      simpa using this
    rw [one]
    rfl
  · rfl
  · rfl
  · intro i hu
    exact absurd (em i) hu
  · intro i hu
    rw [(onlyFirst i).mp hu]
    decide

lemma same_of_used {a b : InlineLBIDRange} (he : a.size ≠ 0 ∨ b.size ≠ 0 → b = a) :
    blocks b = blocks a ∧ (b.size ≠ 0 ↔ a.size ≠ 0) := by
  by_cases hun : a.size = 0 ∧ b.size = 0
  · rw [blocks_eq_empty hun.1, blocks_eq_empty hun.2, hun.1, hun.2]
    exact ⟨rfl, Iff.rfl⟩
  · rw [he (by omega)]
    exact ⟨rfl, Iff.rfl⟩

variable {s t : Map}

/-- The used ranges are the same, in tables that may have become longer. -/
lemma valid_resized (hv : Valid s)
    (extents : ∀ i, usedExtent s i ∨ usedExtent t i →
      (fExtentMap t i).range = (fExtentMap s i).range)
    (free : ∀ i, usedFree s i ∨ usedFree t i → fFreeList t i = fFreeList s i)
    (em : (fEMShminfo t).currentSize = (fEMShminfo s).currentSize)
    (fl : (fFLShminfo t).currentSize = (fFLShminfo s).currentSize)
    (emWhole : (fEMShminfo t).allocdSize = emEntries t * sizeofEMEntry)
    (flWhole : (fFLShminfo t).allocdSize = flEntries t * sizeofInlineLBIDRange)
    (emMore : emEntries s ≤ emEntries t) (flMore : flEntries s ≤ flEntries t) : Valid t := by
  have usedE : ∀ i, usedExtent t i ↔ usedExtent s i := fun i => (same_of_used (extents i)).2
  have usedF : ∀ i, usedFree t i ↔ usedFree s i := fun i => (same_of_used (free i)).2
  have cells : cell t = cell s := by
    funext c
    cases c with
    | inl i => exact (same_of_used (extents i)).1
    | inr i => exact (same_of_used (free i)).1
  constructor
  · rw [cells]
    exact hv.tiling
  · intro i j left right
    rw [free i (.inr left), free j (.inr right)]
    exact hv.apart i j ((usedF i).mp left) ((usedF j).mp right)
  · rw [em, hv.emCount, count_congr fun i _ => usedE i, count_extend emMore fun i above hu =>
      absurd (hv.emBeyond i hu) above.not_gt]
  · rw [fl, hv.flCount, count_congr fun i _ => usedF i, count_extend flMore fun i above hu =>
      absurd (hv.flBeyond i hu) above.not_gt]
  · exact emWhole
  · exact flWhole
  · exact fun i hu => (hv.emBeyond i ((usedE i).mp hu)).trans_le emMore
  · exact fun i hu => (hv.flBeyond i ((usedF i).mp hu)).trans_le flMore

lemma valid_congr (extents : ∀ i, (fExtentMap t i).range = (fExtentMap s i).range)
    (free : ∀ i, fFreeList t i = fFreeList s i) (em : fEMShminfo t = fEMShminfo s)
    (fl : fFLShminfo t = fFLShminfo s) (hv : Valid s) : Valid t := by
  have lenE : emEntries t = emEntries s := by simp [emEntries, em]
  have lenF : flEntries t = flEntries s := by simp [flEntries, fl]
  refine valid_resized hv (fun i _ => extents i) (fun i _ => free i) (by rw [em]) (by rw [fl]) ?_ ?_
    lenE.ge lenF.ge
  · rw [em, lenE, hv.emWhole]
  · rw [fl, lenF, hv.flWhole]

lemma Valid.makeUndoRecord (hv : Valid s) (a : Addr) : Valid (s.makeUndoRecord a) :=
  valid_congr (s := s) (fun _ => rfl) (fun _ => rfl) rfl rfl hv

variable {i : Nat}

section Bounds

variable {s : Map} (valid : Valid s)
include valid

/-- A used range lies in the space. -/
lemma Valid.bounds {c : Nat ⊕ Nat} (here : cell s c = blocks r) (used : r.size ≠ 0) :
    0 ≤ r.start ∧ r.blockEnd ≤ (maxLBIDSize : Int) * 1024 := by
  have first := valid.tiling.inside c r.start (by rw [here, mem_blocks]; omega)
  have last := valid.tiling.inside c (r.blockEnd - 1)
    (by rw [here, mem_blocks, InlineLBIDRange.blockEnd]; omega)
  simp only [lbidSpace, Set.mem_Ico] at first last
  omega

lemma Valid.free_bounds {j : Nat} (hu : usedFree s j) :
    0 ≤ (fFreeList s j).start ∧ (fFreeList s j).blockEnd ≤ (maxLBIDSize : Int) * 1024 :=
  valid.bounds (c := .inr j) rfl hu

lemma Valid.extent_bounds (hu : usedExtent s i) : 0 ≤ (fExtentMap s i).range.start ∧
    (fExtentMap s i).range.blockEnd ≤ (maxLBIDSize : Int) * 1024 :=
  valid.bounds (c := .inl i) rfl hu

/-- Two used free ranges that meet in a point are the same slot. -/
lemma Valid.free_disjoint {j : Nat} {x : Int} (left : x ∈ blocks (fFreeList s i))
    (right : x ∈ blocks (fFreeList s j)) : i = j := by
  have := valid.tiling.disjoint x (.inr i) (.inr j) left right
  simpa using this

end Bounds

variable {k : Nat}

/-- Slot `i` of the extent table and the free-list slots in `absorbed` become the single
free range at `k`. -/
lemma absorb_valid (hv : Valid s) (hu : usedExtent s i) (absorbed : Set Nat)
    (hm : k ∈ absorbed) (bound : k < flEntries s) (extents : ∀ j, (fExtentMap t j).range =
      if j = i then ⟨(fExtentMap s i).range.start, 0⟩ else (fExtentMap s j).range)
    (kept : ∀ j, j ∉ absorbed → fFreeList t j = fFreeList s j)
    (emptied : ∀ j ∈ absorbed, j ≠ k → (fFreeList t j).size = 0)
    (hfil : ∀ x, x ∈ blocks (fFreeList t k) ↔
      x ∈ blocks (fExtentMap s i).range ∨ ∃ j ∈ absorbed, x ∈ blocks (fFreeList s j))
    (hne : (fFreeList t k).size ≠ 0) (clear : ∀ j, j ∉ absorbed → usedFree s j →
      (fFreeList s j).blockEnd ≠ (fFreeList t k).start ∧
        (fFreeList t k).blockEnd ≠ (fFreeList s j).start) (em : fEMShminfo t =
      { fEMShminfo s with currentSize := (fEMShminfo s).currentSize + -sizeofEMEntry })
    (alloc : (fFLShminfo t).allocdSize = (fFLShminfo s).allocdSize)
    (flCount : (fFLShminfo t).currentSize =
      sizeofInlineLBIDRange * Nat.count (usedFree t) (flEntries s)) : Valid t := by
  have lenE : emEntries t = emEntries s := by simp [emEntries, em]
  have lenF : flEntries t = flEntries s := by simp [flEntries, alloc]
  have usedE : ∀ j, usedExtent t j ↔ usedExtent s j ∧ j ≠ i := by
    intro j
    by_cases he : j = i <;> simp [usedExtent, extents, he]
  have usedF : ∀ j, usedFree t j → j = k ∨ (j ∉ absorbed ∧ usedFree s j) := by
    intro j hh
    by_cases hi : j ∈ absorbed
    · by_cases target : j = k
      · exact Or.inl target
      · exact absurd (emptied j hi target) hh
    · exact Or.inr ⟨hi, by simpa [usedFree, kept j hi] using hh⟩
  constructor
  · refine hv.tiling.merge (insert (.inl i) (Sum.inr '' absorbed)) (.inr k)
      (Set.mem_insert_of_mem _ (Set.mem_image_of_mem _ hm)) ?_ ?_ ?_
    · rintro (j | j) hout
      · have : j ≠ i := by rintro rfl; exact hout (Set.mem_insert _ _)
        simp [cell, extents, this]
      · have : j ∉ absorbed := fun hi =>
          hout (Set.mem_insert_of_mem _ (Set.mem_image_of_mem _ hi))
        simp [cell, kept j this]
    · rintro (j | j) hi ho
      · have he : j = i := by simpa using hi
        exact blocks_eq_empty (by simp [extents, he])
      · have : j ∈ absorbed := by simpa using hi
        exact blocks_eq_empty (emptied j this (fun he => ho (by rw [he])))
    · intro x
      rw [cell, hfil]
      simp [cell]
  · intro a b left right
    have self : (fFreeList t k).blockEnd ≠ (fFreeList t k).start := by
      simp only [InlineLBIDRange.blockEnd]
      omega
    rcases usedF a left with rfl | ⟨outA, usedA⟩ <;> rcases usedF b right with rfl | ⟨outB, usedB⟩
    · exact self
    · rw [kept b outB]
      exact (clear b outB usedB).2
    · rw [kept a outA]
      exact (clear a outA usedA).1
    · rw [kept a outA, kept b outB]
      exact hv.apart a b usedA usedB
  · have count : Nat.count (usedExtent s) (emEntries s) =
        Nat.count (usedExtent t) (emEntries s) + 1 :=
      count_gain (hv.emBeyond i hu) (by simp [usedE]) hu (fun j _ ho => by simp [usedE, ho])
    have := hv.emCount
    rw [lenE]
    simp only [em, this, count]
    push_cast
    ring
  · rw [lenF]
    exact flCount
  · simpa [em, lenE] using hv.emWhole
  · simpa [alloc, lenF] using hv.flWhole
  · intro j hh
    rw [lenE]
    exact hv.emBeyond j ((usedE j).mp hh).1
  · intro j hh
    rw [lenF]
    rcases usedF j hh with rfl | ⟨_, hb⟩
    · exact bound
    · exact hv.flBeyond j hb

/-- What the scan of the free list knows after the first `n` slots. -/
structure FitSpec (fl : Nat → InlineLBIDRange) (r : InlineLBIDRange) (n : Nat)
    (fit : FreeListFit) : Prop where
  free : ∀ k, fit.freeIndex = some k → k < n ∧ (fl k).size = 0
  full : fit.freeIndex = none → ∀ k, k < n → (fl k).size ≠ 0
  after : ∀ k, fit.succeeding = some k → k < n ∧ (fl k).size ≠ 0 ∧ r.blockEnd = (fl k).start
  noAfter : fit.succeeding = none → ∀ k, k < n → (fl k).size ≠ 0 → r.blockEnd ≠ (fl k).start
  before : ∀ k, fit.preceeding = some k → k < n ∧ (fl k).size ≠ 0 ∧ (fl k).blockEnd = r.start
  noBefore : fit.preceeding = none →
    ∀ k, k < n → (fl k).size ≠ 0 → r.blockEnd ≠ (fl k).start → (fl k).blockEnd ≠ r.start

lemma fitStep_spec {fl : Nat → InlineLBIDRange} {fit : FreeListFit} (spec : FitSpec fl r i fit) :
    FitSpec fl r (i + 1) (fitStep fl r i fit) := by
  have grow : ∀ k, k < i + 1 → k ≠ i → k < i := fun k hl ho => by omega
  have later : ∀ {k P}, k < i ∧ P → k < i + 1 ∧ P := And.imp_left Nat.lt_succ_of_lt
  unfold fitStep
  split
  · rename_i hun
    refine ⟨fun k hit => ?_, by simp, fun k hit => ?_, fun none k hl size => ?_,
      fun k hit => ?_, fun none k hl size => ?_⟩
    · obtain rfl : i = k := by simpa using hit
      exact ⟨by omega, hun⟩
    · exact later (spec.after k hit)
    · exact spec.noAfter none k (grow k hl (fun he => size (he ▸ hun))) size
    · exact later (spec.before k hit)
    · exact spec.noBefore none k (grow k hl (fun he => size (he ▸ hun))) size
  · rename_i size
    have free : ∀ k, fit.freeIndex = some k → k < i + 1 ∧ (fl k).size = 0 := fun k hit =>
      later (spec.free k hit)
    have full : fit.freeIndex = none → ∀ k, k < i + 1 → (fl k).size ≠ 0 := by
      intro none k hl
      by_cases last : k = i
      · exact last ▸ size
      · exact spec.full none k (grow k hl last)
    split
    · rename_i touches
      refine ⟨free, full, fun k hit => ?_, by simp, fun k hit => ?_, fun none k hl hu away => ?_⟩
      · obtain rfl : i = k := by simpa using hit
        exact ⟨by omega, size, touches⟩
      · exact later (spec.before k hit)
      · exact spec.noBefore none k (grow k hl (fun he => away (he ▸ touches))) hu away
    · rename_i away
      have noAfter : fit.succeeding = none →
          ∀ k, k < i + 1 → (fl k).size ≠ 0 → r.blockEnd ≠ (fl k).start := by
        intro none k hl hu
        by_cases last : k = i
        · exact last ▸ away
        · exact spec.noAfter none k (grow k hl last) hu
      have ha : ∀ k, fit.succeeding = some k →
          k < i + 1 ∧ (fl k).size ≠ 0 ∧ r.blockEnd = (fl k).start := fun k hit =>
        later (spec.after k hit)
      split
      · rename_i touches
        refine ⟨free, full, ha, noAfter, fun k hit => ?_, by simp⟩
        obtain rfl : i = k := by simpa using hit
        exact ⟨by omega, size, touches⟩
      rename_i hap
      refine ⟨free, full, ha, noAfter, fun k hit => ?_, fun none k hl hu off => ?_⟩
      · exact later (spec.before k hit)
      · by_cases last : k = i
        · exact last ▸ hap
        · exact spec.noBefore none k (grow k hl last) hu off

variable {p : Nat}

/-- A free range moves to an unused slot. -/
lemma move_valid (hv : Valid s) (hu : usedFree s p) (bound : k < flEntries s)
    (hun : (fFreeList s k).size = 0) (extents : ∀ i, fExtentMap t i = fExtentMap s i)
    (free : ∀ j, fFreeList t j = if j = p then { fFreeList s p with size := 0 }
      else if j = k then fFreeList s p else fFreeList s j) (em : fEMShminfo t = fEMShminfo s)
    (fl : fFLShminfo t = fFLShminfo s) : Valid t := by
  have ho : k ≠ p := fun he => hu (he ▸ hun)
  have lenE : emEntries t = emEntries s := by simp [emEntries, em]
  have lenF : flEntries t = flEntries s := by simp [flEntries, fl]
  have usedE : usedExtent t = usedExtent s := by
    funext i
    simp [usedExtent, extents]
  have origin : ∀ j, usedFree t j → j ≠ p ∧ ∃ j', usedFree s j' ∧
      fFreeList t j = fFreeList s j' := by
    intro j hh
    by_cases source : j = p
    · simp [usedFree, free, source] at hh
    · by_cases target : j = k
      · exact ⟨source, p, hu, by simp [free, target, ho]⟩
      · exact ⟨source, j, by simpa [usedFree, free, source, target] using hh,
          by simp [free, source, target]⟩
  constructor
  · refine hv.tiling.merge {.inr p, .inr k} (.inr k) (by simp) ?_ ?_ ?_
    · rintro (i | j) hout
      · simp [cell, extents]
      · have : j ≠ p ∧ j ≠ k := by simpa using hout
        simp [cell, free, this.1, this.2]
    · rintro (i | j) hi away
      · simp at hi
      have : j = p := by
        rcases (by simpa using hi : j = p ∨ j = k) with source | target
        · exact source
        · exact absurd (by rw [target]) away
      exact blocks_eq_empty (by simp [free, this])
    · intro x
      simp [cell, free, ho, hun]
  · intro a b left right
    obtain ⟨_, a', usedA, sameA⟩ := origin a left
    obtain ⟨_, b', usedB, sameB⟩ := origin b right
    rw [sameA, sameB]
    exact hv.apart a' b' usedA usedB
  · simpa [em, lenE, usedE] using hv.emCount
  · rw [lenF, fl, hv.flCount]
    have hb : Nat.count (usedFree s) (flEntries s) =
        Nat.count (fun j => usedFree s j ∧ j ≠ p) (flEntries s) + 1 :=
      count_gain (hv.flBeyond p hu) (by simp) hu (fun j _ away => by simp [away])
    have ha : Nat.count (usedFree t) (flEntries s) =
        Nat.count (fun j => usedFree s j ∧ j ≠ p) (flEntries s) + 1 := by
      refine count_gain bound (by simp [usedFree, hun]) ?_ ?_
      · simpa [usedFree, free, ho] using hu
      · intro j _ away
        by_cases source : j = p <;> simp [usedFree, free, source, away]
    rw [hb, ha]
  · simpa [em, lenE] using hv.emWhole
  · simpa [fl, lenF] using hv.flWhole
  · simpa [lenE, usedE] using hv.emBeyond
  · intro j hh
    rw [lenF]
    by_cases target : j = k
    · exact target ▸ bound
    · refine hv.flBeyond j ?_
      have source := (origin j hh).1
      simpa [usedFree, free, source, target] using hh

/-- The entry keeps its range and the other used slots stay where they were. -/
structure Migrated (s : Map) (p : Nat) (result : Nat × Map) : Prop where
  valid : Valid result.2
  range : fFreeList result.2 result.1 = fFreeList s p
  others : ∀ j, usedFree s j → j ≠ p → j ≠ result.1 ∧ fFreeList result.2 j = fFreeList s j
  origin : ∀ j, usedFree result.2 j → j ≠ result.1 →
    usedFree s j ∧ j ≠ p ∧ fFreeList result.2 j = fFreeList s j
  extents : ∀ i, fExtentMap result.2 i = fExtentMap s i
  em : fEMShminfo result.2 = fEMShminfo s
  fl : fFLShminfo result.2 = fFLShminfo s

lemma migrateUpward_migrated (hv : Valid s) (hu : usedFree s p) {freeIndex : Option Nat}
    (hun : ∀ k, freeIndex = some k → k < flEntries s ∧ (fFreeList s k).size = 0) :
    Migrated s p (migrateUpward s p freeIndex) := by
  have stay : Migrated s p (p, s) :=
    ⟨hv, rfl, fun j _ away => ⟨away, rfl⟩, fun j hh away => ⟨hh, away, rfl⟩, fun _ => rfl, rfl, rfl⟩
  cases choice : freeIndex with
  | none => exact stay
  | some k =>
    obtain ⟨bound, hem⟩ := hun k choice
    by_cases hl : k < p
    · have ho : ¬ k = p := by omega
      have free : ∀ j, fFreeList (migrateUpward s p (some k)).2 j =
          if j = p then { fFreeList s p with size := 0 }
          else if j = k then fFreeList s p else fFreeList s j := by
        intro j
        simp [migrateUpward, hl]
      refine ⟨move_valid hv hu bound hem ?_ free ?_ ?_, ?_, ?_, ?_, ?_, ?_, ?_⟩
      · simp [migrateUpward, hl]
      · simp [migrateUpward, hl]
      · simp [migrateUpward, hl]
      · simp [migrateUpward, hl, ho]
      · intro j hh away
        have : j ≠ k := fun he => hh (he ▸ hem)
        exact ⟨by simpa [migrateUpward, hl] using this, by simp [free, away, this]⟩
      · intro j hh away
        have target : j ≠ k := by simpa [migrateUpward, hl] using away
        by_cases source : j = p
        · simp [usedFree, free, source] at hh
        · have heq : fFreeList (migrateUpward s p (some k)).2 j = fFreeList s j := by
            simp [free, source, target]
          exact ⟨by simpa [usedFree, heq] using hh, source, heq⟩
      all_goals simp [migrateUpward, hl]
    · simpa [migrateUpward, hl] using stay

lemma growFLShmseg_valid (hv : Valid s) : Valid (growFLShmseg s) := by
  have hwh := hv.flWhole
  have len : flEntries (growFLShmseg s) = flEntries s + 50 := by
    simp only [flEntries, fFLShminfo_growFLShmseg, flIncrement, sizeofInlineLBIDRange] at hwh ⊢
    omega
  refine valid_resized hv (fun i _ => by simp) (fun i hu => ?_) (by simp) (by simp) ?_ ?_
    (by simp [emEntries]) (by omega)
  · by_cases hi : i < flEntries s
    · simp [hi]
    · rcases hu with hu | hu
      · exact absurd (hv.flBeyond i hu) hi
      · simp [usedFree, hi, zeroRange] at hu
  · simpa [emEntries] using hv.emWhole
  · rw [len]
    simp only [fFLShminfo_growFLShmseg, flIncrement, hwh]
    ring

variable {n : Nat}

lemma u32_of_le (bound : n ≤ maxLBIDSize) : u32 n = n :=
  Nat.mod_eq_of_lt (by simp only [maxLBIDSize] at bound; omega)

section Deletion

variable {s : Map} {i : Nat}

abbrev neighbours (s : Map) (i : Nat) : FreeListFit :=
  findFit (fFreeList s) (fExtentMap s i).range (flEntries s)

lemma neighbours_spec (s : Map) (i : Nat) :
    FitSpec (fFreeList s) (fExtentMap s i).range (flEntries s) (neighbours s i) :=
  forEach_invariant (FitSpec (fFreeList s) (fExtentMap s i).range)
    ⟨by simp, by simp, by simp, by simp, by simp, by simp⟩ (fun _ _ _ spec => fitStep_spec spec)

lemma delete_between (hv : Valid s) (hu : usedExtent s i)
    (hb : (neighbours s i).preceeding = some p)
    (ha : (neighbours s i).succeeding = some n) :
    Valid (deleteExtent i s) := by
  have spec := neighbours_spec s i
  obtain ⟨boundP, usedP, touchP⟩ := spec.before p hb
  obtain ⟨boundN, usedN, touchN⟩ := spec.after n ha
  obtain ⟨lowP, highP⟩ := hv.free_bounds usedP
  obtain ⟨lowN, highN⟩ := hv.free_bounds usedN
  have ho : n ≠ p := by
    rintro rfl
    simp only [InlineLBIDRange.blockEnd] at touchP touchN
    omega
  have hmo := migrateUpward_migrated (s := s.makeUndoRecord (.free p))
    (hv.makeUndoRecord _) usedP spec.free
  generalize result : migrateUpward (s.makeUndoRecord (.free p)) p _ = m at hmo
  obtain ⟨q, m⟩ := m
  obtain ⟨away, (rangeN : fFreeList m n = fFreeList s n)⟩ := hmo.others n usedN ho
  have usedQ : usedFree m q := by simpa [usedFree, hmo.range] using usedP
  have rangeQ : fFreeList m q = fFreeList s p := hmo.range
  have sizeP : (fFreeList s p).size ≠ 0 := usedP
  have extents : ∀ j, fExtentMap m j = fExtentMap s j := hmo.extents
  have infoM : fFLShminfo m = fFLShminfo s := hmo.fl
  have lenF : flEntries m = flEntries s := by simp [flEntries, infoM]
  have total : u32 ((fFreeList s p).size + ((fFreeList s n).size + (fExtentMap s i).range.size)) =
      (fFreeList s p).size + ((fFreeList s n).size + (fExtentMap s i).range.size) := by
    refine u32_of_le ?_
    simp only [InlineLBIDRange.blockEnd] at touchP touchN highN
    omega
  have free : ∀ j, fFreeList (deleteExtent i s) j =
      if j = n then { fFreeList s n with size := 0 }
      else if j = q then { fFreeList s p with
        size := (fFreeList s p).size + ((fFreeList s n).size + (fExtentMap s i).range.size) }
      else fFreeList m j := by
    intro j
    simp [releaseRange, hb, ha, result, rangeQ, rangeN, away, total]
  have info : fFLShminfo (deleteExtent i s) =
      { fFLShminfo s with currentSize := (fFLShminfo s).currentSize + -sizeofInlineLBIDRange } := by
    simp [releaseRange, hb, ha, result, infoM]
  have emptied : ∀ j, usedFree (deleteExtent i s) j ↔ usedFree m j ∧ j ≠ n := by
    intro j
    by_cases hh : j = n
    · simp [usedFree, free, hh]
    · by_cases target : j = q
      · simp [usedFree, free, target, rangeQ, sizeP, Ne.symm away]
      · simp [usedFree, free, hh, target]
  refine absorb_valid hmo.valid (i := i) (k := q) (by simpa [usedExtent, extents] using hu)
    {q, n} (by simp) (hmo.valid.flBeyond q usedQ) ?_ ?_ ?_ ?_ ?_ ?_ ?_ ?_ ?_
  · intro j
    by_cases he : j = i <;> simp [he, extents]
  · intro j hout
    have : j ≠ q ∧ j ≠ n := by simpa using hout
    simp [free, this.1, this.2]
  · intro j hi target
    have : j = n := by simpa [target] using hi
    simp [free, this]
  · intro x
    simp only [InlineLBIDRange.blockEnd] at touchP touchN
    simp [free, Ne.symm away, extents, rangeQ, rangeN]
    omega
  · simp [free, Ne.symm away, sizeP]
  · intro j hout hh
    have left := hmo.valid.apart j q hh usedQ
    have right := hmo.valid.apart n j (by simpa [usedFree, rangeN] using usedN) hh
    simp only [rangeQ, rangeN] at left right
    simp only [InlineLBIDRange.blockEnd] at touchP touchN left right ⊢
    simp [free, Ne.symm away]
    omega
  · have : fEMShminfo m = fEMShminfo s := hmo.em
    simp [this]
  · rw [info, infoM]
  · have count : Nat.count (usedFree m) (flEntries m) =
        Nat.count (usedFree (deleteExtent i s)) (flEntries m) + 1 :=
      count_gain (by rw [lenF]; exact boundN) (by simp [emptied])
        (by simpa [usedFree, rangeN] using usedN) (fun j _ off => by simp [emptied, off])
    have sizes := hmo.valid.flCount
    rw [count, infoM] at sizes
    rw [info]
    simp only [sizes]
    push_cast
    ring

/-- The deleted range and one free neighbour become the range `grown`. -/
lemma delete_beside (grown : InlineLBIDRange) (hv : Valid s) (hu : usedExtent s i)
    (usedP : usedFree s p) (merged : ∀ q m, migrateUpward (s.makeUndoRecord (.free p)) p
      (neighbours s i).freeIndex = (q, m) → fFreeList m q = fFreeList s p →
      (∀ j, fFreeList (deleteExtent i s) j = if j = q then grown else fFreeList m j) ∧
        fFLShminfo (deleteExtent i s) = fFLShminfo m) (size : grown.size ≠ 0)
    (joined : ∀ x, x ∈ blocks grown ↔
      x ∈ blocks (fExtentMap s i).range ∨ x ∈ blocks (fFreeList s p))
    (clear : ∀ j, usedFree s j → j ≠ p → (fFreeList s j).blockEnd ≠ grown.start ∧
      grown.blockEnd ≠ (fFreeList s j).start) : Valid (deleteExtent i s) := by
  have hmo := migrateUpward_migrated (hv.makeUndoRecord (.free p)) usedP (neighbours_spec s i).free
  generalize result : migrateUpward (s.makeUndoRecord (.free p)) p _ = m at hmo
  obtain ⟨q, m⟩ := m
  have rangeQ : fFreeList m q = fFreeList s p := hmo.range
  obtain ⟨free, info⟩ := merged q m result rangeQ
  have usedQ : usedFree m q := by simpa [usedFree, rangeQ] using usedP
  have extents : ∀ j, fExtentMap m j = fExtentMap s j := hmo.extents
  have infoM : fFLShminfo m = fFLShminfo s := hmo.fl
  have lenF : flEntries m = flEntries s := by simp [flEntries, infoM]
  have he : ∀ j, usedFree m j ↔ usedFree (deleteExtent i s) j := by
    intro j
    by_cases target : j = q
    · have : (fFreeList s p).size ≠ 0 := usedP
      simp [usedFree, free, target, size, rangeQ, this]
    · simp [usedFree, free, target]
  refine absorb_valid hmo.valid (i := i) (k := q) (by simpa [usedExtent, extents] using hu)
    {q} rfl (hmo.valid.flBeyond q usedQ) ?_ ?_ ?_ ?_ ?_ ?_ ?_ ?_ ?_
  · intro j
    by_cases hh : j = i <;> simp [hh, extents]
  · intro j hout
    have : j ≠ q := hout
    simp [free, this]
  · intro j hi target
    exact absurd hi target
  · intro x
    rw [free, if_pos rfl, joined]
    simp [extents, rangeQ]
  · simpa [free] using size
  · intro j hout hh
    obtain ⟨hb, ho, heq⟩ := hmo.origin j hh hout
    rw [free, if_pos rfl, heq]
    exact clear j hb ho
  · have : fEMShminfo m = fEMShminfo s := hmo.em
    simp [this]
  · rw [info]
  · rw [info, hmo.valid.flCount]
    rw [count_congr (fun j _ => he j)]

lemma delete_before (hv : Valid s) (hu : usedExtent s i)
    (hb : (neighbours s i).preceeding = none)
    (ha : (neighbours s i).succeeding = some n) :
    Valid (deleteExtent i s) := by
  have spec := neighbours_spec s i
  obtain ⟨boundN, usedN, touchN⟩ := spec.after n ha
  obtain ⟨lowR, highR⟩ := hv.extent_bounds hu
  obtain ⟨lowN, highN⟩ := hv.free_bounds usedN
  simp only [InlineLBIDRange.blockEnd] at touchN highN highR
  have total : u32 ((fFreeList s n).size + (fExtentMap s i).range.size) =
      (fFreeList s n).size + (fExtentMap s i).range.size := u32_of_le (by omega)
  refine delete_beside
    ⟨(fExtentMap s i).range.start, (fFreeList s n).size + (fExtentMap s i).range.size⟩
    hv hu usedN (fun q m result rangeQ => ⟨fun j => ?_, ?_⟩) ?_ ?_ ?_
  · simp [releaseRange, hb, ha, result, rangeQ, total]
  · simp [releaseRange, hb, ha, result]
  · simp only
    omega
  · intro x
    simp only [mem_blocks]
    omega
  intro j hh ho
  have hbe := hv.apart n j usedN hh
  have left := spec.noBefore hb j (hv.flBeyond j hh) hh
  have hdi : (fExtentMap s i).range.blockEnd ≠ (fFreeList s j).start := by
    intro meet
    refine ho (hv.free_disjoint (x := (fFreeList s j).start) ?_ ?_)
    · simp only [mem_blocks]
      have : (fFreeList s j).size ≠ 0 := hh
      omega
    · simp only [mem_blocks]
      simp only [InlineLBIDRange.blockEnd] at meet
      omega
  refine ⟨left hdi, ?_⟩
  simp only [InlineLBIDRange.blockEnd] at hbe ⊢
  omega

lemma delete_after (hv : Valid s) (hu : usedExtent s i)
    (hb : (neighbours s i).preceeding = some p)
    (ha : (neighbours s i).succeeding = none) :
    Valid (deleteExtent i s) := by
  have spec := neighbours_spec s i
  obtain ⟨boundP, usedP, touchP⟩ := spec.before p hb
  obtain ⟨lowR, highR⟩ := hv.extent_bounds hu
  obtain ⟨lowP, highP⟩ := hv.free_bounds usedP
  have size : (fExtentMap s i).range.size ≠ 0 := hu
  simp only [InlineLBIDRange.blockEnd] at touchP highP highR
  have total : u32 ((fFreeList s p).size + (fExtentMap s i).range.size) =
      (fFreeList s p).size + (fExtentMap s i).range.size := u32_of_le (by omega)
  refine delete_beside
    { fFreeList s p with size := (fFreeList s p).size + (fExtentMap s i).range.size }
    hv hu usedP (fun q m result rangeQ => ⟨fun j => ?_, ?_⟩) ?_ ?_ ?_
  · simp [releaseRange, hb, ha, result, rangeQ, total]
  · simp [releaseRange, hb, ha, result]
  · simp only
    omega
  · intro x
    simp only [mem_blocks]
    omega
  intro j hh ho
  have ahead := hv.apart j p hh usedP
  have right := spec.noAfter ha j (hv.flBeyond j hh) hh
  refine ⟨ahead, ?_⟩
  simp only [InlineLBIDRange.blockEnd] at right ⊢
  omega

/-- No free neighbour: the deleted range is stored in the unused slot `k` of `m`, which is
the map itself or the map with a longer free list. -/
lemma delete_into {m : Map} (hv : Valid m) (hu : usedExtent m i) (bound : k < flEntries m)
    (hun : (fFreeList m k).size = 0) (extents : ∀ j, fExtentMap m j = fExtentMap s j)
    (em : fEMShminfo m = fEMShminfo s) (free : ∀ j, fFreeList (deleteExtent i s) j =
      if j = k then (fExtentMap s i).range else fFreeList m j)
    (info : fFLShminfo (deleteExtent i s) =
      { fFLShminfo m with currentSize := (fFLShminfo m).currentSize + sizeofInlineLBIDRange })
    (clear : ∀ j, usedFree m j → (fFreeList m j).blockEnd ≠ (fExtentMap s i).range.start ∧
      (fExtentMap s i).range.blockEnd ≠ (fFreeList m j).start) : Valid (deleteExtent i s) := by
  have size : (fExtentMap s i).range.size ≠ 0 := by simpa [usedExtent, extents] using hu
  refine absorb_valid hv (i := i) (k := k) hu {k} rfl bound ?_ ?_ ?_ ?_ ?_ ?_ ?_ ?_ ?_
  · intro j
    by_cases hh : j = i <;> simp [hh, extents]
  · intro j hout
    have : j ≠ k := hout
    simp [free, this]
  · intro j hi target
    exact absurd hi target
  · intro x
    rw [free, if_pos rfl, ← extents]
    simp only [Set.mem_singleton_iff, exists_eq_left, blocks_eq_empty hun,
      Set.mem_empty_iff_false, or_false]
  · simpa [free] using size
  · intro j hout hh
    rw [free, if_pos rfl]
    exact clear j hh
  · simp [em]
  · rw [info]
  have count : Nat.count (usedFree (deleteExtent i s)) (flEntries m) =
      Nat.count (usedFree m) (flEntries m) + 1 :=
    count_gain bound (by simp [usedFree, hun]) (by simpa [usedFree, free] using size)
      (fun j _ ho => by simp [usedFree, free, ho])
  rw [info, count]
  simp only [hv.flCount]
  push_cast
  ring

lemma delete_alone (hv : Valid s) (hu : usedExtent s i)
    (hb : (neighbours s i).preceeding = none)
    (ha : (neighbours s i).succeeding = none) :
    Valid (deleteExtent i s) := by
  have spec := neighbours_spec s i
  have clear : ∀ j, usedFree s j → (fFreeList s j).blockEnd ≠ (fExtentMap s i).range.start ∧
      (fExtentMap s i).range.blockEnd ≠ (fFreeList s j).start := by
    intro j hh
    have right := spec.noAfter ha j (hv.flBeyond j hh) hh
    exact ⟨spec.noBefore hb j (hv.flBeyond j hh) hh right, right⟩
  by_cases full : (fFLShminfo s).currentSize = (fFLShminfo s).allocdSize
  · have grown := growFLShmseg_valid hv
    have longer : flEntries s < flEntries (growFLShmseg s) := by
      simp only [flEntries, fFLShminfo_growFLShmseg, flIncrement, sizeofInlineLBIDRange]
      omega
    refine delete_into grown (k := flEntries s) (by simpa [usedExtent] using hu) longer
      (by simp [zeroRange]) (by simp) (by simp) ?_ ?_ ?_
    · intro j
      simp [releaseRange, hb, ha, full]
    · simp [releaseRange, hb, ha, full]
    intro j hh
    by_cases hi : j < flEntries s
    · have : usedFree s j := by simpa [usedFree, hi] using hh
      simpa [hi] using clear j this
    · simp [usedFree, hi, zeroRange] at hh
  · have room : Nat.count (usedFree s) (flEntries s) < flEntries s := by
      have count := hv.flCount
      have hwh := hv.flWhole
      have := Nat.count_le (usedFree s) (n := flEntries s)
      simp only [sizeofInlineLBIDRange] at count hwh
      omega
    obtain ⟨free, bound, unusedAt⟩ := exists_of_count_lt room
    cases choice : (neighbours s i).freeIndex with
    | none => exact absurd (spec.full choice free bound) unusedAt
    | some k =>
      obtain ⟨hl, hun⟩ := spec.free k choice
      refine delete_into hv (k := k) hu hl hun (fun _ => rfl) rfl ?_ ?_ clear
      · intro j
        simp [releaseRange, hb, ha, full, choice]
      · simp [releaseRange, hb, ha, full]

lemma deleteExtent_valid (hv : Valid s) (hu : usedExtent s i) : Valid (deleteExtent i s) := by
  cases hb : (neighbours s i).preceeding with
  | none =>
    cases ha : (neighbours s i).succeeding with
    | none => exact delete_alone hv hu hb ha
    | some n => exact delete_before hv hu hb ha
  | some p =>
    cases ha : (neighbours s i).succeeding with
    | none => exact delete_after hv hu hb ha
    | some n => exact delete_between hv hu hb ha

end Deletion

end LbidTiling
