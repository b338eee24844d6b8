import EryDb.TopSlices

/-!
# The sort of the window functions

A quicksort in place. Both indices move towards each other from the ends of the range; the
pivot is a copy of the row in the middle, so each scan stops at that row at the latest, and the
first exchange takes both indices off the ends. Every access goes through the bounds of the
range: a run that returns has touched nothing outside.
-/

namespace WindowFunction

open List
open TopSlices (WeakOrder Sorted)

variable {α : Type} (less : α → α → Bool)

/-- The loop around the pivot `p`, with `k` one more than the upper index. -/
def partition (p : α) : Nat → List α → Nat → Nat → Option (List α × Nat × Nat)
  | 0, _, _, _ => none
  | fuel + 1, v, l, k =>
    if l < k then
      v[l]?.bind fun low =>
        if less low p then partition p fuel v (l + 1) k
        else v[k - 1]?.bind fun high =>
          if less p high then partition p fuel v l (k - 1)
          else partition p fuel ((v.set l high).set (k - 1) low) (l + 1) (k - 1)
    else some (v, l, k)

/-- The rows of a range of `v.length` places; the two calls get the places below `k` and from
`l`. -/
def sort : Nat → List α → Option (List α)
  | 0, _ => none
  | fuel + 1, v =>
    if v.length < 2 then some v
    else v[v.length / 2]?.bind fun p =>
      (partition less p (v.length + 1) v 0 v.length).bind fun (v, l, k) =>
        (sort fuel (v.take k)).bind fun low =>
          (sort fuel (v.drop l)).map fun high => low ++ (v.take l).drop k ++ high

variable {less} {p : α} {v rows : List α} {l k fuel : Nat}

/-- What the loop keeps. Until the first exchange the pivot is still between the indices. -/
structure Parted (less : α → α → Bool) (p : α) (rows v : List α) (l k : Nat) : Prop where
  perm : v.Perm rows
  bound : k ≤ v.length
  lower : ∀ i < l, ∀ x ∈ v[i]?, less p x = false
  upper : ∀ i ≥ k, ∀ x ∈ v[i]?, less x p = false
  moved : (0 < l ∧ k < v.length) ∨ ∃ i, l ≤ i ∧ i < k ∧ v[i]? = some p

lemma Parted.partition (weak : WeakOrder less) (parted : Parted less p rows v l k)
    (enough : k - l < fuel) : ∃ v' l' k', partition less p fuel v l k = some (v', l', k') ∧
      k' ≤ l' ∧ Parted less p rows v' l' k' := by
  induction fuel generalizing v l k with
  | zero => omega
  | succ fuel ih =>
    rw [WindowFunction.partition]
    split
    swap
    · exact ⟨v, l, k, rfl, by omega, parted⟩
    rename_i apart
    obtain ⟨perm, bound, lower, upper, moved⟩ := parted
    have atL : v[l]? = some v[l] := getElem?_eq_getElem (by omega)
    have atK : v[k - 1]? = some v[k - 1] := getElem?_eq_getElem (by omega)
    rw [atL, Option.bind_some]
    split
    · rename_i below
      refine ih ⟨perm, bound, fun i inside x here => ?_, upper, ?_⟩ (by omega)
      · rcases Nat.lt_succ_iff_lt_or_eq.mp inside with before | rfl
        · exact lower i before x here
        · rw [atL] at here
          cases here
          exact weak.asymm below
      · refine moved.imp (fun off => ⟨by omega, off.2⟩) ?_
        rintro ⟨i, low, high, pivot⟩
        refine ⟨i, lt_of_le_of_ne low ?_, high, pivot⟩
        rintro rfl
        rw [atL, Option.some.injEq] at pivot
        rw [pivot, weak.irrefl] at below
        cases below
    rename_i notBelow
    rw [atK, Option.bind_some]
    split
    · rename_i above
      refine ih ⟨perm, by omega, lower, fun i inside x here => ?_, ?_⟩ (by omega)
      · rcases eq_or_lt_of_le inside with rfl | behind
        · rw [atK] at here
          cases here
          exact weak.asymm above
        · exact upper i (by omega) x here
      · refine moved.imp (fun off => ⟨off.1, by omega⟩) ?_
        rintro ⟨i, low, high, pivot⟩
        refine ⟨i, low, ?_, pivot⟩
        by_contra last
        obtain rfl : i = k - 1 := by omega
        rw [atK, Option.some.injEq] at pivot
        rw [pivot, weak.irrefl] at above
        cases above
    · rename_i notAbove
      clear moved
      have atEither : ∀ i x, ((v.set l v[k - 1]).set (k - 1) v[l])[i]? = some x →
          (i = k - 1 ∧ x = v[l]) ∨ (i = l ∧ x = v[k - 1]) ∨
            (i ≠ k - 1 ∧ i ≠ l ∧ v[i]? = some x) := by
        intro i x here
        rw [getElem?_set, getElem?_set] at here
        grind
      refine ih ⟨(set_set_perm (by omega) (by omega)).trans perm, by simp only [length_set]; omega,
        fun i inside x here => ?_, fun i inside x here => ?_,
        .inl ⟨by omega, by simp only [length_set]; omega⟩⟩ (by omega)
      · rcases atEither i x here with ⟨rfl, rfl⟩ | ⟨-, rfl⟩ | ⟨-, away, old⟩
        · obtain rfl : l = k - 1 := by omega
          exact Bool.eq_false_of_not_eq_true notAbove
        · exact Bool.eq_false_of_not_eq_true notAbove
        · exact lower i (by omega) x old
      · rcases atEither i x here with ⟨-, rfl⟩ | ⟨rfl, rfl⟩ | ⟨away, -, old⟩
        · exact Bool.eq_false_of_not_eq_true notBelow
        · obtain rfl : i = k - 1 := by omega
          exact Bool.eq_false_of_not_eq_true notBelow
        · exact upper i (by omega) x old

/-- The rows between the indices after the loop are like the pivot, those below and above on their
side of it. -/
theorem sort_sorts (weak : WeakOrder less) (rows : List α) (fuel : Nat)
    (enough : rows.length < fuel) :
    ∃ out, sort less fuel rows = some out ∧ out.Perm rows ∧ Sorted less out := by
  induction fuel generalizing rows with
  | zero => omega
  | succ fuel ih =>
    rw [sort]
    split
    · rename_i short
      refine ⟨rows, rfl, .refl rows, ?_⟩
      match rows, short with
      | [], _ => exact .nil
      | [x], _ => exact pairwise_singleton _ x
    rename_i long
    have middle : rows[rows.length / 2]? = some rows[rows.length / 2] :=
      getElem?_eq_getElem (by omega)
    have start : Parted less rows[rows.length / 2] rows rows 0 rows.length := by
      refine ⟨.refl rows, le_rfl, nofun, fun i behind x here => ?_,
        .inr ⟨_, by omega, by omega, middle⟩⟩
      rw [getElem?_eq_none behind] at here
      cases here
    obtain ⟨v, l, k, ran, crossed, parted⟩ := start.partition weak (by omega : _ < rows.length + 1)
    generalize rows[rows.length / 2] = p at middle parted ran
    have size := parted.perm.length_eq
    have off : 0 < l ∧ k < v.length := parted.moved.resolve_right fun ⟨i, low, high, _⟩ => by omega
    obtain ⟨low, ranLow, permLow, sortedLow⟩ := ih (v.take k) (by rw [length_take]; omega)
    obtain ⟨high, ranHigh, permHigh, sortedHigh⟩ := ih (v.drop l) (by rw [length_drop]; omega)
    refine ⟨low ++ (v.take l).drop k ++ high, ?_, ?_, ?_⟩
    · simp only [middle, ran, ranLow, ranHigh, Option.bind_some, Option.map_some]
    · have whole : v.take k ++ (v.take l).drop k ++ v.drop l = v := by
        have cut : v.take k = (v.take l).take k := by rw [take_take, min_eq_left crossed]
        rw [cut, take_append_drop, take_append_drop]
      exact (((permLow.append_right _).append permHigh).trans (.of_eq whole)).trans parted.perm
    · have lower : ∀ x ∈ v.take l, less p x = false := by
        intro x mem
        obtain ⟨i, here⟩ := mem_iff_getElem?.mp mem
        rw [getElem?_take] at here
        split at here
        · exact parted.lower i ‹_› x here
        · cases here
      have upper : ∀ x ∈ v.drop k, less x p = false := by
        intro x mem
        obtain ⟨i, here⟩ := mem_iff_getElem?.mp mem
        rw [getElem?_drop] at here
        exact parted.upper (k + i) (Nat.le_add_right k i) x here
      have across : ∀ a ∈ v.take l, ∀ b ∈ v.drop k, less b a = false :=
        fun a inLower b inUpper => weak.trans (lower a inLower) (upper b inUpper)
      have inLow : ∀ x ∈ low, x ∈ v.take l := fun x mem =>
        take_subset_take_left v crossed (permLow.mem_iff.mp mem)
      have inHigh : ∀ x ∈ high, x ∈ v.drop k := fun x mem =>
        drop_subset_drop_left v crossed (permHigh.mem_iff.mp mem)
      have inBoth : ∀ x ∈ (v.take l).drop k, x ∈ v.take l ∧ x ∈ v.drop k := fun x mem =>
        ⟨mem_of_mem_drop mem, mem_of_mem_take (drop_take ▸ mem)⟩
      rw [Sorted, append_assoc, pairwise_append, pairwise_append]
      refine ⟨sortedLow, ⟨pairwise_of_forall_mem_list fun a ha b hb =>
        across a (inBoth a ha).1 b (inBoth b hb).2, sortedHigh, fun a ha b hb =>
          across a (inBoth a ha).1 b (inHigh b hb)⟩, fun a ha b hb => across a (inLow a ha) b ?_⟩
      exact (mem_append.mp hb).elim (fun between => (inBoth b between).2) (inHigh b)

theorem sort_sorts_numbers :
    ∃ out, sort (fun a b : Nat => decide (a < b)) 5 [3, 1, 3, 2] = some out ∧
    out.Perm [3, 1, 3, 2] ∧ Sorted (fun a b => decide (a < b)) out :=
  sort_sorts ⟨by simp; omega, by simp; omega⟩ [3, 1, 3, 2] 5 (by decide)

end WindowFunction
