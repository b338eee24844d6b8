import Mathlib.Order.Lattice

/-!
# Ranges that grow with the values they have met

A range is kept as two values, compared by a rank in a linear order. Extending it by another
range moves a bound only where the other one lies outside, so that what either range covers
stays covered, whatever the bounds are at the start.
-/

namespace RunningRange

structure Range (α : Type*) where
  lo : α
  hi : α
  deriving DecidableEq

variable {α β : Type*} [LinearOrder β] (rank : α → β) {r q : Range α} {v : α}

def Covers (r : Range α) (v : α) : Prop := rank r.lo ≤ rank v ∧ rank v ≤ rank r.hi

def extend (r q : Range α) : Range α where
  lo := if rank q.lo < rank r.lo then q.lo else r.lo
  hi := if rank r.hi < rank q.hi then q.hi else r.hi

lemma rank_extend_lo : rank (extend rank r q).lo = min (rank r.lo) (rank q.lo) := by
  rw [extend]
  split
  · rename_i hlo
    rw [min_eq_right hlo.le]
  · rename_i hlo
    rw [min_eq_left (not_lt.mp hlo)]

lemma rank_extend_hi : rank (extend rank r q).hi = max (rank r.hi) (rank q.hi) := by
  by_cases hhi : rank r.hi < rank q.hi
  · rw [extend, if_pos hhi, max_eq_right hhi.le]
  · rw [extend, if_neg hhi, max_eq_left (not_lt.mp hhi)]

lemma Covers.extend_left (hcov : Covers rank r v) : Covers rank (extend rank r q) v := by
  constructor
  · rw [rank_extend_lo rank]
    exact (min_le_left _ _).trans hcov.1
  · rw [rank_extend_hi rank]
    exact hcov.2.trans (le_max_left _ _)

lemma Covers.extend_right (hcov : Covers rank q v) : Covers rank (extend rank r q) v := by
  constructor
  · rw [rank_extend_lo rank]
    exact (min_le_right _ _).trans hcov.1
  · rw [rank_extend_hi rank]
    exact hcov.2.trans (le_max_right _ _)

end RunningRange
