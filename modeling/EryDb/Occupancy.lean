import Mathlib.Algebra.BigOperators.Group.Finset.Piecewise
import Mathlib.Data.Fintype.Card

/-!
# Counting threads by place

Finitely many threads are each at some place of their program. A step moves one thread, and the
number of threads at the places with a property changes by what the old and the new place count.
-/

namespace Occupancy

open Finset

variable {T A : Type} [Fintype T]

/-- The number of threads at the places with property `p`. -/
def count (p : A → Bool) (place : T → A) : Nat := (Finset.univ.filter (p <| place ·)).card

lemma count_eq_sum (p : A → Bool) (place : T → A) : count p place = ∑ t, (p (place t)).toNat := by
  rw [count, card_filter]
  exact sum_congr rfl fun t _ => by cases p (place t) <;> rfl

/-- When one thread moves, the others stay counted. -/
lemma count_move [DecidableEq T] (place : T → A) (t : T) (a : A) :
    ∃ others : (A → Bool) → Nat, (∀ p, count p place = others p + (p (place t)).toNat) ∧
      ∀ p, count p (Function.update place t a) = others p + (p a).toNat := by
  refine ⟨fun p => ∑ u ∈ Finset.univ.erase t, (p (place u)).toNat, fun p => ?_, fun p => ?_⟩
  · rw [count_eq_sum, sum_erase_add _ _ (mem_univ t)]
  have kept : ∑ u ∈ Finset.univ.erase t, (p (Function.update place t a u)).toNat
      = ∑ u ∈ Finset.univ.erase t, (p (place u)).toNat :=
    sum_congr rfl fun u hm => by
      rw [Function.update_of_ne (ne_of_mem_erase hm)]
  rw [count_eq_sum, ← sum_erase_add _ _ (mem_univ t), kept, Function.update_self]

lemma count_const {p : A → Bool} {a : A} (none : p a = false) : count p (fun _ : T => a) = 0 := by
  simp [count, none]

lemma count_pos {p : A → Bool} {place : T → A} : 0 < count p place ↔ ∃ t, p (place t) = true := by
  simp [count, card_pos, filter_nonempty_iff]

lemma eq_of_count_le_one {p : A → Bool} {place : T → A} (few : count p place ≤ 1) {t u : T}
    (left : p (place t) = true) (right : p (place u) = true) : t = u :=
  card_le_one.mp few t (by simpa using left) u (by simpa using right)

end Occupancy
