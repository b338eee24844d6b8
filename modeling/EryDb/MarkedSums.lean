import Mathlib.Algebra.Order.BigOperators.Group.List
import Mathlib.Tactic.Linarith
import Mathlib.Tactic.Ring

/-!
# Running sums with a marker for "no value yet"

A running sum that starts at a marker `m` takes the first value as it is, and so it does whenever it
happens to equal the marker. Each time that happens the marker is lost from the sum, so that the
result differs from the exact sum by a multiple of the marker. It is exact precisely if no prefix of
the values sums to the marker. The same holds for sums of sums, where a part that equals the marker
is left out.
-/

namespace MarkedSums

open List

variable (m : Int)

/-- One value more. -/
def restart (s v : Int) : Int := if s = m then v else s + v

/-- The running sum of values. -/
def run (vs : List Int) : Int := vs.foldl (restart m) m

/-- No prefix but the empty one sums to the marker. -/
def Clear (vs : List Int) : Prop := ∀ p, p <+: vs → p ≠ [] → p.sum ≠ m

variable {m}

lemma clear_nil : Clear m [] := fun _ pre ho => absurd (prefix_nil.mp pre) ho

/-- Values of one sign do not reach a marker of the other. -/
lemma clear_of_nonneg {vs : List Int} (negative : m < 0) (all : ∀ v ∈ vs, 0 ≤ v) : Clear m vs := by
  intro p pre _
  have hp := sum_nonneg fun v mem => all v (pre.subset mem)
  omega

/-- The marker is lost once for each step that begins at it. -/
lemma foldl_restart (s : Int) (vs : List Int) : ∃ n : Nat,
    vs.foldl (restart m) s = s + vs.sum - n * m ∧
      (n = 0 ↔ ∀ p, p <+: vs → p ≠ vs → s + p.sum ≠ m) := by
  induction vs generalizing s with
  | nil =>
    refine ⟨0, by simp, fun _ p pre ho => ?_, fun _ => rfl⟩
    exact absurd (prefix_nil.mp pre) ho
  | cons v vs ih =>
    rw [foldl_cons, sum_cons]
    rw [restart]
    split_ifs with start
    · obtain ⟨n, total, -⟩ := ih v
      refine ⟨n + 1, ?_, fun none => absurd none (by omega), fun all => ?_⟩
      · rw [total, start]
        push_cast
        ring
      · exact absurd (by simpa using start) (all [] nil_prefix (by simp))
    · obtain ⟨n, total, hex⟩ := ih (s + v)
      refine ⟨n, by rw [total]; ring, hex.trans ⟨fun all p pre ho => ?_, fun all p pre ho => ?_⟩⟩
      · obtain rfl | ⟨p', rfl, pre'⟩ := prefix_cons_iff.mp pre
        · simpa using start
        · rw [sum_cons, ← add_assoc]
          exact all p' pre' fun he => ho (by rw [he])
      · have longer := all (v :: p) (cons_prefix_cons.mpr ⟨rfl, pre⟩)
          fun he => ho (List.cons.inj he).2
        rwa [sum_cons, ← add_assoc] at longer

/-- What a running sum contributes to a sum that leaves out parts equal to the marker. -/
def contribution (m : Int) (vs : List Int) : Int := if run m vs = m then 0 else run m vs

lemma run_nil : run m [] = m := rfl

/-- A running sum is exact, and different from the marker, if no prefix sums to the marker. -/
lemma run_of_clear {vs : List Int} (some : vs ≠ []) (clear : Clear m vs) :
    run m vs = vs.sum ∧ run m vs ≠ m := by
  obtain ⟨v, vs, rfl⟩ := exists_cons_of_ne_nil some
  obtain ⟨n, total, hex⟩ := @foldl_restart m v vs
  have none : n = 0 := hex.mpr fun p pre _ => by
    have := clear (v :: p) (cons_prefix_cons.mpr ⟨rfl, pre⟩) (by simp)
    rwa [sum_cons] at this
  have value : run m (v :: vs) = (v :: vs).sum := by
    have first : restart m m v = v := if_pos rfl
    rw [run, foldl_cons, first, total, none, sum_cons]
    simp
  exact ⟨value, value ▸ clear (v :: vs) (prefix_refl _) (by simp)⟩

lemma contribution_eq (vs : List Int) : ∃ n : Nat,
    contribution m vs = vs.sum - n * m ∧ (n = 0 ↔ Clear m vs) := by
  cases vs with
  | nil => exact ⟨0, by simp [contribution, run], fun _ => clear_nil, fun _ => rfl⟩
  | cons v vs =>
    obtain ⟨n, total, hex⟩ := @foldl_restart m v vs
    have first : restart m m v = v := if_pos rfl
    have value : run m (v :: vs) = (v :: vs).sum - n * m := by
      rw [run, foldl_cons, first, total, sum_cons]
    by_cases marked : run m (v :: vs) = m
    · refine ⟨n + 1, ?_, fun none => absurd none (by omega), fun clear => ?_⟩
      · rw [contribution, if_pos marked]
        push_cast
        linarith
      · exact absurd marked (run_of_clear (by simp) clear).2
    refine ⟨n, by rw [contribution, if_neg marked, value], fun none p pre ho => ?_, fun clear => ?_⟩
    · obtain rfl | ⟨p', rfl, pre'⟩ := prefix_cons_iff.mp pre
      · exact absurd rfl ho
      by_cases hwh : p' = vs
      · rw [hwh]
        intro he
        rw [value, none, he] at marked
        simp at marked
      · rw [sum_cons]
        exact hex.mp none p' pre' hwh
    · refine hex.mpr fun p pre _ => ?_
      have := clear (v :: p) (cons_prefix_cons.mpr ⟨rfl, pre⟩) (by simp)
      rwa [sum_cons] at this

/-- The parts that a sum of sums takes in. -/
def parts (m : Int) (batches : List (List Int)) : List Int := (batches.map (run m)).filter (· ≠ m)

lemma sum_parts (batches : List (List Int)) : ∃ n : Nat,
    (parts m batches).sum = batches.flatten.sum - n * m ∧ (n = 0 ↔ ∀ b ∈ batches, Clear m b) := by
  induction batches with
  | nil => exact ⟨0, by simp [parts], by simp⟩
  | cons b batches ih =>
    obtain ⟨n, total, hex⟩ := ih
    obtain ⟨k, hh, clear_iff⟩ := @contribution_eq m b
    refine ⟨k + n, ?_, ?_⟩
    · have split : (parts m (b :: batches)).sum = contribution m b + (parts m batches).sum := by
        unfold parts contribution
        rw [map_cons]
        by_cases marked : run m b = m
        · simp [marked]
        · simp [marked]
      rw [split, hh, total, flatten_cons, sum_append]
      push_cast
      ring
    · rw [forall_mem_cons, ← clear_iff, ← hex]
      omega

lemma parts_of_clear {batches : List (List Int)} (clear : ∀ b ∈ batches, Clear m b) :
    parts m batches = (batches.filter (· ≠ [])).map List.sum := by
  induction batches with
  | nil => rfl
  | cons b batches ih =>
    obtain ⟨head, tail⟩ := forall_mem_cons.mp clear
    have rest := ih tail
    unfold parts at rest ⊢
    rw [map_cons]
    by_cases hem : b = []
    · rw [filter_cons_of_neg (by simp [hem, run_nil]), filter_cons_of_neg (by simp [hem]), rest]
    · obtain ⟨value, ho⟩ := run_of_clear hem head
      rw [filter_cons_of_pos (by simpa using ho),
        filter_cons_of_pos (by simpa using hem), map_cons, value, rest]

lemma parts_of_empty {batches : List (List Int)} (hem : ∀ b ∈ batches, b = []) :
    parts m batches = [] := by
  unfold parts
  refine filter_eq_nil_iff.mpr fun s mem => ?_
  obtain ⟨b, hm, rfl⟩ := mem_map.mp mem
  simp [hem b hm, run_nil]

/-- A sum of running sums is exact if and only if neither a prefix of the values of a batch nor a
prefix of the batches' sums hits the marker. -/
lemma run_parts_iff (nonzero : m ≠ 0) (batches : List (List Int)) :
    (if batches.flatten = [] then run m (parts m batches) = m
      else run m (parts m batches) ≠ m ∧ run m (parts m batches) = batches.flatten.sum) ↔
      (∀ b ∈ batches, Clear m b) ∧ Clear m ((batches.filter (· ≠ [])).map List.sum) := by
  split_ifs with hem
  · have all : ∀ b ∈ batches, b = [] := flatten_eq_nil_iff.mp hem
    have none : batches.filter (· ≠ []) = [] :=
      filter_eq_nil_iff.mpr fun b mem => by simpa using all b mem
    rw [parts_of_empty all, none]
    exact ⟨fun _ => ⟨fun b mem => all b mem ▸ clear_nil, clear_nil⟩, fun _ => run_nil⟩
  obtain ⟨n, total, all_iff⟩ := @sum_parts m batches
  obtain ⟨k, last, clear_iff⟩ := @contribution_eq m (parts m batches)
  constructor
  · rintro ⟨value, sum⟩
    rw [contribution, if_neg value, sum, total] at last
    have lost : ((n + k : Nat) : Int) * m = 0 := by
      push_cast
      linarith
    have none : n + k = 0 := by
      rcases mul_eq_zero.mp lost with zero | zero
      · exact_mod_cast zero
      · exact absurd zero nonzero
    have all := all_iff.mp (by omega)
    exact ⟨all, parts_of_clear all ▸ clear_iff.mp (by omega)⟩
  · rintro ⟨all, clear⟩
    rw [← parts_of_clear all] at clear
    have some : parts m batches ≠ [] := by
      rw [parts_of_clear all]
      intro none
      refine hem (flatten_eq_nil_iff.mpr fun b mem => ?_)
      have hdr := filter_eq_nil_iff.mp (map_eq_nil_iff.mp none) b mem
      simpa using hdr
    obtain ⟨value, ho⟩ := run_of_clear some clear
    refine ⟨ho, ?_⟩
    rw [value, total, all_iff.mpr all]
    simp

end MarkedSums
