import Mathlib.Data.Nat.Count

/-!
# Counted loops over a table of slots

The tables of a shared-memory segment are scanned by `for (i = 0; i < n; i++)`.
`forEach` is that loop with an arbitrary loop state, `firstIndex` the loop that
stops at the first slot passing a test. The rules below are the ones a proof
about such a loop needs: an invariant indexed by the number of slots already
visited, what a search returns, and how a count of slots changes with one slot.
-/

namespace SlotScan

open List

universe u

variable {State : Type u}

def forEach (body : Nat → State → State) : Nat → State → State
  | 0, s => s
  | n + 1, s => body n (forEach body n s)

lemma forEach_succ (body : Nat → State → State) (n : Nat) (s : State) :
    forEach body (n + 1) s = body n (forEach body n s) := rfl

variable {body : Nat → State → State} {n : Nat} {s : State}

lemma forEach_invariant (Inv : Nat → State → Prop) (start : Inv 0 s)
    (step : ∀ i t, i < n → Inv i t → Inv (i + 1) (body i t)) : Inv n (forEach body n s) := by
  induction n with
  | zero => exact start
  | succ n ih =>
    exact step n _ n.lt_succ_self
      (ih (fun i t bound held => step i t (bound.trans n.lt_succ_self) held))

lemma forEach_preserves (Inv : State → Prop) (start : Inv s)
    (step : ∀ i t, i < n → Inv t → Inv (body i t)) : Inv (forEach body n s) :=
  forEach_invariant (fun _ => Inv) start step

lemma forEach_fixed (idle : ∀ i, i < n → body i s = s) : forEach body n s = s :=
  forEach_preserves (fun t => t = s) rfl (fun i t bound heq => by rw [heq, idle i bound])

lemma forEach_idle {k : Nat} (le : k ≤ n)
    (idle : ∀ i, k ≤ i → i < n → body i (forEach body k s) = forEach body k s) :
    forEach body n s = forEach body k s := by
  induction le with
  | refl => rfl
  | @step n le ih =>
    rw [forEach_succ, ih fun i behind bound => idle i behind (by omega), idle n le (by omega)]

def firstIndex (test : Nat → Bool) (n : Nat) : Option Nat := (List.range n).find? test

variable {test : Nat → Bool} {i : Nat}

lemma firstIndex_eq_some (hf : firstIndex test n = some i) : test i = true ∧ i < n := by
  have facts := find?_range_eq_some.mp hf
  exact ⟨facts.1, mem_range.mp facts.2.1⟩

lemma firstIndex_before {j : Nat} (hf : firstIndex test n = some i) (earlier : j < i) :
    test j = false := by
  simpa using (find?_range_eq_some.mp hf).2.2 j earlier

lemma firstIndex_eq_none (missing : firstIndex test n = none) : ∀ i, i < n → test i = false := by
  intro i bound
  simpa using find?_range_eq_none.mp missing i bound

lemma firstIndex_isSome (bound : i < n) (hd : test i = true) : ∃ j, firstIndex test n = some j := by
  cases hf : firstIndex test n with
  | some j => exact ⟨j, rfl⟩
  | none => simp [firstIndex_eq_none hf i bound] at hd

lemma firstIndex_unique (bound : i < n) (hd : test i = true)
    (only : ∀ j, j < n → test j = true → j = i) : firstIndex test n = some i := by
  obtain ⟨j, hf⟩ := firstIndex_isSome bound hd
  obtain ⟨hpa, hl⟩ := firstIndex_eq_some hf
  rwa [only j hl hpa] at hf

lemma firstIndex_of_le {k : Nat} (le : k ≤ n) (hf : firstIndex test k = some i) :
    firstIndex test n = some i := by
  rw [firstIndex, find?_range_eq_some] at hf ⊢
  exact ⟨hf.1, mem_range.mpr ((mem_range.mp hf.2.1).trans_le le), hf.2.2⟩

/-- A table with one slot more. -/
lemma some_of_added {Value : Type} {before after : Nat → Option Value} {new v : Value} {j : Nat}
    (added : ∀ j, after j = if j = i then some new else before j) (here : after j = some v) :
    (j = i ∧ v = new) ∨ before j = some v := by
  rw [added j] at here
  split at here
  · rename_i same
    exact Or.inl ⟨same, (Option.some.inj here).symm⟩
  · exact Or.inr here

lemma forall_added {Value : Type} {before after : Nat → Option Value} {new : Value}
    (added : ∀ j, after j = if j = i then some new else before j) {P : Value → Prop} (hn : P new)
    (old : ∀ j v, before j = some v → P v) : ∀ j v, after j = some v → P v := by
  intro j v here
  rcases some_of_added added here with ⟨-, rfl⟩ | there
  · exact hn
  · exact old j v there

section Counting

variable {p q : Nat → Prop} [DecidablePred p] [DecidablePred q]

lemma count_congr (agree : ∀ i, i < n → (p i ↔ q i)) : Nat.count p n = Nat.count q n :=
  le_antisymm (Nat.count_mono_left fun i bound => (agree i bound).mp)
    (Nat.count_mono_left fun i bound => (agree i bound).mpr)

lemma count_gain (bound : i < n) (hb : ¬ p i) (ha : q i)
    (agree : ∀ j, j < n → j ≠ i → (p j ↔ q j)) : Nat.count q n = Nat.count p n + 1 := by
  induction n with
  | zero => omega
  | succ n ih =>
    rw [Nat.count_succ, Nat.count_succ]
    by_cases last : i = n
    · subst last
      rw [count_congr (fun j hl => (agree j (by omega) (by omega)).symm)]
      simp [hb, ha]
    · rw [ih (by omega) (fun j hl ho => agree j (by omega) ho)]
      simp [agree n (by omega) (Ne.symm last)]
      omega

lemma exists_of_count_lt (room : Nat.count p n < n) : ∃ i, i < n ∧ ¬ p i := by
  by_contra full
  push Not at full
  have := Nat.count_iff_forall.mpr full
  omega

lemma count_extend {m : Nat} (le : n ≤ m) (beyond : ∀ i, n ≤ i → ¬ p i) :
    Nat.count p m = Nat.count p n := by
  obtain ⟨k, rfl⟩ := Nat.exists_eq_add_of_le le
  rw [Nat.count_add]
  have : Nat.count (fun j => p (n + j)) k = Nat.count (fun _ => False) k :=
    count_congr (fun j _ => by simp [beyond (n + j) (by omega)])
  simp [this]

end Counting

section Largest

variable {α : Type} (p : α → Prop) [DecidablePred p] (key : α → Int)

omit [DecidablePred p] in
lemma foldl_max_spec {α : Type} [LinearOrder α] (l : List α) (a : α) :
    (l.foldl max a = a ∨ l.foldl max a ∈ l) ∧ a ≤ l.foldl max a ∧ ∀ k ∈ l, k ≤ l.foldl max a := by
  obtain ⟨reached, above⟩ :=
    (max_eq_iff (cons_ne_nil a l)).mp (rfl : (a :: l).max _ = l.foldl max a)
  exact ⟨mem_cons.mp reached, forall_mem_cons.mp above⟩

/-- A loop that keeps the largest key it has met among the elements that pass a test. -/
lemma foldl_largest (l : List α) (start : Int) :
    start ≤ l.foldl (fun best x => if p x ∧ best < key x then key x else best) start ∧
      (l.foldl (fun best x => if p x ∧ best < key x then key x else best) start = start ∨
        ∃ x ∈ l, p x ∧
          key x = l.foldl (fun best x => if p x ∧ best < key x then key x else best) start) ∧
      ∀ x ∈ l, p x →
        key x ≤ l.foldl (fun best x => if p x ∧ best < key x then key x else best) start := by
  have fold : l.foldl (fun best x => if p x ∧ best < key x then key x else best) start =
      ((l.filter (fun x => decide (p x))).map key).foldl max start := by
    rw [foldl_map, foldl_filter]
    congr
    funext best x
    by_cases hp : p x <;> simp [hp, max_def_lt]
  obtain ⟨hr, above, largest⟩ := foldl_max_spec ((l.filter (fun x => decide (p x))).map key) start
  rw [fold]
  simp only [mem_map, mem_filter, decide_eq_true_eq, and_assoc] at hr largest
  exact ⟨above, hr, fun x hm hp => largest _ ⟨x, hm, hp, rfl⟩⟩

end Largest

section Latest

variable {Key : Type} [LinearOrder Key] {p : Nat → Prop} {key : Nat → Key} {i n : Nat}
  {best : Option Nat}

/-- After `n` slots a scan holds a slot with the largest key among those that pass a test. -/
structure Latest (p : Nat → Prop) (key : Nat → Key) (n : Nat) (best : Option Nat) : Prop where
  absent : best = none → ∀ j, j < n → ¬ p j
  found : ∀ k, best = some k → k < n ∧ p k
  largest : ∀ k, best = some k → ∀ j, j < n → p j → key j ≤ key k

lemma Latest.start : Latest p key 0 none :=
  ⟨fun _ j hl => absurd hl (Nat.not_lt_zero j), by simp, by simp⟩

lemma Latest.take (hlat : Latest p key i best) (hd : p i)
    (beats : ∀ k, best = some k → key k ≤ key i) : Latest p key (i + 1) (some i) := by
  refine ⟨by simp, ?_, ?_⟩
  · rintro k ⟨⟩
    exact ⟨i.lt_succ_self, hd⟩
  rintro k ⟨⟩ j hl hpa
  rcases Nat.lt_succ_iff_lt_or_eq.mp hl with earlier | rfl
  · cases hk : best with
    | none => exact absurd hpa (hlat.absent hk j earlier)
    | some k => exact (hlat.largest k hk j earlier hpa).trans (beats k hk)
  · exact le_rfl

lemma Latest.pass (hlat : Latest p key i best)
    (skip : p i → ∃ k, best = some k ∧ key i ≤ key k) : Latest p key (i + 1) best := by
  refine ⟨fun none j hl hpa => ?_, fun k hk => ?_, fun k hk j hl hpa => ?_⟩
  · rcases Nat.lt_succ_iff_lt_or_eq.mp hl with earlier | rfl
    · exact hlat.absent none j earlier hpa
    · obtain ⟨k, hk, _⟩ := skip hpa
      simp [none] at hk
  · exact ⟨(hlat.found k hk).1.trans i.lt_succ_self, (hlat.found k hk).2⟩
  rcases Nat.lt_succ_iff_lt_or_eq.mp hl with earlier | rfl
  · exact hlat.largest k hk j earlier hpa
  · obtain ⟨k', hk', hl⟩ := skip hpa
    obtain rfl : k' = k := Option.some.inj (hk'.symm.trans hk)
    exact hl

end Latest

section Highest

variable {p : Nat → Prop} {key : Nat → Nat} {i n : Nat} {best : Option Nat}

/-- After `n` slots a scan holds the largest key met among those that pass a test. -/
structure Highest (p : Nat → Prop) (key : Nat → Nat) (n : Nat) (best : Option Nat) : Prop where
  absent : best = none → ∀ j, j < n → ¬ p j
  reached : ∀ h, best = some h → ∃ j, j < n ∧ p j ∧ key j = h
  above : ∀ h, best = some h → ∀ j, j < n → p j → key j ≤ h

lemma Highest.start : Highest p key 0 none :=
  ⟨fun _ j hl => absurd hl (Nat.not_lt_zero j), by simp, by simp⟩

lemma Highest.raise (hhi : Highest p key i best) (hd : p i) :
    Highest p key (i + 1) (some (best.elim (key i) (max · (key i)))) := by
  refine ⟨by simp, ?_, ?_⟩
  · rintro _ ⟨⟩
    cases best with
    | none => exact ⟨i, i.lt_succ_self, hd, rfl⟩
    | some h =>
      obtain ⟨j, hl, hpa, he⟩ := hhi.reached h rfl
      rcases le_total h (key i) with hlo | hhig
      · exact ⟨i, i.lt_succ_self, hd, by simp [hlo]⟩
      · exact ⟨j, hl.trans i.lt_succ_self, hpa, by simp [hhig, he]⟩
  · rintro _ ⟨⟩ j hl hpa
    rcases Nat.lt_succ_iff_lt_or_eq.mp hl with earlier | rfl
    · cases best with
      | none => exact absurd hpa (hhi.absent rfl j earlier)
      | some h => exact (hhi.above h rfl j earlier hpa).trans (le_max_left _ _)
    · cases best with
      | none => exact le_rfl
      | some h => exact le_max_right _ _

lemma Highest.pass (hhi : Highest p key i best) (skip : ¬ p i) : Highest p key (i + 1) best := by
  refine ⟨fun none j hl hpa => ?_, fun h hk => ?_, fun h hk j hl hpa => ?_⟩
  · rcases Nat.lt_succ_iff_lt_or_eq.mp hl with earlier | rfl
    · exact hhi.absent none j earlier hpa
    · exact skip hpa
  · obtain ⟨j, hl, rest⟩ := hhi.reached h hk
    exact ⟨j, hl.trans i.lt_succ_self, rest⟩
  · rcases Nat.lt_succ_iff_lt_or_eq.mp hl with earlier | rfl
    · exact hhi.above h hk j earlier hpa
    · exact absurd hpa skip

end Highest

end SlotScan
