import Mathlib.Data.List.Range
import Mathlib.Data.Finset.Card

/-!
# Chains of slots

A chained hash table in an array keeps the index of a first slot for every bucket and
the index of a next slot in every slot. `walk` follows the indices for a bounded
number of steps; `Table` says that the walk from a bucket meets exactly the used slots
whose contents belong there, each once. Pushing a slot in front of a chain and taking
one out by redirecting its predecessor keep that.

Nothing is said about what a slot holds or how its bucket is computed.
-/

namespace HashChains

open Function List

variable {next next' : Nat → Option Nat} {head head' : Nat → Option Nat}
  {used used' : Nat → Prop} {home home' : Nat → Nat} {chain : Nat → List Nat} {n m : Nat}

def walk (next : Nat → Option Nat) : Nat → Option Nat → List Nat
  | 0, _ => []
  | _ + 1, none => []
  | fuel + 1, some i => i :: walk next fuel (next i)

/-- Following `next` from `start` meets the slots of a list and then ends. -/
def Linked (next : Nat → Option Nat) : Option Nat → List Nat → Prop
  | start, [] => start = none
  | start, i :: l => start = some i ∧ Linked next (next i) l

variable {start : Option Nat} {l : List Nat}

lemma Linked.walk_eq {fuel : Nat} (hlk : Linked next start l) (hen : l.length ≤ fuel) :
    walk next fuel start = l := by
  induction l generalizing start fuel with
  | nil =>
    cases hlk
    cases fuel <;> rfl
  | cons i l ih =>
    obtain ⟨rfl, rest⟩ := hlk
    obtain ⟨fuel, rfl⟩ : ∃ k, fuel = k + 1 := ⟨fuel - 1, by simp at hen; omega⟩
    simp only [walk]
    rw [ih rest (by simpa using hen)]

lemma Linked.congr (hlk : Linked next start l) (agree : ∀ i ∈ l, next' i = next i) :
    Linked next' start l := by
  induction l generalizing start with
  | nil => exact hlk
  | cons i l ih =>
    refine ⟨hlk.1, ?_⟩
    rw [agree i mem_cons_self]
    exact ih hlk.2 (fun j hm => agree j (mem_cons_of_mem _ hm))

lemma Linked.start_eq (hlk : Linked next start l) : start = l.head? := by
  cases l with
  | nil => exact hlk
  | cons i l => exact hlk.1

variable {i : Nat} {pre post : List Nat}

lemma Linked.next_eq (hlk : Linked next start (pre ++ i :: post)) : next i = post.head? := by
  induction pre generalizing start with
  | nil => exact hlk.2.start_eq
  | cons p pre ih => exact ih hlk.2

/-- Redirecting the last slot in front of `i`, or the start, takes `i` out. -/
lemma Linked.drop (hlk : Linked next start (pre ++ i :: post)) (hdi : (pre ++ i :: post).Nodup)
    (relinked : ∀ j ∈ pre ++ post, next' j = if pre.getLast? = some j then next i else next j) :
    Linked next' (if pre = [] then next i else start) (pre ++ post) := by
  induction pre generalizing start with
  | nil => exact hlk.2.congr (fun j hm => by simpa using relinked j hm)
  | cons p pre ih =>
    obtain ⟨first, rest⟩ := hlk
    obtain ⟨fresh, hdi⟩ := nodup_cons.mp hdi
    refine ⟨by simpa using first, ?_⟩
    cases pre with
    | nil =>
      have hh : next' p = next i := by simpa using relinked p mem_cons_self
      rw [hh]
      refine rest.2.congr (fun j hm => ?_)
      have hdif : p ≠ j := fun he => fresh (by simp [he, hm])
      simpa [hdif] using relinked j (by simp [hm])
    | cons q pre =>
      have last : (p :: q :: pre).getLast? = (q :: pre).getLast? := by simp
      have hh : next' p = next p := by
        rw [relinked p mem_cons_self, last, if_neg]
        intro he
        exact fresh (mem_append_left _ (mem_of_getLast? he))
      rw [hh]
      have tail := ih rest hdi (fun j hm => by
        rw [relinked j (mem_cons_of_mem _ hm), last])
      simpa using tail

structure Table (n m : Nat) (next head : Nat → Option Nat) (used : Nat → Prop)
    (home : Nat → Nat) (chain : Nat → List Nat) : Prop where
  linked : ∀ b, b < m → Linked next (head b) (chain b)
  nodup : ∀ b, b < m → (chain b).Nodup
  mem : ∀ b, b < m → ∀ i, i ∈ chain b ↔ i < n ∧ used i ∧ home i = b

variable {b : Nat}

variable (table : Table n m next head used home chain)
include table

lemma Table.walk_eq (bound : b < m) : walk next n (head b) = chain b := by
  refine (table.linked b bound).walk_eq ?_
  have hi : chain b ⊆ List.range n := fun i hm =>
    mem_range.mpr ((table.mem b bound i).mp hm).1
  simpa using (subperm_of_subset (table.nodup b bound) hi).length_le

/-- An unused slot becomes the first of a chain. -/
lemma Table.push (bound : b < m) (hi : i < n) (hun : ¬ used i)
    (nexts : ∀ j, next' j = if j = i then head b else next j)
    (heads : ∀ c, head' c = if c = b then some i else head c)
    (uses : ∀ j, used' j ↔ used j ∨ j = i) (homes : ∀ j, home' j = if j = i then b else home j) :
    Table n m next' head' used' home' (Function.update chain b (i :: chain b)) := by
  have hab : ∀ c, c < m → i ∉ chain c := fun c hl hm =>
    hun ((table.mem c hl i).mp hm).2.1
  have kept : ∀ c, c < m → ∀ j ∈ chain c, next' j = next j := by
    intro c hl j hm
    have hdif : j ≠ i := fun he => hab c hl (he ▸ hm)
    rw [nexts, if_neg hdif]
  refine ⟨fun c hl => ?_, fun c hl => ?_, fun c hl j => ?_⟩
  · by_cases he : c = b
    · subst he
      rw [heads, if_pos rfl, update_self]
      refine ⟨rfl, ?_⟩
      rw [nexts, if_pos rfl]
      exact (table.linked c hl).congr (kept c hl)
    · rw [heads, if_neg he, update_of_ne he]
      exact (table.linked c hl).congr (kept c hl)
  · by_cases he : c = b
    · subst he
      rw [update_self]
      exact nodup_cons.mpr ⟨hab c hl, table.nodup c hl⟩
    · rw [update_of_ne he]
      exact table.nodup c hl
  · have old := table.mem c hl j
    by_cases he : c = b
    · subst he
      rw [update_self, mem_cons, old, uses, homes]
      by_cases hh : j = i
      · simp [hh, hi]
      · simp [hh]
    rw [update_of_ne he, old, uses, homes]
    by_cases hh : j = i
    · subst hh
      simp [hun, Ne.symm he]
    · simp [hh]

/-- A used slot leaves its chain. -/
lemma Table.drop (bound : b < m) (split : chain b = pre ++ i :: post)
    (nexts : ∀ j, j ≠ i → next' j = if pre.getLast? = some j then next i else next j)
    (heads : ∀ c, head' c = if c = b ∧ pre = [] then next i else head c)
    (uses : ∀ j, used' j ↔ used j ∧ j ≠ i) (homes : ∀ j, j ≠ i → home' j = home j) :
    Table n m next' head' used' home' (Function.update chain b (pre ++ post)) := by
  have hdi := table.nodup b bound
  rw [split] at hdi
  have hlk := table.linked b bound
  rw [split] at hlk
  have hpl : ∀ j ∈ pre ++ i :: post, j < n ∧ used j ∧ home j = b := by
    intro j hm
    exact (table.mem b bound j).mp (by rw [split]; exact hm)
  have hap : ∀ j ∈ pre ++ post, j ≠ i := by
    intro j hm he
    subst he
    have := nodup_middle.mp hdi
    exact (nodup_cons.mp this).1 hm
  refine ⟨fun c hl => ?_, fun c hl => ?_, fun c hl j => ?_⟩
  · by_cases he : c = b
    · subst he
      have tail := hlk.drop hdi (fun j hm => nexts j (hap j hm))
      rw [update_self, heads]
      simpa using tail
    rw [update_of_ne he, heads, if_neg (fun both => he both.1)]
    refine (table.linked c hl).congr (fun j hm => ?_)
    obtain ⟨-, -, hh⟩ := (table.mem c hl j).mp hm
    have hout : j ∉ pre ++ i :: post := fun ho =>
      he (hh.symm.trans (hpl j ho).2.2)
    rw [nexts j (fun heq => hout (by simp [heq])), if_neg]
    intro last
    exact hout (mem_append_left _ (mem_of_getLast? last))
  · by_cases he : c = b
    · subst he
      rw [update_self]
      exact (nodup_cons.mp (nodup_middle.mp hdi)).2
    · rw [update_of_ne he]
      exact table.nodup c hl
  · have old := table.mem c hl j
    by_cases hh : j = i
    · subst hh
      have : j ∉ Function.update chain b (pre ++ post) c := by
        intro hm
        by_cases he : c = b
        · subst he
          rw [update_self] at hm
          exact hap j hm rfl
        · rw [update_of_ne he] at hm
          exact he ((((table.mem c hl j).mp hm).2.2).symm.trans (hpl j (by simp)).2.2)
      simp [this, uses]
    · rw [uses, homes j hh]
      by_cases he : c = b
      · subst he
        rw [update_self]
        have : j ∈ pre ++ post ↔ j ∈ chain c := by
          rw [split]
          simp [hh]
        rw [this, old]
        simp [hh]
      · rw [update_of_ne he, old]
        simp [hh]

omit table

/-- The first slot of a chain that passes a test, with the slot in front of it. -/
def findWithPrev (test : Nat → Bool) : Option Nat → List Nat → Option (Option Nat × Nat)
  | _, [] => none
  | prev, i :: l => if test i then some (prev, i) else findWithPrev test (some i) l

lemma findWithPrev_eq_some {test : Nat → Bool} {prev before : Option Nat}
    (hf : findWithPrev test prev l = some (before, i)) :
    ∃ pre post, l = pre ++ i :: post ∧ test i = true ∧ before = pre.getLast?.or prev := by
  induction l generalizing prev with
  | nil => simp [findWithPrev] at hf
  | cons j l ih =>
    simp only [findWithPrev] at hf
    split at hf
    · rename_i hit
      simp only [Option.some.injEq, Prod.mk.injEq] at hf
      obtain ⟨rfl, rfl⟩ := hf
      exact ⟨[], l, rfl, hit, by simp⟩
    obtain ⟨pre, post, rfl, hit, last⟩ := ih hf
    refine ⟨j :: pre, post, rfl, hit, ?_⟩
    rw [last, getLast?_cons]
    cases pre.getLast? <;> rfl

lemma findWithPrev_eq_none {test : Nat → Bool} {prev : Option Nat} :
    findWithPrev test prev l = none ↔ ∀ i ∈ l, test i = false := by
  induction l generalizing prev with
  | nil => simp [findWithPrev]
  | cons j l ih =>
    simp only [findWithPrev]
    split
    · rename_i hit
      simp [hit]
    · rename_i miss
      simp [ih, miss]

end HashChains
