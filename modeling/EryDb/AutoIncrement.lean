import EryDb.BrmTypes

/-!
# Autoincrement ranges

`AutoincrementManager` keeps one sequence for each column: the next number and the
first one that must not be granted. A request is tested in wrapping 64-bit
arithmetic; the test is shown to be the exact one, and ranges granted over a whole
run are disjoint, increasing and within the column's type.
-/

namespace AutoIncrement

open List BrmTypes

structure Sequence where
  value : UInt64
  overflow : UInt64
  deriving DecidableEq

abbrev Sequences := UInt32 → Option Sequence

def overflowOf (colWidth : UInt32) (colDataType : ColDataType) : UInt64 :=
  if isUnsigned colDataType then
    (0xFFFFFFFFFFFFFFFF >>> (64 - colWidth * 8).toUInt64) - 1
  else 1 <<< (colWidth * 8 - 1).toUInt64

def startSequence (oid : UInt32) (firstNum : UInt64) (colWidth : UInt32)
    (colDataType : ColDataType) (sequences : Sequences) : Sequences :=
  match sequences oid with
  | some _ => sequences
  | none => Function.update sequences oid (some ⟨firstNum, overflowOf colWidth colDataType⟩)

inductive Answer where
  | noSequence
  | refused
  | granted (firstNum : UInt64)
  deriving DecidableEq

def Sequence.refuses (s : Sequence) (count : UInt64) : Bool :=
  (decide (count ≥ s.overflow) || decide (count + s.value > s.overflow) ||
    decide (count + s.value ≤ s.value)) && decide (count ≠ 0)

def getAIRange (oid : UInt32) (count : UInt64) (sequences : Sequences) : Answer × Sequences :=
  match sequences oid with
  | none => (.noSequence, sequences)
  | some s =>
    if s.refuses count then (.refused, sequences)
    else (.granted s.value,
      Function.update sequences oid (some { s with value := s.value + count }))

def resetSequence (oid : UInt32) (value : UInt64) (sequences : Sequences) : Sequences :=
  match sequences oid with
  | none => sequences
  | some s => Function.update sequences oid (some { s with value := value })

def deleteSequence (oid : UInt32) (sequences : Sequences) : Sequences :=
  Function.update sequences oid none

inductive Call where
  | startSequence (oid : UInt32) (firstNum : UInt64) (colWidth : UInt32)
      (colDataType : ColDataType)
  | getAIRange (oid : UInt32) (count : UInt64)
  | resetSequence (oid : UInt32) (value : UInt64)
  | deleteSequence (oid : UInt32)

/-- The sequences a call leaves, and its answer if it asks for a range. -/
def Call.run : Call → Sequences → Option (UInt32 × UInt64 × Answer) × Sequences
  | .startSequence oid firstNum colWidth colDataType, s =>
    (none, AutoIncrement.startSequence oid firstNum colWidth colDataType s)
  | .getAIRange oid count, s =>
    let answer := AutoIncrement.getAIRange oid count s
    (some (oid, count, answer.1), answer.2)
  | .resetSequence oid value, s => (none, AutoIncrement.resetSequence oid value s)
  | .deleteSequence oid, s => (none, AutoIncrement.deleteSequence oid s)

/-- The answers to the requests of a run, in order. -/
def answers : List Call → Sequences → List (UInt32 × UInt64 × Answer)
  | [], _ => []
  | c :: calls, s => (c.run s).1.toList ++ answers calls (c.run s).2

def runAll (calls : List Call) (s : Sequences) : Sequences := calls.foldl (fun s c => (c.run s).2) s

/-- The call starts the sequence of the column over. -/
def Call.Restarts (oid : UInt32) : Call → Prop
  | .resetSequence o _ => o = oid
  | .deleteSequence o => o = oid
  | _ => False

/-- First number and length of a non-empty range granted for the column. -/
def grantOf (oid : UInt32) : UInt32 × UInt64 × Answer → Option (Nat × Nat)
  | (o, count, .granted firstNum) =>
    if o = oid ∧ count ≠ 0 then some (firstNum.toNat, count.toNat) else none
  | _ => none

/-- The largest number a column of this type can hold besides its markers. -/
def largest (colWidth : Nat) (colDataType : ColDataType) : Nat :=
  if isUnsigned colDataType then 2 ^ (8 * colWidth) - 3 else 2 ^ (8 * colWidth - 1) - 1

section Request

variable {s : Sequence} {count : UInt64}

/-- The wrapping test accepts only ranges that end before the bound without wrapping. -/
lemma accepted_bound (hacc : s.refuses count = false) (hne : count ≠ 0) :
    s.value.toNat + count.toNat ≤ s.overflow.toNat := by
  simp only [Sequence.refuses, hne, ne_eq, not_false_eq_true, decide_true, Bool.and_true,
    Bool.or_eq_false_iff, decide_eq_false_iff_not, ge_iff_le, gt_iff_lt,
    UInt64.lt_iff_toNat_lt, UInt64.le_iff_toNat_le, UInt64.toNat_add] at hacc
  have := count.toNat_lt
  omega

lemma accepted_value (hacc : s.refuses count = false) :
    (s.value + count).toNat = s.value.toNat + count.toNat := by
  by_cases hne : count = 0
  · simp [hne]
  · have bound := accepted_bound hacc hne
    have := s.overflow.toNat_lt
    rw [UInt64.toNat_add]
    exact Nat.mod_eq_of_lt (by omega)

lemma overflowOf_toNat {colWidth : UInt32} (colDataType : ColDataType)
    (width : colWidth ∈ [1, 2, 4, 8]) :
    (overflowOf colWidth colDataType).toNat = largest colWidth.toNat colDataType + 1 := by
  simp only [mem_cons, not_mem_nil, or_false] at width
  unfold overflowOf largest
  split <;> rcases width with rfl | rfl | rfl | rfl <;> decide +kernel

end Request

section Runs

variable {oid : UInt32} {m : Sequences} {s : Sequence}

/-- A call that does not start the column over leaves its bound and only advances its next
number, by what it grants. -/
lemma run_sequence {c : Call} (keeps : ¬ c.Restarts oid) (hh : m oid = some s) :
    ∃ s', (c.run m).2 oid = some s' ∧ s'.overflow = s.overflow ∧
      ((c.run m).1.bind (grantOf oid) = none ∧ s'.value = s.value ∨
        ∃ n, (c.run m).1.bind (grantOf oid) = some (s.value.toNat, n) ∧
          s.value.toNat + n ≤ s.overflow.toNat ∧ s'.value.toNat = s.value.toNat + n) := by
  cases c with
  | startSequence o firstNum colWidth colDataType =>
    refine ⟨s, ?_, rfl, Or.inl ⟨rfl, rfl⟩⟩
    cases hf : m o with
    | some s' => simpa [Call.run, startSequence, hf] using hh
    | none =>
      have ho : oid ≠ o := fun he => by simp [he, hf] at hh
      simpa [Call.run, startSequence, hf, ho] using hh
  | getAIRange o count =>
    by_cases he : o = oid
    · subst he
      cases hacc : s.refuses count with
      | true => exact ⟨s, by simp [Call.run, getAIRange, hh, hacc], rfl,
          Or.inl ⟨by simp [Call.run, getAIRange, hh, hacc, grantOf], rfl⟩⟩
      | false =>
        refine ⟨{ s with value := s.value + count },
          by simp [Call.run, getAIRange, hh, hacc], rfl, ?_⟩
        by_cases hne : count = 0
        · subst hne
          exact Or.inl ⟨by simp [Call.run, getAIRange, hh, hacc, grantOf], by simp⟩
        · exact Or.inr ⟨count.toNat,
            by simp [Call.run, getAIRange, hh, hacc, grantOf, hne],
            accepted_bound hacc hne, accepted_value hacc⟩
    · have ho : oid ≠ o := Ne.symm he
      refine ⟨s, ?_, rfl, Or.inl ⟨?_, rfl⟩⟩
      · cases hf : m o with
        | none => simpa [Call.run, getAIRange, hf] using hh
        | some s' =>
          cases hacc : s'.refuses count <;>
            simpa [Call.run, getAIRange, hf, hacc, ho] using hh
      simp only [Call.run, Option.bind_some, grantOf]
      split
      · rename_i isGrant
        simp only [Prod.mk.injEq] at isGrant
        simp [← isGrant.1, he]
      · rfl
  | resetSequence o value =>
    have ho : oid ≠ o := fun he => keeps he.symm
    refine ⟨s, ?_, rfl, Or.inl ⟨rfl, rfl⟩⟩
    cases hf : m o with
    | none => simpa [Call.run, resetSequence, hf] using hh
    | some s' => simpa [Call.run, resetSequence, hf, ho] using hh
  | deleteSequence o =>
    have ho : oid ≠ o := fun he => keeps he.symm
    exact ⟨s, by simpa [Call.run, deleteSequence, ho] using hh, rfl, Or.inl ⟨rfl, rfl⟩⟩

/-- The ranges granted for a column in a run. -/
def grants (oid : UInt32) (calls : List Call) (m : Sequences) : List (Nat × Nat) :=
  (answers calls m).filterMap (grantOf oid)

lemma grants_cons (oid : UInt32) (c : Call) (calls : List Call) (m : Sequences) :
    grants oid (c :: calls) m =
      ((c.run m).1.bind (grantOf oid)).toList ++ grants oid calls (c.run m).2 := by
  simp only [grants, answers, filterMap_append]
  cases (c.run m).1 with
  | none => rfl
  | some answer => cases hgr : grantOf oid answer <;> simp [hgr]

/-- Over a run, ranges start at the next number and follow each other up to the bound. -/
lemma run_grants {calls : List Call} (keeps : ∀ c ∈ calls, ¬ c.Restarts oid)
    (hh : m oid = some s) : (grants oid calls m).Pairwise (fun a b => a.1 + a.2 ≤ b.1) ∧
      ∀ g ∈ grants oid calls m, s.value.toNat ≤ g.1 ∧ g.1 + g.2 ≤ s.overflow.toNat := by
  induction calls generalizing m s with
  | nil => simp [grants, answers]
  | cons c calls ih =>
    obtain ⟨s', ht, inBound, step⟩ := run_sequence (keeps c mem_cons_self) hh
    obtain ⟨hap, hw⟩ := ih (fun c hm => keeps c (mem_cons_of_mem _ hm)) ht
    rw [grants_cons]
    rw [inBound] at hw
    rcases step with ⟨nothing, he⟩ | ⟨n, hgr, fits, next⟩
    · rw [nothing, Option.toList_none, nil_append]
      exact ⟨hap, by rwa [he] at hw⟩
    rw [hgr, Option.toList_some, singleton_append, pairwise_cons]
    refine ⟨⟨fun g hm => ?_, hap⟩, fun g hm => ?_⟩
    · exact next ▸ (hw g hm).1
    · rcases mem_cons.mp hm with rfl | later
      · exact ⟨le_rfl, fits⟩
      · have := hw g later
        omega

/-- A refused request leaves every sequence as it was. -/
lemma getAIRange_refused {count : UInt64} (refused : (getAIRange oid count m).1 = .refused) :
    (getAIRange oid count m).2 = m := by
  unfold getAIRange at refused ⊢
  split
  · rfl
  · rename_i s hh
    cases hacc : s.refuses count with
    | true => simp
    | false => simp [hh, hacc] at refused

/-- Ranges granted for a column do not overlap, increase and stay within its type; a refused
request changes no later answer. -/
theorem granted_ranges {colWidth : UInt32} (width : colWidth ∈ [1, 2, 4, 8])
    (colDataType : ColDataType) (firstNum : UInt64) (unused : m oid = none) {calls : List Call}
    (keeps : ∀ c ∈ calls, ¬ c.Restarts oid) :
    let ranges := grants oid calls (startSequence oid firstNum colWidth colDataType m)
    ranges.Pairwise (fun a b => a.1 + a.2 ≤ b.1) ∧
      (∀ g ∈ ranges, ∀ n, g.1 ≤ n → n < g.1 + g.2 →
        firstNum.toNat ≤ n ∧ n ≤ largest colWidth.toNat colDataType) ∧
      ∀ before later o count,
        (getAIRange o count (runAll before
          (startSequence oid firstNum colWidth colDataType m))).1 = .refused →
        answers later (runAll (before ++ [.getAIRange o count])
            (startSequence oid firstNum colWidth colDataType m)) =
          answers later (runAll before
            (startSequence oid firstNum colWidth colDataType m)) := by
  have here : startSequence oid firstNum colWidth colDataType m oid =
      some ⟨firstNum, overflowOf colWidth colDataType⟩ := by
    simp [startSequence, unused]
  obtain ⟨apart, within⟩ := run_grants keeps here
  refine ⟨apart, fun g member n low high => ?_, fun before later o count refused => ?_⟩
  · obtain ⟨after, fits⟩ := within g member
    rw [overflowOf_toNat colDataType width] at fits
    exact ⟨after.trans low, by omega⟩
  · rw [runAll, foldl_append, foldl_cons, foldl_nil]
    exact congrArg (answers later) (getAIRange_refused refused)

/-- Three requests of an unsigned one-byte column; the second would end past 253. -/
theorem granted_ranges_utinyint :
    grants 7 [.getAIRange 7 100, .getAIRange 7 200, .getAIRange 7 153]
        (startSequence 7 1 1 .utinyint (fun _ => none)) = [(1, 100), (101, 153)] ∧
      (grants 7 [.getAIRange 7 100, .getAIRange 7 200, .getAIRange 7 153]
        (startSequence 7 1 1 .utinyint (fun _ => none))).Pairwise (fun a b => a.1 + a.2 ≤ b.1) :=
  ⟨by decide +kernel, (granted_ranges (by decide) .utinyint 1 rfl (by simp [Call.Restarts])).1⟩

end Runs

end AutoIncrement
