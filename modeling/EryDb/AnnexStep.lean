import Mathlib

/-!
# Limits without ORDER BY

`TupleAnnexStep` passes on a slice of its input row groups. It counts the rows it has
seen and the rows it has returned in 64-bit numbers and tests the limit after a row has
been passed on, so a limit of zero lets one row through. The DISTINCT variant repeats
the loop without the test that skips the first rows.
-/

namespace AnnexStep

open List

variable {Row Out : Type}

structure Counters where
  fRowsProcessed : UInt64
  fRowsReturned : UInt64
  fLimitHit : Bool

def Counters.zero : Counters := ⟨0, 0, false⟩

/-- Full output groups, the one being filled, and the counters; the set of rows seen holds
pointers to the rows of these groups. -/
structure Distinct (Out : Type) where
  dataVec : List (List Out)
  rgDataOut : List Out
  fRowsReturned : UInt64
  fLimitHit : Bool

def Distinct.rows (d : Distinct Out) : List Out := d.dataVec.flatten ++ d.rgDataOut

def distinctRow [DecidableEq Out] (fLimitCount : UInt64) (d : Distinct Out) (row : Out) :
    Distinct Out :=
  if d.fLimitHit ∨ row ∈ d.rows then d
  else
    let group := d.rgDataOut ++ [row]
    let hit := decide (d.fRowsReturned + 1 ≥ fLimitCount)
    if group.length ≥ 8192 then ⟨d.dataVec ++ [group], [], d.fRowsReturned + 1, hit⟩
    else ⟨d.dataVec, group, d.fRowsReturned + 1, hit⟩

section NoOrderBy

variable {deliver : Row → Out} {start count : UInt64}

lemma toNat_succ {a : UInt64} (hl : a.toNat + 1 < 2 ^ 64) : (a + 1).toNat = a.toNat + 1 := by
  rw [UInt64.toNat_add]
  exact Nat.mod_eq_of_lt hl

/-- The row groups with each row's position in the whole input beside it. -/
def numbered : Nat → List (List Row) → List (List (Row × Nat))
  | _, [] => []
  | next, group :: groups => group.zipIdx next :: numbered (next + group.length) groups

end NoOrderBy

section Distinct

variable [DecidableEq Out] {deliver : Row → Out} {count : UInt64}

/-- The state after the rows `seen`. -/
structure Distinct.Holds (count : UInt64) (seen : List Out) (d : Distinct Out) : Prop where
  rows : d.rows = seen.eraseDups.take (max count.toNat 1)
  returned : d.fRowsReturned.toNat = d.rows.length
  hit : d.fLimitHit = decide (max count.toNat 1 ≤ d.rows.length)

lemma eraseDups_concat (seen : List Out) (row : Out) :
    (seen ++ [row]).eraseDups = if row ∈ seen then seen.eraseDups else seen.eraseDups ++ [row] := by
  rw [eraseDups_append]
  by_cases hm : row ∈ seen <;> simp [List.removeAll, hm, eraseDups_cons]

/-- Where the group being filled is full makes no difference to the rows. -/
lemma rows_distinctRow {d : Distinct Out} {row : Out} (open' : d.fLimitHit = false)
    (new : row ∉ d.rows) : (distinctRow count d row).rows = d.rows ++ [row] ∧
      (distinctRow count d row).fRowsReturned = d.fRowsReturned + 1 ∧
      (distinctRow count d row).fLimitHit = decide (d.fRowsReturned + 1 ≥ count) := by
  rw [distinctRow, if_neg (by simp [open', new])]
  simp only
  split <;> simp [Distinct.rows]

lemma Distinct.Holds.step {seen : List Out} {d : Distinct Out} (hd : d.Holds count seen)
    (row : Out) : (distinctRow count d row).Holds count (seen ++ [row]) := by
  have shown := eraseDups_concat seen row
  cases hit : d.fLimitHit with
  | true =>
    have full : max count.toNat 1 ≤ d.rows.length := by simpa [hit] using hd.hit
    have hen : max count.toNat 1 ≤ seen.eraseDups.length := by
      rw [hd.rows, length_take] at full
      omega
    rw [distinctRow, if_pos (Or.inl hit)]
    refine ⟨?_, hd.returned, hd.hit⟩
    rw [hd.rows, shown]
    split
    · rfl
    · rw [take_append_of_le_length hen]
  | false =>
    have hfe : d.rows.length < max count.toNat 1 := by
      have := hd.hit
      rw [hit] at this
      exact Nat.lt_of_not_le (of_decide_eq_false this.symm)
    have all : d.rows = seen.eraseDups := by
      rw [hd.rows, length_take] at hfe
      rw [hd.rows, take_of_length_le (by omega)]
    by_cases hm : row ∈ seen
    · rw [distinctRow, if_pos (Or.inr (by rw [all, mem_eraseDups]; exact hm))]
      exact ⟨by rw [shown, if_pos hm, hd.rows], hd.returned, hd.hit⟩
    obtain ⟨rows, hre, limit⟩ := @rows_distinctRow _ _ count d row hit
      (by rw [all, mem_eraseDups]; exact hm)
    have bound := count.toNat_lt
    have more : (d.fRowsReturned + 1).toNat = (d.rows ++ [row]).length := by
      rw [length_append, length_singleton, ← hd.returned]
      refine toNat_succ ?_
      have := hd.returned
      omega
    refine ⟨?_, by rw [rows, hre, more], ?_⟩
    · rw [rows, shown, if_neg hm, all, take_of_length_le]
      rw [← all, length_append, length_singleton]
      omega
    rw [limit, rows, ← more]
    refine decide_eq_decide.mpr ⟨fun hr => ?_, fun hr => ?_⟩
    · have := UInt64.le_iff_toNat_le.mp hr
      rw [length_append, length_singleton] at more
      omega
    · exact UInt64.le_iff_toNat_le.mpr (by omega)

lemma Distinct.Holds.run {seen : List Out} {d : Distinct Out} (hd : d.Holds count seen)
    (rows : List Row) : (rows.foldl (fun d row => distinctRow count d (deliver row)) d).Holds count
      (seen ++ rows.map deliver) := by
  induction rows generalizing seen d with
  | nil => simpa using hd
  | cons row rows ih =>
    have rest := ih (hd.step (deliver row))
    rw [append_assoc] at rest
    exact rest

end Distinct

end AnnexStep
