import EryDb.PruningTests
import Mathlib.Data.List.GetD

/-!
# The planner's cursor over the filters

`CasualPartitionPredicate` walks over the filter string with a cursor. A NULL operand is
skipped by a `continue` that stands before the cursor is moved over the operand, so from
there on the cursor lags one operand behind: each later turn reads the operand of the
filter before it as operator, flag and value. This module says what the loop computes in
terms of the filters that were written, the ones read right and the ones misread.
-/

namespace PruningCursor

open List BrmTypes ColumnTypes FilterStrings LittleEndian CasualPruning ColumnScan ScanRanges
open PruningTests

variable (ct : ColType) (min max : Int)

def readsNull (c : Cell ct.colWidth) : Bool := isNull (cellValue ct.colDataType c) ct

/-- The verdict on a filter that is read right. -/
def verdict (f : ColArgs ct.colWidth) : Bool :=
  compareBounds ct min max (cellValue ct.colDataType f.val) (some f.cop) f.rf

/-- The bytes a lagging turn reads: the operand before and the head of the filter. -/
def window (c : Cell ct.colWidth) (f : ColArgs ct.colWidth) : List Byte :=
  write ct.colWidth.bytes c.toNat ++ [f.cop.code, f.rf]

def windowOp (c : Cell ct.colWidth) (f : ColArgs ct.colWidth) : Option CompareOp :=
  CompareOp.ofByte ((window ct c f).getD 0 0)

def windowVal (c : Cell ct.colWidth) (f : ColArgs ct.colWidth) : Cell ct.colWidth :=
  operandAt ct.colWidth ((window ct c f).drop 2)

/-- The verdict of a lagging turn. -/
def lagVerdict (c : Cell ct.colWidth) (f : ColArgs ct.colWidth) : Bool :=
  compareBounds ct min max (cellValue ct.colDataType (windowVal ct c f)) (windowOp ct c f)
    ((window ct c f).getD 1 0)

/-- A filter as the planner reads it. -/
structure ReadFilter where
  op : Option CompareOp
  lcf : Byte
  value : Int

def ReadFilter.lets (r : ReadFilter) : Bool := compareBounds ct min max r.value r.op r.lcf

/-- What lagging turns read, behind an operand. -/
def laggingReads (c : Cell ct.colWidth) : List (ColArgs ct.colWidth) → List ReadFilter
  | [] => []
  | f :: filters =>
    ⟨windowOp ct c f, (window ct c f).getD 1 0, cellValue ct.colDataType (windowVal ct c f)⟩ ::
      laggingReads f.val filters

/-- The filters the cursor reads: those that were written, up to the first operand that is NULL to
the planner, and misread ones behind it. -/
def cursorReads : List (ColArgs ct.colWidth) → List ReadFilter
  | [] => []
  | f :: filters =>
    if readsNull ct f.val then laggingReads ct f.val filters
    else ⟨some f.cop, f.rf, cellValue ct.colDataType f.val⟩ :: cursorReads filters

section Turns

variable {ct} {length pos : Nat} {bop : Bop} {scan : Bool} (n : Nat) (f : ColArgs ct.colWidth)
  (rest : List Byte) (fits : pos + (ct.colWidth.bytes + 2) ≤ length)
include fits

/-- A turn at the beginning of a filter. -/
lemma turn_read : predicateLoop ct min max length bop (n + 1) pos (f.bytes ++ rest) scan =
      if readsNull ct f.val then
        predicateLoop ct min max length bop n (pos + (ct.colWidth.bytes + 2))
          (write ct.colWidth.bytes f.val.toNat ++ rest) true
      else if (bop = .and ∧ verdict ct min max f = false) ∨
          (bop = .or ∧ verdict ct min max f = true) then verdict ct min max f
      else predicateLoop ct min max length bop n (pos + (ct.colWidth.bytes + 2)) rest
        (verdict ct min max f) := by
  rw [predicateLoop, if_neg (by omega)]
  simp only [ColArgs.bytes, cons_append, getD_cons_zero, getD_cons_succ,
    drop_succ_cons, drop_zero, operandAt_write, CompareOp.ofByte_code, readsNull, verdict]
  rw [drop_left' (length_write _ _)]
  rfl

/-- A turn that begins on the operand before. -/
lemma turn_lagging (c : Cell ct.colWidth) (value : readsNull ct (windowVal ct c f) = false) :
    predicateLoop ct min max length bop (n + 1) pos
        (write ct.colWidth.bytes c.toNat ++ (f.bytes ++ rest)) scan =
      if (bop = .and ∧ lagVerdict ct min max c f = false) ∨
          (bop = .or ∧ lagVerdict ct min max c f = true) then lagVerdict ct min max c f
      else predicateLoop ct min max length bop n (pos + (ct.colWidth.bytes + 2))
        (write ct.colWidth.bytes f.val.toNat ++ rest) (lagVerdict ct min max c f) := by
  have size : (window ct c f).length = ct.colWidth.bytes + 2 := by simp [window]
  have split : write ct.colWidth.bytes c.toNat ++ (f.bytes ++ rest) =
      window ct c f ++ (write ct.colWidth.bytes f.val.toNat ++ rest) := by
    simp [window, ColArgs.bytes]
  have head : ∀ k, k < 2 → ∀ tail, (window ct c f ++ tail).getD k 0 = (window ct c f).getD k 0 :=
    fun k hsm tail => getD_append _ _ _ _ (by omega)
  have operand : ∀ tail, operandAt ct.colWidth ((window ct c f ++ tail).drop 2) =
      windowVal ct c f := by
    intro tail
    rw [windowVal, drop_append_of_le_length (by omega), operandAt, operandAt,
      take_append_of_le_length (by simp [size])]
  rw [predicateLoop, if_neg (by omega), split]
  unfold readsNull at value
  simp only [head 0 (by omega), head 1 (by omega), operand, value, Bool.false_eq_true, if_false,
    drop_drop]
  rw [Nat.add_comm 2, drop_left' size]
  rfl

end Turns

variable {c : Cell ct.colWidth} {f : ColArgs ct.colWidth}

section Patterns

variable {ct}

lemma cellValue_of_small (type : ColDataType) {w : Width} {c : Cell w}
    (hsm : 2 * c.toNat < 256 ^ w.bytes) : cellValue type c = c.toNat := by
  unfold cellValue
  split
  · rfl
  · rcases toInt_cases c with ⟨-, he⟩ | ⟨large, -⟩
    · exact he
    · omega

lemma windowVal_small (hpl : f.rf = 0) :
    2 * (windowVal ct c f).toNat < 256 ^ ct.colWidth.bytes := by
  -- the window ends in the flag, so that its highest byte is zero
  obtain ⟨front, size, split⟩ : ∃ front : List Byte, front.length + 1 = ct.colWidth.bytes ∧
      (window ct c f).drop 2 = front ++ [0] := by
    refine ⟨(write ct.colWidth.bytes c.toNat ++ [f.cop.code]).drop 2, ?_, ?_⟩
    · have := ct.colWidth.bytes_pos
      simp
      omega
    have : window ct c f = (write ct.colWidth.bytes c.toNat ++ [f.cop.code]) ++ [0] := by
      simp [window, hpl]
    rw [this, drop_append_of_le_length]
    have := ct.colWidth.bytes_pos
    simp
    omega
  have value : LittleEndian.read (((window ct c f).drop 2).take ct.colWidth.bytes) =
      LittleEndian.read front := by
    rw [split, take_of_length_le (by simp; omega), read_append]
    simp [LittleEndian.read]
  have bound := read_lt front
  have double : 256 ^ ct.colWidth.bytes = 256 ^ front.length * 256 := by rw [← size, pow_succ]
  have modulus : (2 : Nat) ^ (8 * ct.colWidth.bytes) = 256 ^ front.length * 256 := by
    rw [pow_mul, ← double]
    rfl
  rw [windowVal, operandAt, value, BitVec.toNat_ofNat, modulus, double]
  have := Nat.mod_le (LittleEndian.read front) (256 ^ front.length * 256)
  omega

lemma windowVal_notNull (hpl : f.rf = 0) : readsNull ct (windowVal ct c f) = false := by
  have hsm : 2 * (windowVal ct c f).toNat < 256 ^ ct.colWidth.bytes := windowVal_small hpl
  unfold readsNull
  rw [cellValue_of_small _ hsm]
  exact isNull_of_small ct (by omega) (by exact_mod_cast hsm)

/-- The operator a lagging turn reads is the lowest byte of the operand before. -/
lemma windowOp_eq (c : Cell ct.colWidth) (f : ColArgs ct.colWidth) :
    windowOp ct c f = CompareOp.ofByte ⟨c.toNat % 256, Nat.mod_lt _ (by decide)⟩ := by
  unfold windowOp window
  rw [getD_write ct.colWidth.bytes_pos]

/-- Whether the planner and the scan take the operand for NULL. -/
def kind (f : ColArgs ct.colWidth) : Bool × Bool :=
  (readsNull ct f.val, isNullVal ct.colWidth ct.colDataType f.val.toNat)

/-- A lagging turn over an operand that either side takes for NULL rules nothing out. -/
lemma lagVerdict_null {g : ColArgs ct.colWidth} (null : kind g ≠ (false, false))
    (f : ColArgs ct.colWidth) : lagVerdict ct min max g.val f = true := by
  have first : g.val.toNat % 256 ∈ [0x00, 0x80, 0xAA, 0xFE, 0xFF] := by
    by_cases planner : readsNull ct g.val = true
    · have low : toU64 (cellValue ct.colDataType g.val) % 256 = g.val.toNat % 256 := by
        conv_rhs => rw [← toU64_cellValue ct.colDataType g.val]
        have := ct.colWidth.bytes_pos
        exact (Nat.mod_mod_of_dvd _ (dvd_pow_self 256 (by omega))).symm
      rw [← low]
      exact isNull_firstByte ct planner
    · have scan : isNullVal ct.colWidth ct.colDataType g.val.toNat = true := by
        by_contra value
        exact null (by simp [kind, planner, value])
      exact isNullVal_firstByte scan
  have harmless : windowOp ct g.val f = none ∨ windowOp ct g.val f = some .nil := by
    have patterns : ∀ b : Byte, b.val ∈ [0x00, 0x80, 0xAA, 0xFE, 0xFF] →
        CompareOp.ofByte b = none ∨ CompareOp.ofByte b = some .nil := by
      decide +kernel
    rw [windowOp_eq]
    exact patterns _ first
  rw [lagVerdict, compareBounds_eq]
  rcases harmless with unknown | nil
  · rw [unknown]
    rfl
  · rw [nil]
    rfl

end Patterns

variable {pos : Nat} {filters : List (ColArgs ct.colWidth)}

section Loops

/-- The verdicts of the lagging turns, all of which have to let the range pass. -/
def lagAll (c : Cell ct.colWidth) : List (ColArgs ct.colWidth) → Bool
  | [] => true
  | f :: filters => lagVerdict ct min max c f && lagAll f.val filters

/-- What the planner makes of filters that are to hold together. -/
def readAll : List (ColArgs ct.colWidth) → Bool
  | [] => true
  | f :: filters =>
    if readsNull ct f.val then lagAll ct min max f.val filters
    else verdict ct min max f && readAll filters

variable {ct} {length : Nat}

lemma fits_cons (fits : pos + (f :: filters).length * (ct.colWidth.bytes + 2) ≤ length) :
    pos + (ct.colWidth.bytes + 2) ≤ length ∧
      pos + (ct.colWidth.bytes + 2) + filters.length * (ct.colWidth.bytes + 2) ≤ length := by
  rw [length_cons, Nat.add_mul] at fits
  omega

variable (hpl : ∀ f ∈ filters, f.rf = 0)
include hpl

variable (fits : pos + filters.length * (ct.colWidth.bytes + 2) ≤ length)
include fits

lemma loop_lagging : predicateLoop ct min max length .and filters.length pos
        (write ct.colWidth.bytes c.toNat ++ filterString filters) true =
      lagAll ct min max c filters := by
  induction filters generalizing c pos with
  | nil => rfl
  | cons f filters ih =>
    obtain ⟨hh, later⟩ := fits_cons fits
    rw [filterString_cons, length_cons, turn_lagging min max _ f _ hh c
      (windowVal_notNull (hpl f mem_cons_self)), lagAll]
    cases out : lagVerdict ct min max c f with
    | false => simp
    | true =>
      simp only [reduceCtorEq, and_false, false_and, or_self, if_false, Bool.true_and]
      exact ih (fun g hm => hpl g (mem_cons_of_mem f hm)) later

lemma loop_and :
    predicateLoop ct min max length .and filters.length pos (filterString filters) true =
      readAll ct min max filters := by
  induction filters generalizing pos with
  | nil => rfl
  | cons f filters ih =>
    obtain ⟨hh, later⟩ := fits_cons fits
    have plainRest : ∀ g ∈ filters, g.rf = 0 := fun g hm =>
      hpl g (mem_cons_of_mem f hm)
    rw [filterString_cons, length_cons, turn_read min max _ f _ hh, readAll]
    split
    · exact loop_lagging min max plainRest later
    cases out : verdict ct min max f with
    | false => simp
    | true =>
      simp only [reduceCtorEq, and_false, false_and, or_self, if_false, Bool.true_and]
      exact ih plainRest later

lemma loop_or (scan : Bool) :
    predicateLoop ct min max length .or filters.length pos (filterString filters) scan =
      if filters = [] then scan
      else filters.any (fun f => readsNull ct f.val || verdict ct min max f) := by
  induction filters generalizing pos scan with
  | nil => rfl
  | cons f filters ih =>
    obtain ⟨hh, later⟩ := fits_cons fits
    have plainRest : ∀ g ∈ filters, g.rf = 0 := fun g hm =>
      hpl g (mem_cons_of_mem f hm)
    rw [filterString_cons, length_cons, turn_read min max _ f _ hh,
      if_neg (cons_ne_nil f filters), any_cons]
    cases null : readsNull ct f.val with
    | true =>
      -- the next turn lags and lets the range pass
      rw [if_pos rfl, Bool.true_or, Bool.true_or]
      rcases filters with _ | ⟨g, filters⟩
      · rfl
      · have hpa := lagVerdict_null min max (g := f) (by simp [kind, null]) g
        rw [filterString_cons, length_cons, turn_lagging min max _ g _
          (fits_cons later).1 f.val (windowVal_notNull (plainRest g mem_cons_self)),
          hpa, if_pos (Or.inr ⟨rfl, rfl⟩)]
    | false =>
      rw [if_neg (by simp), Bool.false_or]
      cases out : verdict ct min max f with
      | true => simp
      | false =>
        rw [if_neg (by simp), ih plainRest later, Bool.false_or]
        split
        · rename_i hem
          rw [hem]
          rfl
        · rfl

omit fits

/-- The whole predicate on filters that are to hold together. -/
lemma predicate_and :
    casualPartitionPredicate min max (filterString filters) filters.length ct .and =
      readAll ct min max filters :=
  loop_and min max hpl (by simp)

/-- And on filters of which one has to hold. -/
lemma predicate_or (some : filters ≠ []) :
    casualPartitionPredicate min max (filterString filters) filters.length ct .or =
      filters.any (fun f => readsNull ct f.val || verdict ct min max f) := by
  rw [casualPartitionPredicate, loop_or min max hpl (by simp), if_neg some]

end Loops

end PruningCursor
