import EryDb.BrmTypes
import EryDb.LittleEndian

/-!
# The values of a column

A column stores its values in cells of one, two, four or eight bytes. Each type sets
two patterns aside, one for NULL and one for a row that was never written or was
deleted. Two tests for NULL exist: the planner's `isNull` looks at a value widened
to sixty-four bits, the scan's `isNullVal` at the bytes of a cell, and they do not
agree on every pattern.
-/

namespace ColumnTypes

open BrmTypes

inductive Width where
  | one | two | four | eight
  deriving DecidableEq

def Width.bytes : Width → Nat
  | .one => 1
  | .two => 2
  | .four => 4
  | .eight => 8

lemma Width.bytes_pos (w : Width) : 0 < w.bytes := by
  cases w <;> decide

/-- The widths a table definition gives a type. A `VARCHAR` has one byte more than its length. -/
def definedWidth : ColDataType → Width → Bool
  | .tinyint, w | .utinyint, w => w = .one
  | .smallint, w | .usmallint, w => w = .two
  | .medint, w | .umedint, w | .int, w | .uint, w | .float, w | .ufloat, w | .date, w => w = .four
  | .bigint, w | .ubigint, w | .double, w | .udouble, w | .datetime, w => w = .eight
  | .varchar, w => w ≠ .one
  | _, _ => true

structure ColType where
  colDataType : ColDataType
  colWidth : Width
  defined : definedWidth colDataType colWidth = true

abbrev Cell (w : Width) := BitVec (8 * w.bytes)

def tinyintNull : Nat := 0x80
def tinyintEmptyRow : Nat := 0x81
def smallintNull : Nat := 0x8000
def smallintEmptyRow : Nat := 0x8001
def intNull : Nat := 0x80000000
def intEmptyRow : Nat := 0x80000001
def bigintNull : Nat := 0x8000000000000000
def bigintEmptyRow : Nat := 0x8000000000000001
def utinyintNull : Nat := 0xFE
def utinyintEmptyRow : Nat := 0xFF
def usmallintNull : Nat := 0xFFFE
def usmallintEmptyRow : Nat := 0xFFFF
def uintNull : Nat := 0xFFFFFFFE
def uintEmptyRow : Nat := 0xFFFFFFFF
def ubigintNull : Nat := 0xFFFFFFFFFFFFFFFE
def ubigintEmptyRow : Nat := 0xFFFFFFFFFFFFFFFF
def floatNull : Nat := 0xFFAAAAAA
def floatEmptyRow : Nat := 0xFFAAAAAB
def doubleNull : Nat := 0xFFFAAAAAAAAAAAAA
def doubleEmptyRow : Nat := 0xFFFAAAAAAAAAAAAB
def dateNull : Nat := 0xFFFFFFFE
def datetimeNull : Nat := 0xFFFFFFFFFFFFFFFE
def char1Null : Nat := 0xFE
def char1EmptyRow : Nat := 0xFF
def char2Null : Nat := 0xFEFF
def char2EmptyRow : Nat := 0xFFFF
def char4Null : Nat := 0xFEFFFFFF
def char4EmptyRow : Nat := 0xFFFFFFFF
def char8Null : Nat := 0xFEFFFFFFFFFFFFFF
def char8EmptyRow : Nat := 0xFFFFFFFFFFFFFFFF

/-- `isEmptyVal<W>`, on the bytes of a cell read as an unsigned number. -/
def isEmptyVal : Width → ColDataType → Nat → Bool
  | .eight, type, val =>
    match type with
    | .double | .udouble => val = doubleEmptyRow
    | .char | .varchar | .date | .datetime | .varbinary => val = char8EmptyRow
    | .ubigint => val = ubigintEmptyRow
    | _ => val = bigintEmptyRow
  | .four, type, val =>
    match type with
    | .float | .ufloat => val = floatEmptyRow
    | .char | .varchar | .date | .datetime => val = char4EmptyRow
    | .uint => val = uintEmptyRow
    | _ => val = intEmptyRow
  | .two, type, val =>
    match type with
    | .char | .varchar | .date | .datetime => val = char2EmptyRow
    | .usmallint => val = usmallintEmptyRow
    | _ => val = smallintEmptyRow
  | .one, type, val =>
    match type with
    | .char | .varchar | .date | .datetime => val = char1EmptyRow
    | .utinyint => val = utinyintEmptyRow
    | _ => val = tinyintEmptyRow

/-- `isNullVal<W>`. An eight-byte string has two patterns for NULL, its own and that of a token. -/
def isNullVal : Width → ColDataType → Nat → Bool
  | .eight, type, val =>
    match type with
    | .double | .udouble => val = doubleNull
    | .char | .varchar | .date | .datetime | .varbinary =>
      val = char8Null ∨ 0xFFFFFFFFFFFFFFFE = val
    | .ubigint => val = ubigintNull
    | _ => val = bigintNull
  | .four, type, val =>
    match type with
    | .float | .ufloat => val = floatNull
    | .char | .varchar => val = char4Null
    | .date | .datetime => val = dateNull
    | .uint => val = uintNull
    | _ => val = intNull
  | .two, type, val =>
    match type with
    | .char | .varchar | .date | .datetime => val = char2Null
    | .usmallint => val = usmallintNull
    | _ => val = smallintNull
  | .one, type, val =>
    match type with
    | .char | .varchar | .date | .datetime => val = char1Null
    | .utinyint => val = utinyintNull
    | _ => val = tinyintNull

/-- A constant of a width converted to the signed type of that width. -/
def asSigned (bits n : Nat) : Int := (BitVec.ofNat bits n).toInt

/-- The planner's test. The decimal case has no `break` and runs into the one for doubles. -/
def isNull (val : Int) (ct : ColType) : Bool :=
  match ct.colDataType with
  | .tinyint => val = asSigned 8 tinyintNull
  | .char =>
    (ct.colWidth = .one ∧ val = asSigned 8 char1Null) ∨
    (ct.colWidth = .two ∧ val = asSigned 16 char2Null) ∨
    (ct.colWidth.bytes < 5 ∧ val = asSigned 32 char4Null) ∨ val = asSigned 64 char8Null
  | .smallint => val = asSigned 16 smallintNull
  | .decimal | .udecimal =>
    val = (match ct.colWidth with
      | .one => asSigned 8 tinyintNull
      | .two => asSigned 16 smallintNull
      | .four => asSigned 32 intNull
      | .eight => asSigned 64 bigintNull) ∨ val = asSigned 64 doubleNull
  | .double | .udouble => val = asSigned 64 doubleNull
  | .medint | .int => val = asSigned 32 intNull
  | .float | .ufloat => val = asSigned 32 floatNull
  | .date => val = asSigned 32 dateNull
  | .bigint => val = asSigned 64 bigintNull
  | .datetime => val = asSigned 64 datetimeNull
  | .varchar =>
    (ct.colWidth.bytes < 3 ∧ val = asSigned 16 char2Null) ∨
    (ct.colWidth.bytes < 5 ∧ val = asSigned 32 char4Null) ∨ val = asSigned 64 char8Null
  | .utinyint => toU64 val % 2 ^ 8 = utinyintNull
  | .usmallint => toU64 val % 2 ^ 16 = usmallintNull
  | .umedint | .uint => toU64 val % 2 ^ 32 = uintNull
  | .ubigint => toU64 val = ubigintNull
  | _ => false

/-- The bytes of a cell or operand, widened as the type asks for. -/
def cellValue (type : ColDataType) {w : Width} (c : Cell w) : Int :=
  if isUnsigned type then c.toNat else c.toInt

variable {w : Width}

variable (c : Cell w)

lemma toInt_cases : (2 * c.toNat < 256 ^ w.bytes ∧ c.toInt = c.toNat) ∨
      (256 ^ w.bytes ≤ 2 * c.toNat ∧ c.toInt = (c.toNat : Int) - (256 ^ w.bytes : Nat)) := by
  have hwh : 256 ^ w.bytes = 2 ^ (8 * w.bytes) := by
    rw [pow_mul]
    rfl
  rw [BitVec.toInt_eq_toNat_cond, hwh]
  split
  · exact Or.inl ⟨by assumption, rfl⟩
  · exact Or.inr ⟨by omega, rfl⟩

lemma cell_lt : c.toNat < 256 ^ w.bytes := by
  have := c.isLt
  rwa [pow_mul] at this

/-- Widening loses nothing: the low bytes are those of the cell. -/
lemma toU64_cellValue (type : ColDataType) (c : Cell w) :
    toU64 (cellValue type c) % 256 ^ w.bytes = c.toNat := by
  have bound := cell_lt c
  have signed := toInt_cases c
  unfold cellValue toU64
  cases w <;> simp only [Width.bytes] at bound signed ⊢ <;> split <;> omega

variable (ct : ColType) {type : ColDataType}

lemma cellValue_injective {c d : Cell w} (he : cellValue type c = cellValue type d) : c = d := by
  apply BitVec.eq_of_toNat_eq
  rw [← toU64_cellValue type c, ← toU64_cellValue type d, he]

variable {n : Nat}

lemma signed_nulls : asSigned 8 tinyintNull = -128 ∧ asSigned 16 smallintNull = -32768 ∧
      asSigned 32 intNull = -2147483648 ∧ asSigned 64 bigintNull = -9223372036854775808 ∧
      asSigned 32 floatNull = -5592406 ∧ asSigned 64 doubleNull = -1501199875790166 ∧
      asSigned 32 dateNull = -2 ∧ asSigned 64 datetimeNull = -2 ∧ asSigned 8 char1Null = -2 ∧
      asSigned 16 char2Null = -257 ∧ asSigned 32 char4Null = -16777217 ∧
      asSigned 64 char8Null = -72057594037927937 := by
  decide

/-- No pattern of NULL is a small number, so that a value whose last byte is zero is none. -/
lemma isNull_of_small {val : Int} (hp : 0 ≤ val) (hsm : 2 * val < 256 ^ ct.colWidth.bytes) :
    isNull val ct = false := by
  obtain ⟨type, w, defined⟩ := ct
  cases type <;> cases w <;>
    simp only [definedWidth, decide_eq_true_eq, reduceCtorEq] at defined <;>
    simp only [isNull, decide_eq_false_iff_not] <;>
    simp only [signed_nulls, toU64, Width.bytes, utinyintNull, usmallintNull, uintNull,
      ubigintNull] at hsm ⊢ <;> omega

/-- The first byte of a pattern of NULL, none of which is the code of a comparison. -/
lemma isNull_firstByte {val : Int} (null : isNull val ct = true) :
    toU64 val % 256 ∈ [0x00, 0x80, 0xAA, 0xFE, 0xFF] := by
  obtain ⟨type, w, defined⟩ := ct
  cases type <;> cases w <;>
    simp only [isNull, decide_eq_true_eq, Bool.false_eq_true] at null <;>
    simp only [signed_nulls, toU64, Width.bytes, utinyintNull, usmallintNull, uintNull,
      ubigintNull, List.mem_cons, List.not_mem_nil] at null ⊢ <;> omega

lemma isNullVal_firstByte (null : isNullVal w type n = true) :
    n % 256 ∈ [0x00, 0x80, 0xAA, 0xFE, 0xFF] := by
  cases w <;> cases type <;> have null := of_decide_eq_true null <;>
    (first | subst null | (rcases null with rfl | rfl)) <;> decide

end ColumnTypes
