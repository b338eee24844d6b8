import EryDb.BulkConvert
import Mathlib.Tactic.IntervalCases

/-!
# The range of a buffer covers the values converted into it

A value is stored as it was put into the range as long as the limits of the column fit into its
bytes. They do for every declared type but the unsigned medium integer, which keeps the limits
of the signed one. A date or datetime that is not valid is stored as zero and left out of the range.
-/

namespace BulkLoad

open BrmTypes DataConvert DigitStrings RunningRange LoadRanges

/-- The width the data definition gives a decimal. -/
def precisionWidth : Nat → Nat
  | 1 | 2 => 1
  | 3 | 4 => 2
  | 5 | 6 | 7 | 8 | 9 => 4
  | _ => 8

def isNumeric : ColDataType → Bool
  | .tinyint | .smallint | .medint | .int | .bigint | .utinyint | .usmallint | .umedint | .uint
  | .ubigint | .decimal | .udecimal | .date | .datetime => true
  | _ => false

def isDecimal (type : ColDataType) : Bool := type = .decimal || type = .udecimal

/-- An integer, decimal, date or datetime column as the data definition makes it. -/
structure Declared (c : Column) : Prop where
  numeric : isNumeric c.colDataType = true
  decimal : isDecimal (jobType c.toColType) = true →
    c.precision ≤ 18 ∧ c.colWidth = precisionWidth c.precision

def jobWeType (c : Column) : Option WeType := convertColType (jobType c.toColType) c.colWidth

section Values

/-- The value a reader of the column finds in its bytes. -/
def JobColumn.valueOf (col : JobColumn) (bytes : Nat) : Int :=
  if isUnsigned col.dataType then toI64 bytes else (bytes : Int).bmod (2 ^ (8 * col.width))

/-- The value is found again in the bytes that are stored for it. -/
def Storable (col : JobColumn) (size : Nat) (v : Int) : Prop :=
  col.valueOf (memcpy size col.width v) = v

variable {col : JobColumn} {w : Nat} {v : Int}

lemma storable_signed (signed : isUnsigned col.dataType = false) (width : col.width = w)
    (widths : w = 1 ∨ w = 2 ∨ w = 4 ∨ w = 8) (low : -2 ^ (8 * w - 1) ≤ v)
    (high : v < 2 ^ (8 * w - 1)) : Storable col w v := by
  rw [Storable, JobColumn.valueOf, signed, memcpy, width, if_neg Bool.false_ne_true, Int.bmod_def]
  rcases widths with rfl | rfl | rfl | rfl <;> norm_num at low high ⊢ <;> split <;> omega

lemma storable_unsigned (unsigned : isUnsigned col.dataType = true) (width : col.width = w)
    (widths : w = 1 ∨ w = 2 ∨ w = 4) (low : 0 ≤ v) (high : v < 2 ^ (8 * w)) :
    Storable col w v := by
  rw [Storable, JobColumn.valueOf, unsigned, memcpy, width, if_pos rfl, toI64]
  rcases widths with rfl | rfl | rfl <;> norm_num at low high ⊢ <;> split <;> omega

end Values

section Steps

variable {col : JobColumn} {f : Field} {s : Buffer} {rank : Int → Int}

lemma saturate_bounds (v : Int) (sat : Bool) (limits : col.fMinIntSat ≤ toI64 col.fMaxIntSat) :
    col.fMinIntSat ≤ (saturate col v sat).1 ∧ (saturate col v sat).1 ≤ toI64 col.fMaxIntSat := by
  rw [saturate]
  split_ifs <;> simp only <;> omega

/-- The range that an update leaves covers the value and all that was covered before. -/
lemma Buffer.update_covers (s : Buffer) (rank : Int → Int) (v : Int) (sat : Bool) :
    Covers rank (s.update rank v sat).range v ∧
      ∀ u, Covers rank s.range u → Covers rank (s.update rank v sat).range u :=
  ⟨Covers.extend_right rank ⟨le_rfl, le_rfl⟩, fun _ hcov => Covers.extend_left rank hcov⟩

/-- What one call does to the range: what it writes is null or covered, and what was covered
still is. -/
structure Extends (rank : Int → Int) (col : JobColumn) (s : Buffer) (result : Buffer × Output) :
    Prop where
  written : result.2.isNull = false → Covers rank result.1.range (col.valueOf result.2.bytes)
  before : ∀ u, Covers rank s.range u → Covers rank result.1.range u

lemma extends_null (rank : Int → Int) (col : JobColumn) (s : Buffer) (bytes : Nat) :
    Extends rank col s (s, ⟨true, bytes⟩) :=
  ⟨nofun, fun _ hcov => hcov⟩

lemma extends_update {bytes : Nat} {v : Int} {t : Buffer} (sat : Bool)
    (he : t.range = s.range) (hsto : col.valueOf bytes = v) :
    Extends rank col s (t.update rank v sat, ⟨false, bytes⟩) := by
  obtain ⟨value, hb⟩ := t.update_covers rank v sat
  refine ⟨fun _ => ?_, fun u hcov => hb u (by rw [he]; exact hcov)⟩
  rw [hsto]
  exact value

/-- The number that is saturated: the one that was read or, for a null field, the next of the
automatic numbers or the default. -/
def given (col : JobColumn) (fDefault : BitVec 64) (read : Int) (f : Field) (s : Buffer) : Int :=
  if f.nullFlag then if col.autoIncFlag then s.fAutoIncNextValue.toInt else fDefault.toInt
  else read

/-- A null field has a value if the column has automatic numbers or a default. -/
def HasValue (col : JobColumn) (f : Field) : Prop :=
  f.nullFlag = true → col.autoIncFlag = true ∨ col.fWithDefault = true

lemma convertInteger_extends {size null : Nat} {fDefault : BitVec 64} {read : Int × Bool}
    (hsto : HasValue col f →
      ∀ sat, Storable col size (saturate col (given col fDefault read.1 f s) sat).1) :
    Extends rank col s (convertInteger rank size null fDefault read col f s) := by
  rw [given, HasValue] at hsto
  rw [convertInteger]
  by_cases isNull : f.nullFlag = true
  · rw [if_pos isNull] at hsto ⊢
    rw [nullValue]
    split_ifs at hsto ⊢ with auto default
    · exact extends_update _ rfl (hsto (fun _ => .inl auto) false)
    · exact extends_update _ rfl (hsto (fun _ => .inr default) false)
    · exact extends_null rank col s _
  · rw [if_neg isNull] at hsto ⊢
    exact extends_update _ rfl (hsto (fun null => absurd null isNull) read.2)

lemma valueOf_ulonglong (width : col.width = 8) (unsigned : isUnsigned col.dataType = true)
    (n : Nat) : col.valueOf (memcpy 8 col.width n) = toI64 n := by
  have hcp : memcpy 8 8 n = n % 2 ^ 64 := by
    rw [memcpy]
    omega
  rw [JobColumn.valueOf, unsigned, if_pos rfl, width, hcp, toI64, toI64, Nat.mod_mod]

lemma convertUlonglong_extends (mode : ImportDataMode) (width : col.width = 8)
    (unsigned : isUnsigned col.dataType = true) :
    Extends unsignedRank col s (convertUlonglong mode col f s) := by
  rw [convertUlonglong]
  by_cases isNull : f.nullFlag = true
  · rw [if_pos isNull, nullValue]
    split_ifs with auto default
    · exact extends_update _ rfl (valueOf_ulonglong width unsigned _)
    · exact extends_update _ rfl (valueOf_ulonglong width unsigned _)
    · exact extends_null unsignedRank col s _
  · rw [if_neg isNull]
    exact extends_update _ rfl (valueOf_ulonglong width unsigned _)

lemma convertDay_extends {size null : Nat} {fDefault : Int} {read : Int × Int}
    (hacc : f.nullFlag = true ∨ read.2 = 0) (default : Storable col size fDefault)
    (hsto : Storable col size read.1) :
    Extends id col s (convertDay size null fDefault read col f s) := by
  rw [convertDay]
  by_cases isNull : f.nullFlag = true
  · rw [if_pos isNull]
    split_ifs with withDefault
    · exact extends_update _ rfl default
    · exact extends_null id col s _
  · rw [if_neg isNull]
    have hv := hacc.resolve_left isNull
    simp only [if_pos hv]
    exact extends_update _ rfl hsto

end Steps

section Columns

/-- The condition on a field: a date or datetime is accepted, and a number for an unsigned medium
integer is not negative. -/
def Proper (mode : ImportDataMode) (col : JobColumn) (f : Field) (s : Buffer) : Prop :=
  match col.dataType with
  | .date => f.nullFlag = true ∨ (readDate mode f).2 = 0
  | .datetime => f.nullFlag = true ∨ (readDatetime mode f).2 = 0
  | .umedint =>
    HasValue col f → mode = .text ∨ f.nullFlag = true →
      0 ≤ given col col.fDefaultUInt (strtoll f.chars).value f s
  | _ => True

/-- How a declared column is converted, and the limits its numbers are saturated to. -/
inductive Shape (col : JobColumn) : WeType → Prop
  | signed {we : WeType} (unsigned : isUnsigned col.dataType = false)
      (number : col.dataType ≠ .date ∧ col.dataType ≠ .datetime ∧ isCharType col.dataType = false)
      (which : we = .byte ∨ we = .short ∨ we = .int ∨ we = .longlong) (width : col.width = we.size)
      (limits : -2 ^ (8 * we.size - 1) ≤ col.fMinIntSat ∧
        col.fMinIntSat ≤ toI64 col.fMaxIntSat ∧ toI64 col.fMaxIntSat < 2 ^ (8 * we.size - 1)) :
      Shape col we
  | unsigned {we : WeType} (unsigned : isUnsigned col.dataType = true)
      (which : we = .ubyte ∨ we = .ushort ∨ we = .uint) (width : col.width = we.size)
      (limits : 0 ≤ col.fMinIntSat ∧ col.fMinIntSat ≤ toI64 col.fMaxIntSat ∧
        toI64 col.fMaxIntSat < 2 ^ (8 * we.size)) :
      Shape col we
  | umedint (type : col.dataType = .umedint) (width : col.width = 4)
      (limits : col.fMinIntSat = minInt ∧ toI64 col.fMaxIntSat = maxInt) : Shape col .uint
  | ubigint (type : col.dataType = .ubigint) (width : col.width = 8) : Shape col .ulonglong
  | date (type : col.dataType = .date) (width : col.width = 4) : Shape col .int
  | datetime (type : col.dataType = .datetime) (width : col.width = 8) : Shape col .longlong

/-- The limits of a column of the catalog. -/
def satLimits (type : ColDataType) (precision : Nat) : Int × Nat :=
  match type with
  | .uint => (0, maxUInt)
  | .bigint => (minBigint, maxBigint.toNat)
  | .ubigint => (0, maxUBigint)
  | .smallint => (minSmallint, maxSmallint.toNat)
  | .usmallint => (0, maxUSmallint)
  | .tinyint => (minTinyint, maxTinyint.toNat)
  | .utinyint => (0, maxUTinyint)
  | .decimal => (-erydbPrecision precision, (erydbPrecision precision).toNat)
  | .udecimal => (0, (erydbPrecision precision).toNat)
  | _ => (minInt, maxInt.toNat)

variable {c : Column} {we : WeType} {t : ColDataType}

lemma scaled_of_decimal (type : jobType c.toColType = t) (decimal : isDecimal t = true) :
    0 < c.scale ∨ c.colDataType = .decimal ∨ c.colDataType = .udecimal := by
  subst type
  rw [jobType] at decimal
  cases kind : c.colDataType <;> rw [kind] at decimal <;> dsimp only at decimal
  case decimal => exact .inr (.inl rfl)
  case udecimal => exact .inr (.inr rfl)
  case int | bigint | smallint | tinyint =>
    split_ifs at decimal with scaled
    · exact .inl scaled
    · cases decimal
  all_goals cases decimal

lemma jobColumn_of_type (type : jobType c.toColType = t) :
    (jobColumn c).dataType = t ∧ (jobColumn c).width = getCorrectRowWidth t c.colWidth ∧
      (jobColumn c).fMinIntSat = (satLimits t c.precision).1 ∧
      (jobColumn c).fMaxIntSat = (satLimits t c.precision).2 := by
  have scaled := scaled_of_decimal type
  cases t
  case decimal | udecimal =>
    simp only [jobColumn, fillInXMLDataAsLoaded, initSatLimits, type, satLimits,
      if_pos (scaled rfl), and_self]
  all_goals
    simp only [jobColumn, fillInXMLDataAsLoaded, initSatLimits, setJobDataColumn, type, satLimits,
      and_self]

lemma isNumeric_jobType (declared : Declared c) : isNumeric (jobType c.toColType) = true := by
  have numeric := declared.numeric
  rw [jobType]
  split
  case h_5 => exact numeric
  all_goals split_ifs <;> first | rfl | exact numeric

lemma decimal_limits {p : Nat} (bound : p ≤ 18) (we : WeType)
    (weType : convertColType .decimal (precisionWidth p) = some we) :
    (we = .byte ∨ we = .short ∨ we = .int ∨ we = .longlong) ∧
      getCorrectRowWidth .decimal (precisionWidth p) = we.size ∧ 0 ≤ erydbPrecision p ∧
      erydbPrecision p < 2 ^ (8 * we.size - 1) ∧
      toI64 (erydbPrecision p).toNat = erydbPrecision p := by
  interval_cases p <;> cases weType <;> decide

lemma shape_of_declared (declared : Declared c) (weType : jobWeType c = some we) :
    Shape (jobColumn c) we := by
  have numeric := isNumeric_jobType declared
  have decimal := declared.decimal
  rw [jobWeType] at weType
  generalize type : jobType c.toColType = t at numeric decimal weType
  obtain ⟨dataType, width, lo, hi⟩ := jobColumn_of_type type
  cases t <;> simp only [satLimits] at lo hi
  case tinyint | smallint | medint | int | bigint =>
    cases weType
    exact .signed (by rw [dataType]; rfl) (by rw [dataType]; decide) (by decide) width
      (by rw [lo, hi]; decide)
  case utinyint | usmallint | uint =>
    cases weType
    exact .unsigned (by rw [dataType]; rfl) (by decide) width (by rw [lo, hi]; decide)
  case umedint =>
    cases weType
    exact .umedint dataType width (by rw [lo, hi]; decide)
  case ubigint =>
    cases weType
    exact .ubigint dataType width
  case date =>
    cases weType
    exact .date dataType width
  case datetime =>
    cases weType
    exact .datetime dataType width
  case decimal | udecimal =>
    obtain ⟨bound, declaredWidth⟩ := decimal rfl
    rw [declaredWidth] at width weType
    obtain ⟨which, size, hnn, hsm, hwh⟩ := decimal_limits bound we weType
    exact .signed (by rw [dataType]; rfl) (by rw [dataType]; decide) which (width.trans size)
      (by rw [lo, hi, hwh]; omega)
  all_goals cases numeric

end Columns

section Runs

variable {col : JobColumn} {we : WeType} {mode : ImportDataMode} {f : Field} {s : Buffer}

lemma order_signed (signed : isUnsigned col.dataType = false)
    (number : isCharType col.dataType = false) : order col.dataType = id := by
  funext v
  simp [order, signed, number]

lemma order_unsigned (unsigned : isUnsigned col.dataType = true) :
    order col.dataType = unsignedRank := by
  funext v
  rw [order, if_pos (.inl unsigned), unsignedRank]

lemma readUnsigned_nonneg (hnn : mode = .text → 0 ≤ (strtoll f.chars).value) (size : Nat) :
    0 ≤ (readUnsigned mode size f).1 := by
  rw [readUnsigned]
  split_ifs with binary
  · exact Int.natCast_nonneg _
  · exact hnn (not_not.mp binary)

lemma given_umedint (type : col.dataType = .umedint) (proper : Proper mode col f s)
    (value : HasValue col f) :
    0 ≤ given col col.fDefaultUInt (readUnsigned mode 4 f).1 f s := by
  rw [Proper, type] at proper
  have hnn := proper value
  rw [given] at hnn ⊢
  by_cases null : f.nullFlag = true
  · rw [if_pos null] at hnn ⊢
    exact hnn (.inr null)
  · rw [if_neg null] at hnn ⊢
    exact readUnsigned_nonneg (fun text => hnn (.inl text)) 4

lemma wrap32_bounds (n : Int) : -2 ^ 31 ≤ wrap32 n ∧ wrap32 n < 2 ^ 31 := by
  rw [wrap32, Int.bmod_def]
  split <;> omega

lemma wrap64_bounds (n : Int) : -2 ^ 63 ≤ wrap64 n ∧ wrap64 n < 2 ^ 63 := by
  rw [wrap64, Int.bmod_def]
  split <;> omega

lemma readDate_bounds (mode : ImportDataMode) (f : Field) :
    -2 ^ 31 ≤ (readDate mode f).1 ∧ (readDate mode f).1 < 2 ^ 31 := by
  rw [readDate]
  split_ifs
  · exact ⟨BitVec.le_toInt _, BitVec.toInt_lt⟩
  rw [convertColumnDate]
  dsimp only
  split_ifs
  · decide
  · dsimp only
    exact wrap32_bounds _
  · decide

lemma readDatetime_bounds (mode : ImportDataMode) (f : Field) :
    -2 ^ 63 ≤ (readDatetime mode f).1 ∧ (readDatetime mode f).1 < 2 ^ 63 := by
  rw [readDatetime]
  split
  · exact ⟨BitVec.le_toInt _, BitVec.toInt_lt⟩
  rw [convertColumnDatetime]
  dsimp only
  split_ifs
  · decide
  split
  · decide
  · split_ifs
    · dsimp only
      exact wrap64_bounds _
    · decide

lemma convert_extends (shape : Shape col we) (proper : Proper mode col f s) :
    Extends (order col.dataType) col s (convert mode we col f s) := by
  cases shape with
  | signed signed number which width limits =>
    rw [order_signed signed number.2.2]
    have hsto : ∀ v sat, Storable col we.size (saturate col v sat).1 := by
      intro v sat
      have bounds := saturate_bounds v sat limits.2.1
      exact storable_signed signed width (by rcases which with rfl | rfl | rfl | rfl <;> decide)
        (by omega) (by omega)
    rcases which with rfl | rfl | rfl | rfl
    on_goal 3 => rw [convert, if_pos number.1]
    on_goal 4 => rw [convert, if_pos number.2.1]
    all_goals exact convertInteger_extends (fun _ sat => hsto _ sat)
  | unsigned unsigned which width limits =>
    rw [order_unsigned unsigned]
    have hsto : ∀ v sat, Storable col we.size (saturate col v sat).1 := by
      intro v sat
      have bounds := saturate_bounds v sat limits.2.1
      exact storable_unsigned unsigned width (by rcases which with rfl | rfl | rfl <;> decide)
        (by omega) (by omega)
    rcases which with rfl | rfl | rfl
    all_goals exact convertInteger_extends (fun _ sat => hsto _ sat)
  | umedint type width limits =>
    have unsigned : isUnsigned col.dataType = true := by rw [type]; rfl
    rw [order_unsigned unsigned]
    refine convertInteger_extends (fun value sat => ?_)
    have hnn := given_umedint type proper value
    have lo : col.fMinIntSat ≤ 0 := by rw [limits.1]; decide
    have hi : 0 ≤ toI64 col.fMaxIntSat ∧ toI64 col.fMaxIntSat < 2 ^ (8 * 4) := by
      rw [limits.2]
      decide
    refine storable_unsigned unsigned width (by decide) ?_ ?_ <;>
    · rw [saturate]
      split_ifs <;> simp only <;> omega
  | ubigint type width =>
    have unsigned : isUnsigned col.dataType = true := by rw [type]; rfl
    rw [order_unsigned unsigned]
    exact convertUlonglong_extends mode width unsigned
  | date type width =>
    have signed : isUnsigned col.dataType = false := by rw [type]; rfl
    rw [order_signed signed (by rw [type]; rfl), convert, if_neg (not_not.mpr type)]
    rw [Proper, type] at proper
    have default := wrap32_bounds col.fDefaultInt.toInt
    have read := readDate_bounds mode f
    exact convertDay_extends proper (storable_signed signed width (by decide) default.1 default.2)
      (storable_signed signed width (by decide) read.1 read.2)
  | datetime type width =>
    have signed : isUnsigned col.dataType = false := by rw [type]; rfl
    rw [order_signed signed (by rw [type]; rfl), convert, if_neg (not_not.mpr type)]
    rw [Proper, type] at proper
    have read := readDatetime_bounds mode f
    exact convertDay_extends proper
      (storable_signed signed width (by decide) (BitVec.le_toInt _) BitVec.toInt_lt)
      (storable_signed signed width (by decide) read.1 read.2)

/-- Each field meets the condition in the state it is converted in. -/
def AllProper (mode : ImportDataMode) (we : WeType) (col : JobColumn) : List Field → Buffer → Prop
  | [], _ => True
  | f :: fields, s =>
    Proper mode col f s ∧ AllProper mode we col fields (convert mode we col f s).1

/-- What is covered stays covered, and what is written in a run is covered at its end. -/
lemma convertAll_covers (shape : Shape col we) {fields : List Field}
    (proper : AllProper mode we col fields s) : (∀ v, Covers (order col.dataType) s.range v →
      Covers (order col.dataType) (convertAll mode we col fields s).1.range v) ∧
    ∀ out ∈ (convertAll mode we col fields s).2, out.isNull = false →
      Covers (order col.dataType) (convertAll mode we col fields s).1.range
        (col.valueOf out.bytes) := by
  induction fields generalizing s with
  | nil => exact ⟨fun _ hcove => hcove, nofun⟩
  | cons f fields ih =>
    obtain ⟨first, hos⟩ := proper
    have step := convert_extends shape first
    obtain ⟨kept, hcov⟩ := ih hos
    exact ⟨fun v hcove => kept v (step.before v hcove),
      List.forall_mem_cons.mpr ⟨fun value => kept _ (step.written value), hcov⟩⟩

/-- Every value written for a declared column lies in the range of the buffer, if each field is
proper. -/
theorem converted_values_covered {c : Column} (declared : Declared c)
    (weType : jobWeType c = some we) (mode : ImportDataMode) (fields : List Field)
    (next : BitVec 64) (proper : AllProper mode we (jobColumn c) fields
      ⟨blBufferStats (jobColumn c).dataType, 0, next⟩) :
    ∀ out ∈ (parsed mode we c fields next).2, out.isNull = false →
      Covers (order (jobColumn c).dataType) (parsed mode we c fields next).1.range
        ((jobColumn c).valueOf out.bytes) :=
  (convertAll_covers (shape_of_declared declared weType) proper).2

def plainColumn (type : ColDataType) : Column := ⟨⟨type, 4, 0, 0⟩, false, false, 0, 0⟩

def textField (chars : List Char) : Field := ⟨false, chars, 0, false⟩

def dayFields : List Field := [textField ['2', '0', '1', '6', '-', '0', '1', '-', '0', '1'],
  textField ['2', '0', '1', '4', '-', '0', '3', '-', '0', '9']]

/-- The second date extends the range downwards. -/
theorem new_year_covered : parsed .text .int (plainColumn .date) dayFields 0 =
      (⟨⟨132002430, 132124798⟩, 0, 0⟩, [⟨false, 132124798⟩, ⟨false, 132002430⟩]) ∧
    Covers (order .date) ⟨132002430, 132124798⟩ 132124798 ∧
    Covers (order .date) ⟨132002430, 132124798⟩ 132002430 := by
  have declared : Declared (plainColumn .date) := ⟨rfl, nofun⟩
  have covered := converted_values_covered declared rfl .text dayFields 0
    ⟨.inr (by decide), .inr (by decide), trivial⟩
  have result : parsed .text .int (plainColumn .date) dayFields 0 =
      (⟨⟨132002430, 132124798⟩, 0, 0⟩, [⟨false, 132124798⟩, ⟨false, 132002430⟩]) := by
    decide +kernel
  rw [result] at covered
  exact ⟨result, covered ⟨false, 132124798⟩ List.mem_cons_self rfl,
    covered ⟨false, 132002430⟩ (List.mem_cons_of_mem _ List.mem_cons_self) rfl⟩

/-- An invalid date is stored as zero beside a range that does not reach down to it, and a
negative number for an unsigned medium integer keeps its four low bytes. -/
theorem stored_outside_range : (parsed .text .int (plainColumn .date)
      [textField ['2', '0', '1', '6', '-', '0', '1', '-', '0', '1'],
        textField ['2', '0', '1', '6', '-', '1', '3', '-', '0', '1']] 0 =
      (⟨⟨132124798, 132124798⟩, 1, 0⟩, [⟨false, 132124798⟩, ⟨false, 0⟩]) ∧
    ¬Covers (order .date) ⟨132124798, 132124798⟩ ((jobColumn (plainColumn .date)).valueOf 0)) ∧
    parsed .text .uint (plainColumn .umedint) [textField ['-', '5']] 0 =
      (⟨⟨-5, -5⟩, 0, 0⟩, [⟨false, 4294967291⟩]) ∧
    ¬Covers (order .umedint) ⟨-5, -5⟩ ((jobColumn (plainColumn .umedint)).valueOf 4294967291) := by
  refine ⟨⟨by decide +kernel, ?_⟩, by decide +kernel, ?_⟩
  · rw [Covers]
    decide
  · rw [Covers]
    decide

end Runs

end BulkLoad
