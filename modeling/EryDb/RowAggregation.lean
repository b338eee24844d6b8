import Mathlib.Data.BitVec
import EryDb.BrmTypes
import EryDb.StringStore
import EryDb.GroupFolds

/-!
# Aggregation of rows in two phases

`RowAggregation` makes one result row for each GROUP BY key, and `RowAggregationUMP2` makes the
final rows from such partial ones. NULL is a marker inside the value range of a column, in the
input as in the result rows, and it is the same test, `isNull`, that recognises it everywhere.

Values are 64 bit words, read and stored through the width of their column. A function owns one
field of the result row, AVG also the count beside its sum. Floating point values are those of
`Float`; the conversions and the collation of the C library are parameters.
-/

namespace RowAggregation

open BrmTypes
open LittleEndian (Byte)
open StringStore (cpNullStrMark strncmpEq)

structure Column where
  type : ColDataType
  width : Nat
  scale : Nat
  /-- Whether long strings of this column are in a string table, not in the row. -/
  inTable : Bool
  deriving DecidableEq

/-- A field of a row: the bits of a value, or the bytes of a long string. -/
structure Field where
  word : BitVec 64
  text : List Byte
  deriving DecidableEq

def Field.zero : Field := ⟨0, []⟩

abbrev Row := Nat → Field

/-- What the code takes from the C library. -/
structure Platform where
  strcoll : List Byte → List Byte → Int
  strtoll : List Byte → BitVec 64
  /-- The cast of a double to `int64_t`. -/
  toInt64 : Float → BitVec 64

inductive Error where
  | aggregateData (msg : String)
  | aggregateFunc (msg : String)
  | aggregationTooBig
  deriving DecidableEq

inductive AggFunction where
  | countAsterisk | countColName | sum | avg | min | max | bitAnd | bitOr | bitXor
  deriving DecidableEq

def bigintNull : BitVec 64 := 0x8000000000000000
def intNull : BitVec 32 := 0x80000000
def smallintNull : BitVec 16 := 0x8000
def tinyintNull : BitVec 8 := 0x80
def ubigintNull : BitVec 64 := 0xFFFFFFFFFFFFFFFE
def uintNull : BitVec 32 := 0xFFFFFFFE
def usmallintNull : BitVec 16 := 0xFFFE
def utinyintNull : BitVec 8 := 0xFE
def floatNull : BitVec 32 := 0xFFAAAAAA
def doubleNull : BitVec 64 := 0xFFFAAAAAAAAAAAAA
def dateNull : BitVec 32 := 0xFFFFFFFE
def datetimeNull : BitVec 64 := 0xFFFFFFFFFFFFFFFE
def char1Null : BitVec 8 := 0xFE
def char2Null : BitVec 16 := 0xFEFF
def char4Null : BitVec 32 := 0xFEFFFFFF
def char8Null : BitVec 64 := 0xFEFFFFFFFFFFFFFF

def getIntNullValue : ColDataType → BitVec 64
  | .tinyint => tinyintNull.setWidth 64
  | .smallint => smallintNull.setWidth 64
  | .medint | .int => intNull.setWidth 64
  | _ => bigintNull

def getUintNullValue (type : ColDataType) (width : Nat) : BitVec 64 :=
  match type with
  | .char =>
    if width = 1 then char1Null.setWidth 64
    else if width = 2 then char2Null.setWidth 64
    else if width < 5 then char4Null.setWidth 64
    else char8Null
  | .varchar =>
    if width < 3 then char2Null.setWidth 64
    else if width < 5 then char4Null.setWidth 64
    else char8Null
  | .date => dateNull.setWidth 64
  | .datetime => datetimeNull
  | .decimal | .udecimal =>
    if width = 1 then tinyintNull.setWidth 64
    else if width = 2 then smallintNull.setWidth 64
    else if width = 4 then intNull.setWidth 64
    else bigintNull
  | .utinyint => utinyintNull.setWidth 64
  | .usmallint => usmallintNull.setWidth 64
  | .umedint | .uint => uintNull.setWidth 64
  | .ubigint => ubigintNull
  | _ => char8Null

/-- The bits of a field that are in the row. -/
def bits (c : Column) (f : Field) : BitVec (8 * c.width) := f.word.setWidth (8 * c.width)

def getUintField (c : Column) (f : Field) : BitVec 64 := (bits c f).setWidth 64

def getIntField (c : Column) (f : Field) : BitVec 64 := (bits c f).signExtend 64

/-- `setIntField` and `setUintField` store the same low bytes. -/
def setField (c : Column) (v : BitVec 64) : Field := ⟨(v.setWidth (8 * c.width)).setWidth 64, []⟩

def getDoubleField (f : Field) : Float := Float.ofBits (UInt64.ofBitVec f.word)

def getFloatField (f : Field) : Float32 := Float32.ofBits (UInt32.ofBitVec (f.word.setWidth 32))

def setDoubleField (v : Float) : Field := ⟨v.toBits.toBitVec, []⟩

/-- A NaN in the single precision format. -/
def isnan (v : BitVec 32) : Bool := v &&& 0x7F800000 = 0x7F800000 ∧ v &&& 0x007FFFFF ≠ 0

def setFloatBits (v : BitVec 32) : Field := ⟨(if isnan v then floatNull else v).setWidth 64, []⟩

def setFloatField (v : Float32) : Field := setFloatBits v.toBits.toBitVec

def isLongString (c : Column) : Bool := c.width > 8 && isCharType c.type

/-- The string that is read back after `storeString`: a NULL string is only its length. -/
def storeString (s : List Byte) : List Byte :=
  if (s.length = 8 ∨ s.length = 9) ∧ s.take 8 = cpNullStrMark then
    (cpNullStrMark ++ [0]).take s.length
  else s

def setStringField (c : Column) (s : List Byte) : Field :=
  if c.inTable then ⟨0, storeString (s.take c.width)⟩
  else ⟨0, (s.take c.width).takeWhile (· ≠ 0)⟩

def getStringField (c : Column) (f : Field) : List Byte :=
  if isLongString c then f.text
  else (LittleEndian.write c.width f.word.toNat).takeWhile (· ≠ 0)

/-- `Row::equals` with the empty string or with the marker. In a string table only as many bytes
are compared as the stored string has, so that a start of the marker equals it. -/
def isNullText (c : Column) (s : List Byte) : Bool :=
  if c.inTable then s = [] || strncmpEq [] s s.length || strncmpEq cpNullStrMark s s.length
  else strncmpEq [] s c.width || strncmpEq cpNullStrMark s c.width

def isNull (c : Column) (f : Field) : Bool :=
  match c.type with
  | .tinyint => (getIntField c f).setWidth 8 = tinyintNull
  | .utinyint => (getIntField c f).setWidth 8 = utinyintNull
  | .char | .varchar =>
    -- a scale marks a token, not a string
    if c.scale > 0 then getIntField c f &&& bigintNull ≠ 0
    else if c.width ≤ 8 then
      if c.width = 1 then (getUintField c f).setWidth 8 = char1Null
      else if c.width = 2 then (getUintField c f).setWidth 16 = char2Null
      else if c.width < 5 then (getUintField c f).setWidth 32 = char4Null
      else getUintField c f = char8Null
    else isNullText c f.text
  | .smallint => (getIntField c f).setWidth 16 = smallintNull
  | .usmallint => (getIntField c f).setWidth 16 = usmallintNull
  | .double | .udouble => getUintField c f = doubleNull
  | .medint | .int => (getIntField c f).setWidth 32 = intNull
  | .umedint | .uint => (getIntField c f).setWidth 32 = uintNull
  | .float | .ufloat => (getUintField c f).setWidth 32 = floatNull
  | .date => (getUintField c f).setWidth 32 = dateNull
  | .bigint => getIntField c f = bigintNull
  | .ubigint => getIntField c f = ubigintNull
  | .decimal | .udecimal =>
    if c.width = 1 then (getIntField c f).setWidth 8 = tinyintNull
    else if c.width = 2 then (getIntField c f).setWidth 16 = smallintNull
    else if c.width = 4 then (getIntField c f).setWidth 32 = intNull
    else getIntField c f = bigintNull
  | .datetime => getUintField c f = datetimeNull
  | .varbinary => isNullText c f.text
  | _ => false

/-- The smaller value for MIN, the larger one otherwise. -/
def minMax {V : Type} [LT V] [DecidableLT V] (func : AggFunction) (d1 d2 : V) : Bool :=
  if func = .min then d1 < d2 else d2 < d1

/-- `htonll`, for which strings compare as numbers. -/
def uint64ToStr (n : BitVec 64) : Nat := LittleEndian.read (LittleEndian.write 8 n.toNat).reverse

/-- The common shape of the updates of MIN and MAX: a NULL result takes any value. -/
def updateMinMax (out : Column) (old new : Field) (better : Bool) : Field :=
  if isNull out old then new else if better then new else old

def updateIntMinMax (out : Column) (func : AggFunction) (val1 val2 : BitVec 64) (old : Field) :
    Field :=
  updateMinMax out old (setField out val1) (minMax func val1.toInt val2.toInt)

def updateUintMinMax (out : Column) (func : AggFunction) (val1 val2 : BitVec 64) (old : Field) :
    Field :=
  updateMinMax out old (setField out val1) (minMax func val1.toNat val2.toNat)

def updateCharMinMax (out : Column) (func : AggFunction) (val1 val2 : BitVec 64) (old : Field) :
    Field :=
  updateMinMax out old (setField out val1) (minMax func (uint64ToStr val1) (uint64ToStr val2))

def updateDoubleMinMax (out : Column) (func : AggFunction) (val1 val2 : Float) (old : Field) :
    Field :=
  updateMinMax out old (setDoubleField val1) (minMax func val1 val2)

def updateFloatMinMax (out : Column) (func : AggFunction) (val1 val2 : Float32) (old : Field) :
    Field :=
  updateMinMax out old (setFloatField val1) (minMax func val1 val2)

variable (p : Platform)

def updateStringMinMax (out : Column) (func : AggFunction) (val1 val2 : List Byte) (old : Field) :
    Field :=
  updateMinMax out old (setStringField out val1)
    ((p.strcoll val1 val2 < 0 && func = .min) || (p.strcoll val1 val2 > 0 && func = .max))

def overflowMsg : String := "Aggregation overflow."

def int64Max : Int := 9223372036854775807
def int64Min : Int := -9223372036854775808
def uint64Max : Nat := 18446744073709551615

/-- Whether the code adds two signed values, judged without overflow. -/
def intAdds (val1 val2 : BitVec 64) : Bool :=
  (0 ≤ val2.toInt ∧ int64Max - val2.toInt ≥ val1.toInt) ∨
    (val2.toInt < 0 ∧ int64Min - val2.toInt ≤ val1.toInt)

def uintAdds (val1 val2 : BitVec 64) : Bool := uint64Max - val2.toNat ≥ val1.toNat

def updateIntSum (out : Column) (val1 val2 : BitVec 64) (old : Field) : Except Error Field :=
  if isNull out old then .ok (setField out val1)
  else if intAdds val1 val2 then .ok (setField out (val1 + val2))
  else .error (.aggregateData (overflowMsg ++ ": " ++ toString val2.toInt ++ "+" ++
    toString val1.toInt ++
    (if val2.toInt > 0 then " > " ++ toString int64Max else " < " ++ toString int64Min)))

def updateUintSum (out : Column) (val1 val2 : BitVec 64) (old : Field) : Except Error Field :=
  if isNull out old then .ok (setField out val1)
  else if uintAdds val1 val2 then .ok (setField out (val1 + val2))
  else .error (.aggregateData (overflowMsg ++ ": " ++ toString val2.toNat ++ "+" ++
    toString val1.toNat ++ " > " ++ toString uint64Max))

def updateDoubleSum (out : Column) (val1 val2 : Float) (old : Field) : Field :=
  if isNull out old then setDoubleField val1 else setDoubleField (val1 + val2)

def updateFloatSum (out : Column) (val1 val2 : Float32) (old : Field) : Field :=
  if isNull out old then setFloatField val1 else setFloatField (val1 + val2)

/-- `col` is the column of the input field `x`, `out` that of the result field `old`. -/
def doMinMaxSum (col out : Column) (func : AggFunction) (x old : Field) : Except Error Field :=
  if isNull col x then .ok old
  else match col.type with
  | .tinyint | .smallint | .medint | .int | .bigint | .decimal | .udecimal =>
    if func = .sum then updateIntSum out (getIntField col x) (getIntField out old) old
    else .ok (updateIntMinMax out func (getIntField col x) (getIntField out old) old)
  | .utinyint | .usmallint | .umedint | .uint | .ubigint =>
    if func = .sum then updateUintSum out (getUintField col x) (getUintField out old) old
    else .ok (updateUintMinMax out func (getUintField col x) (getUintField out old) old)
  | .char | .varchar =>
    if func = .sum then
      .error (.aggregateFunc "RowAggregation: sum(CHAR[]) is not supported.")
    else if col.width ≤ 8 then
      .ok (updateCharMinMax out func (getUintField col x) (getUintField out old) old)
    else .ok (updateStringMinMax p out func x.text old.text old)
  | .double | .udouble =>
    if func = .sum then .ok (updateDoubleSum out (getDoubleField x) (getDoubleField old) old)
    else .ok (updateDoubleMinMax out func (getDoubleField x) (getDoubleField old) old)
  | .float | .ufloat =>
    if func = .sum then .ok (updateFloatSum out (getFloatField x) (getFloatField old) old)
    else .ok (updateFloatMinMax out func (getFloatField x) (getFloatField old) old)
  | .date | .datetime =>
    if func = .sum then
      .error (.aggregateFunc "RowAggregation: sum(date|date time) is not supported.")
    else .ok (updateUintMinMax out func (getUintField col x) (getUintField out old) old)
  | _ => .ok old

def erydbPow (i : Nat) : BitVec 64 := BitVec.ofNat 64 (10 ^ i)

/-- Rounds a decimal to an integer, half away from zero. -/
def roundScaled (scale : Nat) (v : BitVec 64) : BitVec 64 :=
  let v := v.sdiv (erydbPow (scale - 1))
  let v := if 0 < v.toInt then v + 5 else if v.toInt < 0 then v - 5 else v
  v.sdiv 10

def roundDouble (dbl : Float) : BitVec 64 :=
  if dbl > 9223372036854775807 then 0x7FFFFFFFFFFFFFFF
  else if dbl < -9223372036854775808 then 0x8000000000000000
  else p.toInt64 (dbl + if dbl ≥ 0 then 0.5 else -0.5)

/-- The integer a bit function works with. -/
def bitInput (col : Column) (x : Field) : BitVec 64 :=
  match col.type with
  | .tinyint | .smallint | .medint | .int | .bigint | .decimal | .udecimal =>
    if col.scale ≠ 0 then roundScaled col.scale (getIntField col x) else getIntField col x
  | .utinyint | .usmallint | .umedint | .uint | .ubigint => getUintField col x
  | .char | .varchar => p.strtoll (getStringField col x)
  | .double | .udouble => roundDouble p (getDoubleField x)
  | .float | .ufloat => roundDouble p (getFloatField x).toFloat
  | .date =>
    let dt := getUintField col x &&& 0xFFFFFFC0
    (dt >>> 16) * 10000 + ((dt >>> 12) &&& 0xF) * 100 + ((dt >>> 6) &&& 0x3F)
  | .datetime =>
    let dtm := getUintField col x
    (dtm >>> 48) * 10000000000 + ((dtm >>> 44) &&& 0xF) * 100000000 +
      ((dtm >>> 38) &&& 0x3F) * 1000000 + ((dtm >>> 32) &&& 0x3F) * 10000 +
      ((dtm >>> 26) &&& 0x3F) * 100 + ((dtm >>> 20) &&& 0x3F)
  | _ => 0

def bitOp (func : AggFunction) (a b : BitVec 64) : BitVec 64 :=
  match func with
  | .bitAnd => a &&& b
  | .bitOr => a ||| b
  | _ => a ^^^ b

def doBitOp (col out : Column) (func : AggFunction) (x old : Field) : Field :=
  if isNull col x then old
  else setField out (bitOp func (bitInput p col x)
    (if isUnsigned col.type then getUintField out old else getIntField out old))

/-- What a function keeps in a result row; `aux` is the count of an AVG. -/
structure Cell where
  out : Field
  aux : Field
  deriving DecidableEq

structure FunctionCol where
  func : AggFunction
  colIn : Nat
  deriving DecidableEq

def bigintColumn : Column := ⟨.bigint, 8, 0, false⟩

/-- The column `prep2PhasesAggregate` makes for a function of `col`. -/
def outColumn (col : Column) : AggFunction → Column
  | .min | .max => col
  | .sum | .avg =>
    match col.type with
    | .double | .udouble | .float | .ufloat => col
    | type =>
      if isUnsigned type then ⟨.ubigint, 8, col.scale, false⟩
      else ⟨.bigint, 8, col.scale, false⟩
  | _ => bigintColumn

/-- The NULL `makeAggFieldsNull` leaves in a column. -/
def nullField (c : Column) : Field :=
  match c.type with
  | .tinyint | .smallint | .medint | .int | .bigint => setField c (getIntNullValue c.type)
  | .utinyint | .usmallint | .umedint | .uint | .ubigint =>
    setField c (getUintNullValue c.type 0)
  | .decimal | .udecimal => setField c (getUintNullValue c.type c.width)
  | .char | .varchar =>
    if c.width ≤ 8 then setField c (getUintNullValue c.type c.width)
    else setStringField c cpNullStrMark
  | .double | .udouble => ⟨doubleNull, []⟩
  | .float | .ufloat => setFloatBits floatNull
  | .date | .datetime => setField c (getUintNullValue c.type 0)
  | _ => .zero

def makeAggFieldsNull (out : Column) : AggFunction → Cell
  | .countAsterisk | .countColName | .bitOr | .bitXor => ⟨.zero, .zero⟩
  | .bitAnd => ⟨setField out 0xFFFFFFFFFFFFFFFF, .zero⟩
  | _ => ⟨nullField out, .zero⟩

/-- `RowAggregation::doAvg`. -/
def doAvg (col out : Column) (x : Field) (cell : Cell) : Except Error Cell :=
  if isNull col x then .ok cell
  else match col.type with
  | .tinyint | .smallint | .medint | .int | .bigint | .decimal | .udecimal =>
    let valIn := getIntField col x
    let valOut := getIntField out cell.out
    if getIntField bigintColumn cell.aux = 0 then
      .ok ⟨setField out valIn, setField bigintColumn 1⟩
    else if intAdds valIn valOut then
      .ok ⟨setField out (valIn + valOut),
        setField bigintColumn (getIntField bigintColumn cell.aux + 1)⟩
    else .error (.aggregateData (overflowMsg ++ ": " ++ toString valOut.toInt ++ "+" ++
      toString valIn.toInt ++
      (if valOut.toInt > 0 then " > " ++ toString uint64Max else " < " ++ toString 0)))
  | .utinyint | .usmallint | .umedint | .uint | .ubigint =>
    let valIn := getUintField col x
    let valOut := getUintField out cell.out
    if getUintField bigintColumn cell.aux = 0 then
      .ok ⟨setField out valIn, setField bigintColumn 1⟩
    else if uintAdds valIn valOut then
      .ok ⟨setField out (valIn + valOut),
        setField bigintColumn (getUintField bigintColumn cell.aux + 1)⟩
    else .error (.aggregateData (overflowMsg ++ ": " ++ toString valOut.toNat ++ "+" ++
      toString valIn.toNat ++ " > " ++ toString uint64Max))
  | .double | .udouble =>
    if getIntField bigintColumn cell.aux = 0 then
      .ok ⟨setDoubleField (getDoubleField x), setField bigintColumn 1⟩
    else .ok ⟨setDoubleField (getDoubleField x + getDoubleField cell.out),
      setField bigintColumn (getIntField bigintColumn cell.aux + 1)⟩
  | .float | .ufloat =>
    if getIntField bigintColumn cell.aux = 0 then
      .ok ⟨setFloatField (getFloatField x), setField bigintColumn 1⟩
    else .ok ⟨setFloatField (getFloatField x + getFloatField cell.out),
      setField bigintColumn (getIntField bigintColumn cell.aux + 1)⟩
  | type => .error (.aggregateFunc
      ("RowAggregation: no average for data type: " ++ toString type.ctorIdx))

/-- One function of `RowAggregation::updateEntry`. -/
def updateCell (cols : Nat → Column) (f : FunctionCol) (cell : Cell) (row : Row) :
    Except Error Cell :=
  let col := cols f.colIn
  let out := outColumn col f.func
  let x := row f.colIn
  match f.func with
  | .countColName =>
    if isNull col x then .ok cell
    else .ok { cell with out := setField out (getIntField out cell.out + 1) }
  | .countAsterisk => .ok { cell with out := setField out (getIntField out cell.out + 1) }
  | .min | .max | .sum => do
      let field ← doMinMaxSum p col out f.func x cell.out
      .ok { cell with out := field }
  | .avg => doAvg col out x cell
  | .bitAnd | .bitOr | .bitXor => .ok { cell with out := doBitOp p col out f.func x cell.out }

namespace UMP2

/-- `RowAggregationUMP2::doAvg`, on a partial sum and its count. -/
def doAvg (col : Column) (part cell : Cell) : Except Error Cell :=
  if isNull col part.out then .ok cell
  else match col.type with
  | .tinyint | .smallint | .medint | .int | .bigint | .decimal | .udecimal =>
    if getIntField bigintColumn cell.aux = 0 then
      .ok ⟨setField col (getIntField col part.out),
        setField bigintColumn (getIntField bigintColumn part.aux)⟩
    else .ok ⟨setField col (getIntField col part.out + getIntField col cell.out),
      setField bigintColumn (getIntField bigintColumn part.aux + getIntField bigintColumn cell.aux)⟩
  | .utinyint | .usmallint | .umedint | .uint | .ubigint =>
    if getUintField bigintColumn cell.aux = 0 then
      .ok ⟨setField col (getUintField col part.out),
        setField bigintColumn (getUintField bigintColumn part.aux)⟩
    else .ok ⟨setField col (getUintField col part.out + getUintField col cell.out),
      setField bigintColumn (getUintField bigintColumn part.aux +
        getUintField bigintColumn cell.aux)⟩
  | .double | .udouble =>
    if getIntField bigintColumn cell.aux = 0 then
      .ok ⟨setDoubleField (getDoubleField part.out),
        setField bigintColumn (getIntField bigintColumn part.aux)⟩
    else .ok ⟨setDoubleField (getDoubleField part.out + getDoubleField cell.out),
      setField bigintColumn (getIntField bigintColumn part.aux + getIntField bigintColumn cell.aux)⟩
  | .float | .ufloat =>
    if getIntField bigintColumn cell.aux = 0 then
      .ok ⟨setFloatField (getFloatField part.out),
        setField bigintColumn (getIntField bigintColumn part.aux)⟩
    else .ok ⟨setFloatField (getFloatField part.out + getFloatField cell.out),
      setField bigintColumn (getIntField bigintColumn part.aux + getIntField bigintColumn cell.aux)⟩
  | type => .error (.aggregateFunc
      ("RowAggregationUMP2: no average for data type: " ++ toString type.ctorIdx))

/-- `RowAggregationUMP2::doBitOp`: no test for NULL, the identities of phase one combine. -/
def doBitOp (col : Column) (func : AggFunction) (part old : Field) : Field :=
  setField col (bitOp func (getUintField col part) (getUintField col old))

/-- One function of `RowAggregationUMP2::updateEntry`. Both its input and its result have the
column that phase one made. -/
def updateCell (p : Platform) (cols : Nat → Column) (f : FunctionCol) (cell part : Cell) :
    Except Error Cell :=
  let col := outColumn (cols f.colIn) f.func
  match f.func with
  | .countAsterisk | .countColName =>
    .ok { cell with out := setField col (getIntField col cell.out + getIntField col part.out) }
  | .min | .max | .sum => do
      let field ← doMinMaxSum p col col f.func part.out cell.out
      .ok { cell with out := field }
  | .avg => doAvg col part cell
  | .bitAnd | .bitOr | .bitXor => .ok { cell with out := doBitOp col f.func part.out cell.out }

end UMP2

abbrev Key := List Field

structure Query where
  platform : Platform
  cols : Nat → Column
  fGroupByCols : List Nat
  fFunctionCols : List FunctionCol

/-- A result row. `key` is what its key columns hold; the hash set keeps it in the bucket of
`filed`, the key it was made for. -/
structure Entry where
  key : Key
  filed : Key
  cells : List Cell
  deriving DecidableEq

structure Table where
  entries : List Entry
  fTotalRowCount : Nat
  fMaxTotalRowCount : Nat
  deriving DecidableEq

/-- What a run meets outside the rows: whether an entry filed under one key is seen by a search
for another one, which hashing and rehashing decide, and whether memory is granted. -/
structure Setting where
  placed : Nat → Key → Key → Bool
  memory : Nat → Bool

/-- The number of rows of a row group. -/
def aggRowGroupSize : Nat := 256

/-- A key column as hashing and comparison read it. -/
def readKey (c : Column) (f : Field) : Field :=
  if isLongString c then ⟨0, f.text⟩ else ⟨getUintField c f, []⟩

/-- What `initMapData` leaves of a key column in a new result row. -/
def copyKey (c : Column) (f : Field) : Field :=
  match c.type with
  | .tinyint | .smallint | .medint | .int | .bigint | .decimal | .udecimal
  | .utinyint | .usmallint | .umedint | .uint | .ubigint | .double | .udouble
  | .date | .datetime => f
  | .char | .varchar => if c.width ≤ 8 then f else setStringField c f.text
  | .float | .ufloat => setFloatBits (f.word.setWidth 32)
  | _ => .zero

def Query.key (q : Query) (row : Row) : Key :=
  q.fGroupByCols.map fun i => readKey (q.cols i) (row i)

def Query.copy (q : Query) (key : Key) : Key :=
  q.fGroupByCols.zipWith (fun i f => copyKey (q.cols i) f) key

def Query.nullRow (q : Query) : List Cell :=
  q.fFunctionCols.map fun f => makeAggFieldsNull (outColumn (q.cols f.colIn) f.func) f.func

def Query.updateEntry (q : Query) : List Cell → Row → Except Error (List Cell) :=
  GroupFolds.along (q.fFunctionCols.map (updateCell q.platform q.cols))

def UMP2.updateEntry (q : Query) : List Cell → List Cell → Except Error (List Cell) :=
  GroupFolds.alongRow (q.fFunctionCols.map (UMP2.updateCell q.platform q.cols))

/-- Update the first entry that a search finds. -/
def updateFound (found : Entry → Bool) (update : List Cell → Except Error (List Cell)) :
    List Entry → Option (Except Error (List Entry))
  | [] => none
  | e :: entries =>
    if found e then some do
      let cells ← update e.cells
      .ok ({ e with cells := cells } :: entries)
    else (updateFound found update entries).map fun rest => do
      let entries ← rest
      .ok (e :: entries)

def aggregateRow (q : Query) (env : Setting) (update : List Cell → Except Error (List Cell))
    (key : Key) (t : Table) : Except Error Table :=
  let found (e : Entry) : Bool :=
    e.key = key ∧ (e.filed = key ∨ env.placed t.entries.length e.filed key)
  match updateFound found update t.entries with
  | some updated => do
      let entries ← updated
      .ok { t with entries := entries }
  | none =>
    if t.fTotalRowCount + 1 > t.fMaxTotalRowCount ∧ env.memory t.fMaxTotalRowCount = false then
      .error .aggregationTooBig
    else do
      let cells ← update q.nullRow
      .ok ⟨t.entries ++ [⟨q.copy key, key, cells⟩], t.fTotalRowCount + 1,
        if t.fTotalRowCount + 1 > t.fMaxTotalRowCount then t.fMaxTotalRowCount + aggRowGroupSize
        else t.fMaxTotalRowCount⟩

/-- Without GROUP BY there is one row from the start, and no other. -/
def Query.start (q : Query) : Table :=
  ⟨if q.fGroupByCols = [] then [⟨[], [], q.nullRow⟩] else [], 0, aggRowGroupSize⟩

def countSpecial (count : Nat) (cells : List Cell) : List Cell := cells.map fun cell =>
    { cell with
      out := setField bigintColumn (getIntField bigintColumn cell.out + BitVec.ofNat 64 count) }

def addRowGroup (q : Query) (env : Setting) (t : Table) (rows : List Row) : Except Error Table :=
  if q.fGroupByCols = [] ∧ q.fFunctionCols.map FunctionCol.func = [.countAsterisk] then
    .ok { t with entries := t.entries.map fun e =>
      { e with cells := countSpecial rows.length e.cells } }
  else rows.foldlM (fun t row => aggregateRow q env (q.updateEntry · row) (q.key row) t) t

/-- A run of `RowAggregation`, whose `newRowGroup` is not refused memory. -/
def aggregate (q : Query) (placed : Nat → Key → Key → Bool) (groups : List (List Row)) :
    Except Error Table :=
  groups.foldlM (addRowGroup q ⟨placed, fun _ => true⟩) q.start

/-- The result rows: the key columns and the functions' cells. -/
def Table.rows (t : Table) : List (Key × List Cell) := t.entries.map fun e => (e.key, e.cells)

/-- A run of `RowAggregationUMP2` over partial rows, for GROUP BY columns that keep their positions:
with others `aggregateRowWithRemap` searches copies of the input keys, not the result rows. -/
def UMP2.aggregate (q : Query) (env : Setting) (parts : List (Key × List Cell)) :
    Except Error Table :=
  parts.foldlM (fun t part => aggregateRow q env (UMP2.updateEntry q · part.2) part.1 t) q.start

end RowAggregation
