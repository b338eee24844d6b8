import EryDb.DateText
import EryDb.LoadRanges

/-!
# Conversion of the fields of a bulk load

`convert` turns one field into the bytes of a column and keeps the range of the values it has
converted since the statistics of the buffer were made. The limits of a column are set twice:
first for the integer type every column tag starts with, then for the type of the catalog, and
a type that `initSatLimits` does not name keeps the first ones. A field of a binary import is
the eight bytes it starts with, of which a type reads as many as it has.
-/

namespace BulkLoad

open BrmTypes DataConvert DigitStrings RunningRange LoadRanges

inductive WeType where
  | byte | short | int | longlong | ubyte | ushort | uint | ulonglong
  deriving DecidableEq

def WeType.size : WeType → Nat
  | .byte | .ubyte => 1
  | .short | .ushort => 2
  | .int | .uint => 4
  | .longlong | .ulonglong => 8

def maxUTinyint : Nat := 253
def maxUSmallint : Nat := 65533
def maxUInt : Nat := 4294967293
def maxUBigint : Nat := 18446744073709551613

/-- A column of the catalog, with its default converted. -/
structure Column extends ColType where
  autoincrement : Bool
  withDefault : Bool
  defaultInt : BitVec 64
  defaultUInt : BitVec 64

structure JobColumn where
  dataType : ColDataType
  width : Nat
  precision : Nat
  scale : Int
  autoIncFlag : Bool
  fMinIntSat : Int
  fMaxIntSat : Nat
  fWithDefault : Bool
  fDefaultInt : BitVec 64
  fDefaultUInt : BitVec 64

variable (mode : ImportDataMode) (col : JobColumn)

def initSatLimits : JobColumn :=
  let limits (lo : Int) (hi : Nat) := { col with fMinIntSat := lo, fMaxIntSat := hi }
  match col.dataType with
  | .int => limits minInt maxInt.toNat
  | .uint => limits 0 maxUInt
  | .bigint => limits minBigint maxBigint.toNat
  | .ubigint => limits 0 maxUBigint
  | .smallint => limits minSmallint maxSmallint.toNat
  | .usmallint => limits 0 maxUSmallint
  | .tinyint => limits minTinyint maxTinyint.toNat
  | .utinyint => limits 0 maxUTinyint
  | .decimal => limits (-erydbPrecision col.precision) (erydbPrecision col.precision).toNat
  | .udecimal => limits 0 (erydbPrecision col.precision).toNat
  | _ => col

/-- A column tag that has a name only. -/
def setJobDataColumn : JobColumn := initSatLimits ⟨.int, 0, 0, 0, false, 0, 0, false, 0, 0⟩

/-- An integer type with a scale is taken for a decimal. -/
def jobType (c : ColType) : ColDataType :=
  match c.colDataType with
  | .int | .bigint | .smallint | .tinyint => if 0 < c.scale then .decimal else c.colDataType
  | type => type

def fillInXMLDataAsLoaded (c : Column) (col : JobColumn) : JobColumn :=
  let scaled := 0 < c.scale ∨ c.colDataType = .decimal ∨ c.colDataType = .udecimal
  initSatLimits { col with
    dataType := jobType c.toColType
    width := c.colWidth
    precision := if scaled then c.precision else col.precision
    scale := if scaled then c.scale else col.scale
    autoIncFlag := c.autoincrement
    fWithDefault := c.withDefault
    fDefaultInt := c.defaultInt
    fDefaultUInt := c.defaultUInt }

/-- The write engine's type, for the types that are stored as integers. -/
def convertColType (dataType : ColDataType) (width : Nat) : Option WeType :=
  match dataType with
  | .bit | .tinyint => some .byte
  | .smallint => some .short
  | .medint | .int | .date => some .int
  | .bigint | .datetime => some .longlong
  | .decimal | .udecimal =>
    match width with
    | 1 => some .byte
    | 2 => some .short
    | 4 => some .int
    | _ => some .longlong
  | .utinyint => some .ubyte
  | .usmallint => some .ushort
  | .umedint | .uint => some .uint
  | .ubigint => some .ulonglong
  | _ => none

def getCorrectRowWidth (dataType : ColDataType) (width : Nat) : Nat :=
  match dataType with
  | .tinyint | .utinyint => 1
  | .smallint | .usmallint => 2
  | .medint | .int | .umedint | .uint | .float | .ufloat | .date => 4
  | .bigint | .ubigint | .double | .udouble | .datetime => 8
  | .decimal | .udecimal =>
    if width = 1 then 1 else if width = 2 then 2 else if width ≤ 4 then 4 else 8
  | .varchar =>
    if width = 1 then 2 else if 2 ≤ width ∧ width ≤ 3 then 4 else if 4 ≤ width then 8 else 1
  | _ => if width = 2 then 2 else if 3 ≤ width ∧ width ≤ 4 then 4 else if 5 ≤ width then 8 else 1

/-- The column as `convert` is given it. -/
def jobColumn (c : Column) : JobColumn :=
  let col := fillInXMLDataAsLoaded c setJobDataColumn
  { col with width := getCorrectRowWidth col.dataType col.width }

inductive ImportDataMode where
  | text | binAcceptNull | binSatNull
  deriving DecidableEq

/-- One field, with whether `errno` is `ERANGE` when it is converted. -/
structure Field where
  nullFlag : Bool
  chars : List Char
  image : BitVec 64
  errange : Bool

structure Buffer where
  range : Range Int
  satCount : Nat
  fAutoIncNextValue : BitVec 64
  deriving DecidableEq

structure Output where
  isNull : Bool
  bytes : Nat
  deriving DecidableEq

def blBufferStats (colDataType : ColDataType) : Range Int :=
  if isUnsigned colDataType then ⟨toI64 maxUBigint, 0⟩ else ⟨maxBigint, minBigint⟩

/-- The low bytes of a variable of the given size that are copied to the output. -/
def memcpy (size width : Nat) (v : Int) : Nat := (v % 2 ^ (8 * size) % 2 ^ (8 * width)).toNat

/-- The value of a null field, if there is one. -/
def nullValue (fDefault : BitVec 64) (s : Buffer) : Option (BitVec 64 × Buffer) :=
  if col.autoIncFlag then
    some (s.fAutoIncNextValue, { s with fAutoIncNextValue := s.fAutoIncNextValue + 1 })
  else if col.fWithDefault then some (fDefault, s)
  else none

def saturate (origVal : Int) (bSatVal : Bool) : Int × Bool :=
  if origVal < col.fMinIntSat then (col.fMinIntSat, true)
  else if toI64 col.fMaxIntSat < origVal then (toI64 col.fMaxIntSat, true)
  else (origVal, bSatVal)

def Buffer.update (s : Buffer) (rank : Int → Int) (v : Int) (bSatVal : Bool) : Buffer := { s with
    range := extend rank s.range ⟨v, v⟩
    satCount := if bSatVal then s.satCount + 1 else s.satCount }

/-- The branch of a type that is saturated on both sides. The value that was read comes with
whether it was out of range. -/
def convertInteger (rank : Int → Int) (size null : Nat) (fDefault : BitVec 64)
    (read : Int × Bool) (col : JobColumn) (f : Field) (s : Buffer) : Buffer × Output :=
  let picked :=
    if f.nullFlag then (nullValue col fDefault s).map (fun p => (p.1.toInt, false, p.2))
    else some (read.1, read.2, s)
  match picked with
  | none => (s, ⟨true, memcpy size col.width null⟩)
  | some (origVal, bSatVal, s) =>
    let (origVal, bSatVal) := saturate col origVal bSatVal
    (s.update rank origVal bSatVal, ⟨false, memcpy size col.width origVal⟩)

/-- A number that the signed types read, with whether it was out of range. -/
def readSigned (size : Nat) (col : JobColumn) (f : Field) : Int × Bool :=
  if mode ≠ .text then ((f.image.setWidth (8 * size)).toInt, false)
  else if col.dataType = .decimal ∨ col.dataType = .udecimal then
    convertDecimalString f.chars col.scale.toNat
  else ((strtoll f.chars).value, (strtoll f.chars).outOfRange)

def readUnsigned (size : Nat) (f : Field) : Int × Bool :=
  if mode ≠ .text then ((f.image.setWidth (8 * size)).toNat, false)
  else ((strtoll f.chars).value, (strtoll f.chars).outOfRange)

/-- Only this branch looks at `errno` after it has copied a binary field. -/
def readLonglong (f : Field) : Int × Bool :=
  if mode ≠ .text then (f.image.toInt, f.errange) else readSigned mode 8 col f

def unsignedRank (v : Int) : Int := toU64 v

def convertShort (f : Field) : Buffer → Buffer × Output :=
  convertInteger id 2 0x8000 col.fDefaultInt (readSigned mode 2 col f) col f

def convertUshort (f : Field) : Buffer → Buffer × Output :=
  convertInteger unsignedRank 2 0xFFFE col.fDefaultUInt (readUnsigned mode 2 f) col f

def convertByte (f : Field) : Buffer → Buffer × Output :=
  convertInteger id 1 0x80 col.fDefaultInt (readSigned mode 1 col f) col f

def convertUbyte (f : Field) : Buffer → Buffer × Output :=
  convertInteger unsignedRank 1 0xFE col.fDefaultUInt (readUnsigned mode 1 f) col f

def convertLonglong (f : Field) : Buffer → Buffer × Output :=
  convertInteger id 8 0x8000000000000000 col.fDefaultInt (readLonglong mode col f) col f

def convertUint (f : Field) : Buffer → Buffer × Output :=
  convertInteger unsignedRank 4 0xFFFFFFFE col.fDefaultUInt (readUnsigned mode 4 f) col f

def convertInt (f : Field) : Buffer → Buffer × Output :=
  convertInteger id 4 0x80000000 col.fDefaultInt (readSigned mode 4 col f) col f

/-- A minus sign in front makes the lowest value of the column. -/
def readUlonglong (f : Field) : Nat × Bool :=
  if mode ≠ .text then (f.image.toNat, false)
  else if (f.chars.dropWhile isspace).head? = some '-' then (toU64 col.fMinIntSat, true)
  else ((strtoull f.chars).value.toNat, (strtoull f.chars).outOfRange)

/-- Only the upper limit is checked. -/
def convertUlonglong (f : Field) (s : Buffer) : Buffer × Output :=
  let read := readUlonglong mode col f
  let picked :=
    if f.nullFlag then
      (nullValue col col.fDefaultUInt s).map (fun p => (p.1.toNat, false, p.2))
    else some (read.1, read.2, s)
  match picked with
  | none => (s, ⟨true, memcpy 8 col.width 0xFFFFFFFFFFFFFFFE⟩)
  | some (ullVal, bSatVal, s) =>
    let (ullVal, bSatVal) :=
      if col.fMaxIntSat < ullVal then (col.fMaxIntSat, true) else (ullVal, bSatVal)
    (s.update unsignedRank (toI64 ullVal) bSatVal, ⟨false, memcpy 8 col.width ullVal⟩)

/-- The branch of a date or datetime. A value with a status other than zero is replaced by
zero, and the range is left as it is. -/
def convertDay (size null : Nat) (fDefault : Int) (read : Int × Int) (col : JobColumn)
    (f : Field) (s : Buffer) : Buffer × Output :=
  let picked :=
    if f.nullFlag then if col.fWithDefault then some (fDefault, 0) else none
    else some read
  match picked with
  | none => (s, ⟨true, memcpy size col.width null⟩)
  | some (date, rc) =>
    if rc = 0 then (s.update id date false, ⟨false, memcpy size col.width date⟩)
    else ({ s with satCount := s.satCount + 1 }, ⟨false, memcpy size col.width 0⟩)

def readDate (f : Field) : Int × Int :=
  if mode ≠ .text then
    let iDate := (f.image.setWidth 32).toInt
    (iDate, if isColumnDateValid iDate then 0 else -1)
  else convertColumnDate f.chars

def readDatetime (f : Field) : Int × Int :=
  if mode ≠ .text then (f.image.toInt, if isColumnDateTimeValid f.image.toInt then 0 else -1)
  else convertColumnDatetime f.chars

def convertDate (f : Field) : Buffer → Buffer × Output :=
  convertDay 4 0xFFFFFFFE (wrap32 col.fDefaultInt.toInt) (readDate mode f) col f

def convertDatetime (f : Field) : Buffer → Buffer × Output :=
  convertDay 8 0xFFFFFFFFFFFFFFFE col.fDefaultInt.toInt (readDatetime mode f) col f

def convert (weType : WeType) (col : JobColumn) (f : Field) (s : Buffer) : Buffer × Output :=
  match weType with
  | .short => convertShort mode col f s
  | .ushort => convertUshort mode col f s
  | .byte => convertByte mode col f s
  | .ubyte => convertUbyte mode col f s
  | .longlong =>
    if col.dataType ≠ .datetime then convertLonglong mode col f s
    else convertDatetime mode col f s
  | .ulonglong => convertUlonglong mode col f s
  | .uint => convertUint mode col f s
  | .int =>
    if col.dataType ≠ .date then convertInt mode col f s else convertDate mode col f s

/-- The fields of a buffer, one after another. -/
def convertAll (mode : ImportDataMode) (weType : WeType) (col : JobColumn) :
    List Field → Buffer → Buffer × List Output
  | [], s => (s, [])
  | f :: fields, s =>
    let (s, out) := convert mode weType col f s
    let (s, outs) := convertAll mode weType col fields s
    (s, out :: outs)

/-- A buffer whose statistics start with the first of the fields. -/
def parsed (weType : WeType) (c : Column) (fields : List Field) (next : BitVec 64) :
    Buffer × List Output :=
  convertAll mode weType (jobColumn c) fields ⟨blBufferStats (jobColumn c).dataType, 0, next⟩

end BulkLoad
