import EryDb.CasualPruning

/-!
# Scanning a block of a column

`p_Col` walks over the cells of a block, tests each row against the filters and
stores the rows that pass. When it was given no row ids it also returns the least and
the greatest value it has met, which is where the range of an extent comes from. The
filters are either those of the message or were parsed before the scan, in which case
a list of equalities or inequalities has become a set.
-/

namespace ColumnScan

open BrmTypes ColumnTypes FilterStrings LittleEndian CasualPruning

section Comparisons

variable {T : Type} [LT T] [LE T] [BEq T] [DecidableLT T] [DecidableLE T]

def colCompare_ (val1 val2 : T) (cop : CompareOp) : Bool :=
  match cop with
  | .lt => decide (val1 < val2)
  | .eq => val1 == val2
  | .le => decide (val1 ≤ val2)
  | .gt => decide (val2 < val1)
  | .ne => val1 != val2
  | .ge => decide (val2 ≤ val1)
  | _ => false

/-- The comparison that looks at the rounding flag of the operand. -/
def colCompareRounded_ (val1 val2 : T) (cop : CompareOp) (rf : Byte) : Bool :=
  match cop with
  | .lt => decide (val1 < val2) || (val1 == val2 && rf &&& 0x01 != 0)
  | .le => decide (val1 < val2) || (val1 == val2 && rf ^^^ 0x80 != 0)
  | .eq => val1 == val2 && rf == 0
  | .ne => val1 != val2 || rf != 0
  | .ge => decide (val2 < val1) || (val1 == val2 && rf ^^^ 0x01 != 0)
  | .gt => decide (val2 < val1) || (val1 == val2 && rf &&& 0x80 != 0)
  | _ => false

end Comparisons

/-- A compiled pattern; what it matches is the business of the regular expression library. -/
structure Regex where
  used : Bool
  isLike : Nat → Bool

def placeholderRegex : Regex := ⟨false, fun _ => false⟩

def colStrCompare_ (val1 val2 : Nat) (cop : CompareOp) (rf : Byte) (regex : Regex) : Bool :=
  match cop with
  | .lt => decide (val1 < val2) || (val1 == val2 && rf != 0)
  | .le => decide (val1 ≤ val2)
  | .eq => val1 == val2 && rf == 0
  | .ne => val1 != val2 || rf != 0
  | .ge => decide (val2 < val1) || (val1 == val2 && rf == 0)
  | .gt => decide (val2 < val1)
  | .like => regex.isLike (orderSwap val1)
  | .nlike => !regex.isLike (orderSwap val1)
  | _ => false

def asDouble (type : ColDataType) (val : Int) : Float :=
  if type = .float then (Float32.ofBits (UInt32.ofNat (toU64 val))).toFloat
  else Float.ofBits (UInt64.ofNat (toU64 val))

/-- `isNullVal` on the low bytes of a widened operand. -/
def operandNull (width : Width) (type : ColDataType) (val : Int) : Bool :=
  isNullVal width type (toU64 val % 256 ^ width.bytes)

def colCompare (val1 val2 : Int) (cop : CompareOp) (rf : Byte) (type : ColDataType)
    (width : Width) (regex : Regex) (isNull : Bool) : Bool :=
  if cop = .nil then false
  else if isNull = false ∧ (type = .float ∨ type = .double) then
    colCompare_ (asDouble type val1) (asDouble type val2) cop
  else if (type = .char ∨ type = .varchar) ∧ isNull = false then
    if regex.used = false ∧ rf = 0 then colCompare_ (orderSwap val1) (orderSwap val2) cop
    else colStrCompare_ (orderSwap val1) (orderSwap val2) cop rf regex
  else
    let val2Null := operandNull width type val2
    if isNull = val2Null ∨ (val2Null = true ∧ cop = .ne) then colCompareRounded_ val1 val2 cop rf
    else false

lemma isCharType_iff (type : ColDataType) :
    isCharType type = true ↔ type = .char ∨ type = .varchar := by
  cases type <;> simp [isCharType]

/-- Strings that are not NULL compare by their bytes, whatever the operand. -/
lemma colCompare_string {type : ColDataType} (string : isCharType type = true)
    (val1 val2 : Int) (cop : CompareOp) (rf : Byte) (width : Width) {regex : Regex}
    (hun : regex.used = false) :
    colCompare val1 val2 cop rf type width regex false =
      if rf = 0 then colCompare_ (orderSwap val1) (orderSwap val2) cop
      else colStrCompare_ (orderSwap val1) (orderSwap val2) cop rf regex := by
  have kind := (isCharType_iff type).mp string
  have notFloat : ¬ (type = .float ∨ type = .double) := by
    rcases kind with rfl | rfl <;> decide
  by_cases nil : cop = .nil
  · subst nil
    simp [colCompare, colCompare_, colStrCompare_]
  · simp [colCompare, nil, notFloat, kind, hun]

def colCompareUnsigned (val1 val2 : Int) (cop : CompareOp) (rf : Byte) (type : ColDataType)
    (width : Width) (isNull : Bool) : Bool :=
  if cop = .nil then false
  else
    let val2Null := operandNull width type val2
    if isNull = val2Null ∨ (val2Null = true ∧ cop = .ne) then
      colCompareRounded_ (toU64 val1) (toU64 val2) cop rf
    else false

def isMinMaxValid (nvals : Nat) (dataType : ColDataType) (dataSize : Nat) : Bool :=
  if nvals ≠ 0 then false
  else
    match dataType with
    | .char => dataSize < 9
    | .varchar => dataSize < 8
    | .tinyint | .smallint | .int | .date | .bigint | .datetime => true
    | .utinyint | .usmallint | .uint | .ubigint => true
    | .decimal | .udecimal => dataSize ≤ 8
    | _ => false

/-- A filter as the scan holds it: an operator byte outside the enumeration compares false. -/
structure ParsedArg where
  cop : Option CompareOp
  rf : Byte
  val : Int
  regex : Regex

inductive ParsedColumnFilter where
  | twoArrays (args : List ParsedArg)
  | unorderedSet (prestoredSet : List Int)

section Parsing

variable (likes : Int → Nat → Bool) (ct : ColType)

/-- The filter at an offset of the filter string. `likes` is the compiled pattern of an operand. -/
def parseArg (filters : List Byte) (argIndex : Nat) : ParsedArg :=
  let args := filters.drop (argIndex * (ct.colWidth.bytes + 2))
  let cop := args.getD 0 0
  let val := cellValue ct.colDataType (operandAt ct.colWidth (args.drop 2))
  ⟨CompareOp.ofByte cop, args.getD 1 0, val,
    if cop &&& 0x10 ≠ 0 then ⟨true, likes val⟩ else placeholderRegex⟩

def parseArgs (filters : List Byte) (nops : Nat) : List ParsedArg :=
  (List.range nops).map (parseArg likes ct filters)

/-- A filter that rules out the set: the other operator, or the one that is never true. -/
def breaksSet (bop : Bop) (arg : ParsedArg) : Bool :=
  (bop = .or ∧ arg.cop ≠ some .eq) ∨ (bop = .and ∧ arg.cop ≠ some .ne) ∨ arg.cop = some .nil

def parseColumnFilter (filters : List Byte) (filterCount : Nat) (bop : Bop) :
    Option ParsedColumnFilter :=
  if filterCount = 0 then none
  else
    let args := parseArgs likes ct filters filterCount
    if filterCount ≠ 1 ∧ args.all (fun arg => !breaksSet bop arg) then
      some (.unorderedSet ((args.filter (fun arg => arg.rf = 0)).map ParsedArg.val))
    else some (.twoArrays args)

end Parsing

/-- The part of a request that the scan reads: what to output, how the filters combine, the
filters, and the row ids if the scan is confined to some rows. -/
structure ColRequest where
  outputRid : Bool
  bop : Bop
  nops : Nat
  filters : List Byte
  ridArray : List Nat
  sort : Bool

structure ColResult where
  validMinMax : Bool
  min : Int
  max : Int
  stored : List Nat

section Rows

variable (ct : ColType)

/-- The test of one row against one filter. -/
def rowCompare (val : Int) (isNull : Bool) (arg : ParsedArg) : Bool :=
  match arg.cop with
  | none => false
  | some cop =>
    if isUnsigned ct.colDataType then
      colCompareUnsigned val arg.val cop arg.rf ct.colDataType ct.colWidth isNull
    else colCompare val arg.val cop arg.rf ct.colDataType ct.colWidth arg.regex isNull

/-- The loop over the filters of a row: whether it stored the row, and whether it came to its
end without a `break`. -/
def scanArgs (bop : Bop) (nops : Nat) (cmp : ParsedArg → Bool) : List ParsedArg → Bool × Bool
  | [] => (false, true)
  | arg :: args =>
    if nops = 1 then (cmp arg, false)
    else if bop = .and ∧ cmp arg = false then (false, false)
    else if bop = .or ∧ cmp arg = true then (true, false)
    else scanArgs bop nops cmp args

def storesRow (bop : Bop) (nops : Nat) (filter : ParsedColumnFilter) (val : Int)
    (isNull : Bool) : Bool :=
  match filter with
  | .unorderedSet prestoredSet =>
    if isNull = true ∧ bop = .and then false
    else if bop = .or then decide (val ∈ prestoredSet)
    else if bop = .and then decide (val ∉ prestoredSet)
    else false
  | .twoArrays args =>
    let loop := scanArgs bop nops (rowCompare ct val isNull) args
    loop.1 || ((loop.2 && bop = .and) || nops = 0)

variable {ct} in
/-- The rows `nextColValue` hands out, with their cells. -/
def visited (rq : ColRequest) (block : List (Cell ct.colWidth)) : List (Nat × Cell ct.colWidth) :=
  let isEmpty := fun row : Nat × Cell ct.colWidth =>
    isEmptyVal ct.colWidth ct.colDataType row.2.toNat
  if rq.ridArray = [] then
    ((List.range block.length).zip block).filter (fun row => !(isEmpty row && rq.outputRid))
  else
    let rids := if rq.sort then rq.ridArray.mergeSort else rq.ridArray
    (rids.filterMap (fun rid => block[rid]?.map (rid, ·))).filter (fun row => !isEmpty row)

/-- The bounds before the first value. -/
def startRange (validMinMax : Bool) : Int × Int :=
  if validMinMax = true then
    if isUnsigned ct.colDataType then (toI64 (2 ^ 64 - 1), 0) else (int64Max, int64Min)
  else (0, 0)

/-- The bounds once a value has been met. -/
def widen (val : Int) (range : Int × Int) : Int × Int :=
  if (ct.colDataType = .char ∨ ct.colDataType = .varchar) ∧ 1 < ct.colWidth.bytes then
    (if colCompare range.1 val .gt 0 ct.colDataType ct.colWidth placeholderRegex false then val
      else range.1,
      if colCompare range.2 val .lt 0 ct.colDataType ct.colWidth placeholderRegex false then val
      else range.2)
  else if isUnsigned ct.colDataType then
    (if toU64 range.1 > toU64 val then toI64 (toU64 val) else range.1,
      if toU64 range.2 < toU64 val then toI64 (toU64 val) else range.2)
  else (if range.1 > val then val else range.1, if range.2 < val then val else range.2)

/-- One turn of the scan. -/
def scanRow (rq : ColRequest) (filter : ParsedColumnFilter) (result : ColResult)
    (row : Nat × Cell ct.colWidth) : ColResult :=
  let val := cellValue ct.colDataType row.2
  let isNull := isNullVal ct.colWidth ct.colDataType row.2.toNat
  let isEmpty := isEmptyVal ct.colWidth ct.colDataType row.2.toNat
  let stored := if storesRow ct rq.bop rq.nops filter val isNull then result.stored ++ [row.1]
    else result.stored
  let range := if result.validMinMax && !isNull && !isEmpty then
      widen ct val (result.min, result.max) else (result.min, result.max)
  ⟨result.validMinMax, range.1, range.2, stored⟩

variable (likes : Int → Nat → Bool)

/-- `p_Col` on a block. Without a filter parsed before, the message is parsed into arrays. -/
def pCol (rq : ColRequest) (parsedColumnFilter : Option ParsedColumnFilter)
    (block : List (Cell ct.colWidth)) : ColResult :=
  let validMinMax := isMinMaxValid rq.ridArray.length ct.colDataType ct.colWidth.bytes
  let filter := parsedColumnFilter.getD (.twoArrays (parseArgs likes ct rq.filters rq.nops))
  let range := startRange ct validMinMax
  (visited rq block).foldl (scanRow ct rq filter) ⟨validMinMax, range.1, range.2, []⟩

end Rows

end ColumnScan
