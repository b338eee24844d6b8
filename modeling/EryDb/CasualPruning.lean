import EryDb.CasualPartitions
import EryDb.FilterStrings

/-!
# The order in which a scan is pruned

A query skips an extent when the range of the extent cannot satisfy the filters.
The bounds are sixty-four bit words whatever the column holds: strings are compared
as the bytes stand in memory, from the first to the last, which on the numbers is an
unsigned comparison after `order_swap`; unsigned columns compare as unsigned words
and all others as signed ones.
-/

namespace CasualPruning

open List BrmTypes CasualPartitions ColumnTypes FilterStrings LittleEndian

variable (ct : ColType) (n : Nat)

lemma uint64ToStr_eq :
    uint64ToStr n = n % 256 * 2 ^ 56 + n / 256 % 256 * 2 ^ 48 + n / 256 ^ 2 % 256 * 2 ^ 40 +
      n / 256 ^ 3 % 256 * 2 ^ 32 + n / 256 ^ 4 % 256 * 2 ^ 24 + n / 256 ^ 5 % 256 * 2 ^ 16 +
      n / 256 ^ 6 % 256 * 2 ^ 8 + n / 256 ^ 7 % 256 := by
  simp only [uint64ToStr, range_succ, range_zero, nil_append, foldl_append, foldl_cons, foldl_nil]
  omega

lemma uint64ToStr_lt : uint64ToStr n < 2 ^ 64 := by
  rw [uint64ToStr_eq]
  omega

/-- The first byte of a string decides the sign of the swapped word. -/
lemma uint64ToStr_high : 2 ^ 63 ≤ uint64ToStr n ↔ 128 ≤ n % 256 := by
  rw [uint64ToStr_eq]
  omega

lemma uint64ToStr_reverse : uint64ToStr n = LittleEndian.read (write 8 n).reverse := by
  rw [uint64ToStr_eq]
  simp only [write, Nat.div_div_eq_div_mul, reverse_cons, reverse_nil, nil_append,
    cons_append, LittleEndian.read]
  ring_nf

lemma uint64ToStr_injective {a b : Nat} (wordA : a < 2 ^ 64) (wordB : b < 2 ^ 64)
    (he : uint64ToStr a = uint64ToStr b) : a = b := by
  rw [uint64ToStr_reverse, uint64ToStr_reverse] at he
  have bytes := reverse_injective (read_injective (by simp) he)
  have hwh : LittleEndian.read (write 8 a) = a := read_write (by omega)
  rw [← hwh, bytes, read_write (by omega)]

/-- `order_swap`, which both the planner and the scan write as shifts and masks. -/
def orderSwap (x : Int) : Nat := uint64ToStr (toU64 x)

/-- The place of a bound or value in the order of its type. -/
def rank (type : ColDataType) (x : Int) : Int :=
  if isCharType type then orderSwap x else if isUnsigned type then toU64 x else x

def checkSingleValue (min max value : Int) (type : ColDataType) : Bool :=
  if isCharType type then
    decide (orderSwap value ≥ orderSwap min ∧ orderSwap value ≤ orderSwap max)
  else if isUnsigned type then decide (toU64 value ≥ toU64 min ∧ toU64 value ≤ toU64 max)
  else decide (value ≥ min ∧ value ≤ max)

lemma checkSingleValue_iff (min max value : Int) (type : ColDataType) :
    checkSingleValue min max value type = true ↔
      rank type min ≤ rank type value ∧ rank type value ≤ rank type max := by
  unfold checkSingleValue rank
  split
  · simp
  · split <;> simp

/-- Whether a range may hold a value that satisfies one filter; an unknown operator never
rules a range out. -/
def compareVal {T : Type} [LinearOrder T] (min max value : T) (op : Option CompareOp)
    (lcf : Byte) : Bool :=
  match op with
  | some .lt | some .nge => !decide (value ≤ min)
  | some .le | some .ngt => !decide (value < min)
  | some .gt | some .nle => !decide (value ≥ max)
  | some .ge | some .nlt => !decide (value > max)
  | some .eq => !decide (value < min ∨ value > max ∨ lcf > 0)
  | some .ne => !decide (value = min ∧ value = max ∧ lcf = 0)
  | _ => true

/-- `compareVal` at the type the predicate calls it with. A one-byte string is compared as a
signed number. -/
def compareBounds (ct : ColType) (min max value : Int) (op : Option CompareOp) (lcf : Byte) :
    Bool :=
  if isCharType ct.colDataType ∧ 1 < ct.colWidth.bytes then
    compareVal (orderSwap min) (orderSwap max) (orderSwap value) op lcf
  else if isUnsigned ct.colDataType then
    compareVal (toU64 min) (toU64 max) (toU64 value) op lcf
  else compareVal min max value op lcf

/-- The loop of the predicate, with the filters left, the bytes counted so far, the cursor and
the verdict of the last filter. A NULL operand leaves the cursor on the operand. -/
def predicateLoop (ct : ColType) (min max : Int) (length : Nat) (bop : Bop) :
    Nat → Nat → List Byte → Bool → Bool
  | 0, _, _, scan => scan
  | n + 1, pos, ptr, _ =>
    let pos := pos + (ct.colWidth.bytes + 2)
    if pos > length then true
    else
      let op := CompareOp.ofByte (ptr.getD 0 0)
      let lcf := ptr.getD 1 0
      let ptr := ptr.drop 2
      let value := cellValue ct.colDataType (operandAt ct.colWidth ptr)
      if isNull value ct then predicateLoop ct min max length bop n pos ptr true
      else
        let scan := compareBounds ct min max value op lcf
        if (bop = .and ∧ scan = false) ∨ (bop = .or ∧ scan = true) then scan
        else predicateLoop ct min max length bop n pos (ptr.drop ct.colWidth.bytes) scan

def casualPartitionPredicate (min max : Int) (bs : List Byte) (nops : Nat) (ct : ColType)
    (bop : Bop) : Bool :=
  predicateLoop ct min max bs.length bop nops 0 bs true

/-- The range of an extent that is being scanned for want of one. -/
structure MinMaxPartition where
  lbid : Int
  lbidmax : Int
  seq : Int
  min : Int
  max : Int
  isValid : CPState
  blksScanned : Nat

/-- The entry `GetMinMax` adds for an extent without a valid range. -/
def newPartition (type : ColDataType) (lbid lbidmax seq : Int) (isValid : CPState) :
    MinMaxPartition :=
  if isUnsigned type then ⟨lbid, lbidmax, seq, toI64 (2 ^ 64 - 1), 0, isValid, 0⟩
  else ⟨lbid, lbidmax, seq, int64Max, int64Min, isValid, 0⟩

/-- One block's bounds folded into a partition. Invalid data marks the extent as updating. -/
def updatePartition (min max : Int) (type : ColDataType) (validData : Bool)
    (mmp : MinMaxPartition) : MinMaxPartition :=
  let mmp := { mmp with blksScanned := mmp.blksScanned + 1 }
  if validData = false then { mmp with isValid := .updating }
  else if mmp.isValid = .invalid then
    if isCharType type then
      { mmp with
        min := if orderSwap min < orderSwap mmp.min ∨ mmp.min = int64Max then min else mmp.min
        max := if orderSwap max > orderSwap mmp.max ∨ mmp.max = int64Min then max else mmp.max }
    else if isUnsigned type then
      { mmp with
        min := if toU64 min < toU64 mmp.min then min else mmp.min
        max := if toU64 max > toU64 mmp.max then max else mmp.max }
    else
      { mmp with
        min := if min < mmp.min then min else mmp.min
        max := if max > mmp.max then max else mmp.max }
  else mmp

/-- `UpdateMinMax` on the partition vector: the first partition that holds the LBID. -/
def updateMinMax (min max lbid : Int) (type : ColDataType) (validData : Bool) :
    List MinMaxPartition → List MinMaxPartition
  | [] => []
  | mmp :: partitions =>
    if mmp.lbid ≤ lbid ∧ lbid < mmp.lbidmax then
      updatePartition min max type validData mmp :: partitions
    else mmp :: updateMinMax min max lbid type validData partitions

/-- The place of a bound or value in the order the predicate uses for a column. -/
def pruneRank (ct : ColType) (x : Int) : Int :=
  if isCharType ct.colDataType ∧ 1 < ct.colWidth.bytes then orderSwap x
  else if isUnsigned ct.colDataType then toU64 x else x

lemma compareVal_cast (min max value : Nat) (op : Option CompareOp) (lcf : Byte) :
    compareVal min max value op lcf = compareVal (min : Int) max value op lcf := by
  rcases op with _ | op
  · rfl
  · cases op <;> simp [compareVal]

lemma compareBounds_eq (min max value : Int) (op : Option CompareOp) (lcf : Byte) :
    compareBounds ct min max value op lcf =
      compareVal (pruneRank ct min) (pruneRank ct max) (pruneRank ct value) op lcf := by
  unfold compareBounds pruneRank
  split
  · exact compareVal_cast ..
  · split
    · exact compareVal_cast ..
    · rfl

lemma pruneRank_eq_rank (wide : isCharType ct.colDataType = true → 1 < ct.colWidth.bytes)
    (x : Int) : pruneRank ct x = rank ct.colDataType x := by
  unfold pruneRank rank
  by_cases string : isCharType ct.colDataType = true
  · simp [string, wide string]
  · simp [string]

end CasualPruning
