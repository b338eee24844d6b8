import EryDb.ScanRanges

/-!
# One filter against the range of a block

The planner rules a block out when no value of its range can satisfy the filter; the
scan tests each value. Both know a rounding flag, set when the constant of the query
did not fit the column and was cut off, but only the scan lets the flag turn an equal
value into a match. And a one-byte string is a signed number to the planner and to the
bounds, and a byte to the scan.
-/

namespace PruningTests

open List BrmTypes ColumnTypes FilterStrings LittleEndian CasualPruning ColumnScan ScanRanges

/-- A filter as the scan holds it once it is parsed. -/
def argOf (ct : ColType) (f : ColArgs ct.colWidth) : ParsedArg :=
  ⟨some f.cop, f.rf, cellValue ct.colDataType f.val, placeholderRegex⟩

/-- The test of a value that is not NULL. -/
def rowTest (ct : ColType) (v : Int) (f : ColArgs ct.colWidth) : Bool :=
  rowCompare ct v false (argOf ct f)

def roundingFlags : List Byte := [0, roundPos, roundNeg]

section Places

/-- Comparisons of numbers by their places, which are all the scan looks at. -/
lemma colCompareRounded_cast (a b : Nat) (cop : CompareOp) (rf : Byte) :
    colCompareRounded_ a b cop rf = colCompareRounded_ (a : Int) b cop rf := by
  cases cop <;> simp [colCompareRounded_, BEq.beq, bne]

variable {ct : ColType} {v : Int} {f : ColArgs ct.colWidth}

lemma rowTest_string (string : isCharType ct.colDataType = true) : rowTest ct v f = if f.rf = 0 then
        colCompare_ (orderSwap v) (orderSwap (cellValue ct.colDataType f.val)) f.cop
      else colStrCompare_ (orderSwap v) (orderSwap (cellValue ct.colDataType f.val)) f.cop f.rf
        placeholderRegex := by
  have signed : isUnsigned ct.colDataType = false := by
    rcases (isCharType_iff _).mp string with type | type <;> rw [type] <;> rfl
  simp only [rowTest, rowCompare, argOf, signed, Bool.false_eq_true, if_false]
  exact colCompare_string string _ _ _ _ _ rfl

/-- Whether the scan takes the operand for NULL. -/
def nullOperand (ct : ColType) (c : Cell ct.colWidth) : Bool :=
  operandNull ct.colWidth ct.colDataType (cellValue ct.colDataType c)

/-- The way out for a NULL operand, seen from a value that is not NULL. -/
lemma guarded (null : Bool) (cop : CompareOp) (verdict : Bool)
    (never : cop = .nil → verdict = false) :
    (if cop = .nil then false else if false = null ∨ (null = true ∧ cop = .ne) then verdict
      else false) = if null = true ∧ cop ≠ .ne then false else verdict := by
  by_cases nil : cop = .nil
  · simp [nil, never nil]
  · cases null <;> by_cases ne : cop = .ne <;> simp [nil, ne]

lemma rowTest_number (number : isCharType ct.colDataType = false)
    (exact : ct.colDataType ≠ .float ∧ ct.colDataType ≠ .double) :
    rowTest ct v f =
      if nullOperand ct f.val = true ∧ f.cop ≠ .ne then false
      else colCompareRounded_ (rank ct.colDataType v)
        (rank ct.colDataType (cellValue ct.colDataType f.val)) f.cop f.rf := by
  have notString : ¬ (ct.colDataType = .char ∨ ct.colDataType = .varchar) := by
    rw [← isCharType_iff, number]
    decide
  unfold nullOperand
  cases unsigned : isUnsigned ct.colDataType with
  | true =>
    simp only [rowTest, rowCompare, argOf, unsigned, if_true, colCompareUnsigned, rank, number,
      Bool.false_eq_true, if_false, ← colCompareRounded_cast]
    exact guarded _ _ _ fun nil => by rw [nil]; rfl
  | false =>
    simp only [rowTest, rowCompare, argOf, unsigned, Bool.false_eq_true, if_false, colCompare,
      rank, number, exact.1, exact.2, or_self, and_false, notString, false_and]
    exact guarded _ _ _ fun nil => by rw [nil]; rfl

end Places

lemma orderSwap_byte {x : Int} (low : -128 ≤ x) (high : x < 128) :
    (orderSwap x : Int) = if 0 ≤ x then x * 2 ^ 56 else (x + 257) * 2 ^ 56 - 1 := by
  unfold orderSwap
  rw [uint64ToStr_eq]
  unfold toU64
  split <;> omega

lemma orderSwap_byte_lt {x y : Int} (lowX : -128 ≤ x) (highX : x < 128) (lowY : -128 ≤ y)
    (highY : y < 128) : (orderSwap x < orderSwap y ↔ (0 ≤ x ∧ y < 0) ∨ ((0 ≤ x ↔ 0 ≤ y) ∧ x < y)) ∧
      (orderSwap x = orderSwap y ↔ x = y) := by
  have swapX := orderSwap_byte lowX highX
  have swapY := orderSwap_byte lowY highY
  split at swapX <;> split at swapY <;> omega

section Slips

/-- A one-byte string the scan lets pass although the planner has ruled the block out. -/
def ByteSlip (op : CompareOp) (rf : Byte) (min max x a : Int) : Prop :=
  match op with
  | .lt => x ≤ min ∧ ((x < 0 ∧ 0 ≤ a) ∨ (rf ≠ 0 ∧ a = x))
  | .le => x < min ∧ x < 0 ∧ 0 ≤ a
  | .gt => max ≤ x ∧ a < 0 ∧ 0 ≤ x
  | .ge => max < x ∧ a < 0 ∧ 0 ≤ x
  | _ => False

variable {op : CompareOp} {rf : Byte} (comparison : op ∈ CompareOp.comparisons)
  (flag : rf ∈ roundingFlags)
include comparison flag

lemma test_cases : (op = .lt ∨ op = .le ∨ op = .eq ∨ op = .ge ∨ op = .gt ∨ op = .ne) ∧
    (rf = 0 ∨ rf = roundPos ∨ rf = roundNeg) :=
  ⟨by simpa [CompareOp.comparisons] using comparison, by simpa [roundingFlags] using flag⟩

lemma number_slips {min max x a : Int} (low : min ≤ a) (high : a ≤ max) :
    (compareVal min max x (some op) rf = false ∧ colCompareRounded_ a x op rf = true) ↔
      (op = .lt ∧ rf = roundPos ∧ x = min ∧ a = x) ∨
        (op = .gt ∧ rf = roundNeg ∧ x = max ∧ a = x) := by
  obtain ⟨rfl | rfl | rfl | rfl | rfl | rfl, rfl | rfl | rfl⟩ := test_cases comparison flag <;>
  simp [compareVal, colCompareRounded_, roundPos, roundNeg] <;> omega

lemma string_slips {min max x a : Nat} (low : min ≤ a) (high : a ≤ max) :
    (compareVal min max x (some op) rf = false ∧
      (if rf = 0 then colCompare_ a x op else colStrCompare_ a x op rf placeholderRegex) = true) ↔
      op = .lt ∧ rf ≠ 0 ∧ x = min ∧ a = x := by
  obtain ⟨rfl | rfl | rfl | rfl | rfl | rfl, rfl | rfl | rfl⟩ := test_cases comparison flag <;>
  simp [compareVal, colCompare_, colStrCompare_, roundPos, roundNeg] <;> omega

lemma byte_slips {min max x a : Int} (low : min ≤ a) (high : a ≤ max)
    (lowA : -128 ≤ a) (highA : a < 128) (lowX : -128 ≤ x) (highX : x < 128) :
    (compareVal min max x (some op) rf = false ∧
      (if rf = 0 then colCompare_ (orderSwap a) (orderSwap x) op
        else colStrCompare_ (orderSwap a) (orderSwap x) op rf placeholderRegex) = true) ↔
      ByteSlip op rf min max x a := by
  obtain ⟨hb, he⟩ := orderSwap_byte_lt lowA highA lowX highX
  obtain ⟨ha, -⟩ := orderSwap_byte_lt lowX highX lowA highA
  obtain ⟨rfl | rfl | rfl | rfl | rfl | rfl, rfl | rfl | rfl⟩ := test_cases comparison flag <;>
  simp [compareVal, colCompare_, colStrCompare_, roundPos, roundNeg, ByteSlip] <;> omega

end Slips

section Cells

variable (ct : ColType)

lemma nullOperand_eq (c : Cell ct.colWidth) :
    nullOperand ct c = isNullVal ct.colWidth ct.colDataType c.toNat := by
  unfold nullOperand operandNull
  rw [toU64_cellValue]

/-- Values of a column with the same place in its order are the same cell. -/
lemma rank_injective {c d : Cell ct.colWidth}
    (he : rank ct.colDataType (cellValue ct.colDataType c) =
      rank ct.colDataType (cellValue ct.colDataType d)) : c = d := by
  have word : toU64 (cellValue ct.colDataType c) = toU64 (cellValue ct.colDataType d) := by
    unfold rank at he
    cases string : isCharType ct.colDataType <;> cases unsigned : isUnsigned ct.colDataType <;>
      simp only [string, unsigned, if_true, Bool.false_eq_true, if_false, Nat.cast_inj] at he
    · rw [he]
    · exact he
    all_goals exact uint64ToStr_injective (toU64_lt _) (toU64_lt _) he
  apply BitVec.eq_of_toNat_eq
  rw [← toU64_cellValue ct.colDataType c, ← toU64_cellValue ct.colDataType d, word]

lemma byte_bounds (type : ColDataType) (string : isCharType type = true) {w : Width}
    (narrow : w.bytes = 1) (c : Cell w) :
    -128 ≤ cellValue type c ∧ cellValue type c < 128 := by
  have signed : isUnsigned type = false := by
    rcases (isCharType_iff _).mp string with rfl | rfl <;> rfl
  have bound := cell_lt c
  have kinds := toInt_cases c
  have hwh : 256 ^ w.bytes = 256 := by rw [narrow, pow_one]
  rw [hwh] at bound kinds
  unfold cellValue
  rw [signed]
  simp only [Bool.false_eq_true, if_false]
  omega

/-- A value of the block that passes the filter although the planner rules its range out: the
operand equals the bound it is tested against and a rounding flag makes equality a match, or the
column is a one-byte string and the value lies on the other side of `0x80` than the operand. -/
def Slips (f : ColArgs ct.colWidth) (min max v : Int) : Prop :=
  if isCharType ct.colDataType then
    if ct.colWidth.bytes = 1 then
      ByteSlip f.cop f.rf min max (cellValue ct.colDataType f.val) v
    else
      f.cop = .lt ∧ f.rf ≠ 0 ∧ orderSwap (cellValue ct.colDataType f.val) = orderSwap min ∧
        orderSwap v = orderSwap (cellValue ct.colDataType f.val)
  else
    (f.cop = .lt ∧ f.rf = roundPos ∧
      rank ct.colDataType (cellValue ct.colDataType f.val) = rank ct.colDataType min ∧
      rank ct.colDataType v = rank ct.colDataType (cellValue ct.colDataType f.val)) ∨
    (f.cop = .gt ∧ f.rf = roundNeg ∧
      rank ct.colDataType (cellValue ct.colDataType f.val) = rank ct.colDataType max ∧
      rank ct.colDataType v = rank ct.colDataType (cellValue ct.colDataType f.val))

variable {ct} {f : ColArgs ct.colWidth} (comparison : f.cop ∈ CompareOp.comparisons)
  (flag : f.rf ∈ roundingFlags) {min max : Int} {c : Cell ct.colWidth}
  (low : pruneRank ct min ≤ pruneRank ct (cellValue ct.colDataType c))
  (high : pruneRank ct (cellValue ct.colDataType c) ≤ pruneRank ct max)
include comparison flag low high

lemma slips_string (string : isCharType ct.colDataType = true) :
    (compareBounds ct min max (cellValue ct.colDataType f.val) (some f.cop) f.rf = false ∧
      rowTest ct (cellValue ct.colDataType c) f = true) ↔
      Slips ct f min max (cellValue ct.colDataType c) := by
  have signed : isUnsigned ct.colDataType = false := by
    rcases (isCharType_iff _).mp string with type | type <;> rw [type] <;> rfl
  rw [rowTest_string string]
  by_cases narrow : ct.colWidth.bytes = 1
  · have place : ∀ x, pruneRank ct x = x := fun x => by
      simp [pruneRank, signed, narrow]
    rw [place, place] at low high
    obtain ⟨lowC, highC⟩ := byte_bounds ct.colDataType string narrow c
    obtain ⟨lowF, highF⟩ := byte_bounds ct.colDataType string narrow f.val
    simp only [Slips, string, narrow, if_true, compareBounds, lt_irrefl, and_false,
      if_false, signed,
      Bool.false_eq_true]
    exact byte_slips comparison flag low high lowC highC lowF highF
  · have wide : 1 < ct.colWidth.bytes := by
      have := ct.colWidth.bytes_pos
      omega
    have place : ∀ x, pruneRank ct x = orderSwap x := fun x => by simp [pruneRank, string, wide]
    rw [place, place, Nat.cast_le] at low high
    simp only [Slips, string, narrow, if_true, if_false, compareBounds, wide, and_self]
    exact string_slips comparison flag low high

lemma slips_number (number : isCharType ct.colDataType = false)
    (exact : ct.colDataType ≠ .float ∧ ct.colDataType ≠ .double) (counted : counts ct c = true) :
    (compareBounds ct min max (cellValue ct.colDataType f.val) (some f.cop) f.rf = false ∧
      rowTest ct (cellValue ct.colDataType c) f = true) ↔
      Slips ct f min max (cellValue ct.colDataType c) := by
  have place : ∀ x, pruneRank ct x = rank ct.colDataType x :=
    pruneRank_eq_rank ct (fun string => by rw [number] at string; cases string)
  rw [place, place] at low high
  rw [rowTest_number number exact, compareBounds_eq, place, place, place]
  simp only [Slips, number, Bool.false_eq_true, if_false]
  rw [← number_slips comparison flag low high]
  split_ifs with null
  · -- the operand is a pattern of NULL, which no value of the block has
    rw [number_slips comparison flag low high]
    have hap : rank ct.colDataType (cellValue ct.colDataType c) ≠
        rank ct.colDataType (cellValue ct.colDataType f.val) := by
      intro he
      have heq := rank_injective ct he
      rw [nullOperand_eq, ← heq] at null
      simp [counts, null.1] at counted
    simp [hap]
  · rfl

end Cells

/-- For every column whose bounds `p_Col` captures, every block and every single filter: a block
the planner rules out holds no value that passes, exactly when none of its values slips through. -/
theorem pruned_block_iff (ct : ColType) (likes : Int → Nat → Bool) (rq : ColRequest)
    (parsed : Option ParsedColumnFilter) (block : List (Cell ct.colWidth))
    (valid : (pCol ct likes rq parsed block).validMinMax = true) (f : ColArgs ct.colWidth)
    (comparison : f.cop ∈ CompareOp.comparisons) (flag : f.rf ∈ roundingFlags) :
    (compareBounds ct (pCol ct likes rq parsed block).min (pCol ct likes rq parsed block).max
        (cellValue ct.colDataType f.val) (some f.cop) f.rf = false →
      ∀ v ∈ values ct block, rowTest ct v f = false) ↔
    ∀ v ∈ values ct block, ¬ Slips ct f (pCol ct likes rq parsed block).min
      (pCol ct likes rq parsed block).max v := by
  have captured : isMinMaxValid rq.ridArray.length ct.colDataType ct.colWidth.bytes = true := by
    rwa [pCol_validMinMax] at valid
  have all : rq.ridArray = [] := by
    by_contra some
    simp [isMinMaxValid, some] at captured
  rw [all, length_nil] at captured
  have exact : ct.colDataType ≠ .float ∧ ct.colDataType ≠ .double := by
    constructor <;> intro type <;> rw [type] at captured <;> cases captured
  have reaches := (pCol_reaches likes parsed all captured block).2
  have each : ∀ v ∈ values ct block,
      ((compareBounds ct (pCol ct likes rq parsed block).min (pCol ct likes rq parsed block).max
        (cellValue ct.colDataType f.val) (some f.cop) f.rf = false ∧ rowTest ct v f = true) ↔
      Slips ct f (pCol ct likes rq parsed block).min (pCol ct likes rq parsed block).max v) := by
    intro v member
    obtain ⟨low, high⟩ := reaches.covers v member
    obtain ⟨c, inBlock, rfl⟩ := mem_map.mp member
    cases string : isCharType ct.colDataType with
    | true => exact slips_string comparison flag low high string
    | false =>
      exact slips_number comparison flag low high string exact (mem_filter.mp inBlock).2
  constructor
  · intro sound v member slips
    obtain ⟨out, passes⟩ := (each v member).mpr slips
    rw [sound out v member] at passes
    cases passes
  · intro none out v member
    by_contra passes
    exact none v member ((each v member).mp ⟨out, by simpa using passes⟩)

/-- A block with the single value 7 against `< 3`: it is ruled out, and 7 does not pass. -/
theorem pruned_block_iff_bigint :
    compareBounds bigintColumn (pCol bigintColumn (fun _ _ => false) plainScan none [7#64]).min
        (pCol bigintColumn (fun _ _ => false) plainScan none [7#64]).max 3 (some .lt) 0 = false ∧
      rowTest bigintColumn 7 ⟨.lt, 0, 3#64⟩ = false := by
  have out : compareBounds bigintColumn
      (pCol bigintColumn (fun _ _ => false) plainScan none [7#64]).min
      (pCol bigintColumn (fun _ _ => false) plainScan none [7#64]).max 3 (some .lt) 0 = false := by
    decide +kernel
  refine ⟨out, ?_⟩
  have safe := (pruned_block_iff bigintColumn (fun _ _ => false) plainScan none [7#64]
    (by decide +kernel) ⟨.lt, 0, 3#64⟩ (by decide) (by decide)).mpr
  refine safe ?_ out 7 (by decide +kernel)
  intro v _ slips
  simp [Slips, bigintColumn, isCharType, roundPos] at slips

def intColumn : ColType := ⟨.int, .four, by decide⟩

def flagColumn : ColType := ⟨.char, .one, by decide⟩

/-- The filter `< 5` with the flag of a constant that was cut down to 5, on a block of a single 5;
and the filter `> 'a'` on a block of a one-byte string column that holds the byte `0xE9`. Both
blocks are ruled out, and both hold a value that passes. -/
theorem pruned_block_matches :
    (compareBounds intColumn (pCol intColumn (fun _ _ => false) plainScan none [5#32]).min
        (pCol intColumn (fun _ _ => false) plainScan none [5#32]).max 5 (some .lt) roundPos =
          false ∧
      (5 : Int) ∈ values intColumn [5#32] ∧
      rowTest intColumn 5 ⟨.lt, roundPos, 5#32⟩ = true) ∧
    (compareBounds flagColumn (pCol flagColumn (fun _ _ => false) plainScan none [0xE9#8]).min
        (pCol flagColumn (fun _ _ => false) plainScan none [0xE9#8]).max 97 (some .gt) 0 = false ∧
      (-23 : Int) ∈ values flagColumn [0xE9#8] ∧
      rowTest flagColumn (-23) ⟨.gt, 0, 97#8⟩ = true) := by
  decide +kernel

end PruningTests
