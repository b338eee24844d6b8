import EryDb.PruningCursor

/-!
# Extent elimination against the scan

An extent is skipped when the planner's predicate rules its range out. That is safe when
the scan, run on any block covered by the range with the same filters, would store no
row. The scan combines the tests of a row by its loop over the filters, or looks the
value up in a set; both come down to "all filters" or "some filter". Whether skipping is
safe depends on where NULL operands stand among the filters, because the planner misreads
the filters behind one.
-/

namespace PruningSafety

open List BrmTypes ColumnTypes FilterStrings LittleEndian CasualPruning ColumnScan ScanRanges
open PruningTests PruningCursor

section Parsing

variable (likes : Int → Nat → Bool) {ct : ColType}

lemma drop_filterString (filters : List (ColArgs ct.colWidth)) (i : Nat) :
    (filterString filters).drop (i * (ct.colWidth.bytes + 2)) = filterString (filters.drop i) := by
  induction i generalizing filters with
  | zero => simp
  | succ i ih =>
    rcases filters with _ | ⟨f, filters⟩
    · simp [filterString]
    · rw [Nat.add_mul, Nat.one_mul, Nat.add_comm, ← drop_drop, filterString_cons,
        drop_left' (length_bytes f), ih, drop_succ_cons]

/-- A scan finds each filter where it was written. -/
lemma parseArgs_filterString {filters : List (ColArgs ct.colWidth)}
    (comparison : ∀ f ∈ filters, f.cop ∈ CompareOp.comparisons) :
    parseArgs likes ct (filterString filters) filters.length = filters.map (argOf ct) := by
  apply ext_getElem
  · simp [parseArgs]
  intro i bound _
  have hi : i < filters.length := by simpa [parseArgs] using bound
  have hpl : ∀ cop ∈ CompareOp.comparisons, ¬ (cop.code &&& 0x10 ≠ (0 : Byte)) := by decide
  have hm := comparison _ (getElem_mem hi)
  simp only [parseArgs, getElem_map, getElem_range, parseArg, drop_filterString,
    drop_eq_getElem_cons hi, filterString_cons, ColArgs.bytes, cons_append,
    getD_cons_zero, getD_cons_succ, drop_succ_cons, drop_zero,
    operandAt_write, CompareOp.ofByte_code, argOf, hpl _ hm, if_false]

end Parsing

section Rows

variable {ct : ColType}

/-- The test of a cell, NULL or not, against one filter. -/
def cellTest (c : Cell ct.colWidth) (f : ColArgs ct.colWidth) : Bool :=
  rowCompare ct (cellValue ct.colDataType c) (isNullVal ct.colWidth ct.colDataType c.toNat)
    (argOf ct f)

/-- How the filters of a row combine. -/
def combined (bop : Bop) (tests : List Bool) : Bool :=
  if tests = [] then true else if bop = .and then tests.all id else bop = .or && tests.any id

lemma scanArgs_and {nops : Nat} (many : nops ≠ 1) (cmp : ParsedArg → Bool)
    (args : List ParsedArg) : scanArgs .and nops cmp args = (false, args.all cmp) := by
  induction args with
  | nil => rfl
  | cons arg args ih =>
    rw [scanArgs, if_neg many, ih]
    cases out : cmp arg <;> simp [out]

lemma scanArgs_or {nops : Nat} (many : nops ≠ 1) (cmp : ParsedArg → Bool)
    (args : List ParsedArg) : (scanArgs .or nops cmp args).1 = args.any cmp := by
  induction args with
  | nil => rfl
  | cons arg args ih =>
    rw [scanArgs, if_neg many]
    cases out : cmp arg <;> simp [out, ih]

lemma storesRow_arrays {bop : Bop} (combines : bop = .and ∨ bop = .or)
    (args : List ParsedArg) (val : Int) (isNull : Bool) :
    storesRow ct bop args.length (.twoArrays args) val isNull =
      combined bop (args.map (rowCompare ct val isNull)) := by
  rcases args with _ | ⟨arg, _ | ⟨arg', args⟩⟩
  iterate 2 · rcases combines with rfl | rfl <;> simp [storesRow, scanArgs, combined]
  have many : (arg :: arg' :: args).length ≠ 1 := by simp
  rcases combines with rfl | rfl
  · simp only [storesRow, scanArgs_and many]
    simp [combined]
  · simp only [storesRow, scanArgs_or many]
    simp [combined]

section Cells

variable (exact : ct.colDataType ≠ .float ∧ ct.colDataType ≠ .double)

/-- A value as the test of a NULL row compares it. -/
def word (ct : ColType) (x : Int) : Int := if isUnsigned ct.colDataType then toU64 x else x

variable {c : Cell ct.colWidth}

lemma word_injective {d : Cell ct.colWidth}
    (he : word ct (cellValue ct.colDataType c) = word ct (cellValue ct.colDataType d)) : c = d := by
  have bits : toU64 (cellValue ct.colDataType c) = toU64 (cellValue ct.colDataType d) := by
    unfold word at he
    split at he
    · exact_mod_cast he
    · rw [he]
  apply BitVec.eq_of_toNat_eq
  rw [← toU64_cellValue ct.colDataType c, ← toU64_cellValue ct.colDataType d, bits]

lemma cellTest_value (value : isNullVal ct.colWidth ct.colDataType c.toNat = false)
    (f : ColArgs ct.colWidth) : cellTest c f = rowTest ct (cellValue ct.colDataType c) f := by
  rw [cellTest, value, rowTest]

variable {f : ColArgs ct.colWidth}

/-- A NULL row passes only filters whose operand the scan takes for NULL, and those by a plain
comparison of the patterns. -/
lemma cellTest_null (null : isNullVal ct.colWidth ct.colDataType c.toNat = true)
    (op : f.cop ≠ .nil) : cellTest c f = if nullOperand ct f.val then
        colCompareRounded_ (word ct (cellValue ct.colDataType c))
          (word ct (cellValue ct.colDataType f.val)) f.cop f.rf
      else false := by
  unfold cellTest rowCompare argOf word nullOperand
  rw [null]
  cases unsigned : isUnsigned ct.colDataType with
  | true =>
    simp only [if_true, colCompareUnsigned, op, if_false, ← colCompareRounded_cast]
    cases operandNull ct.colWidth ct.colDataType (cellValue ct.colDataType f.val) <;> simp
  | false =>
    simp only [Bool.false_eq_true, if_false, colCompare, op, reduceCtorEq, false_and, and_false]
    cases operandNull ct.colWidth ct.colDataType (cellValue ct.colDataType f.val) <;> simp

include exact

lemma cellTest_eq_self (op : f.cop = .eq) (hpl : f.rf = 0) : cellTest f.val f = true := by
  cases null : isNullVal ct.colWidth ct.colDataType f.val.toNat with
  | true =>
    rw [cellTest_null null (by rw [op]; decide), nullOperand_eq, null, op, hpl]
    simp [colCompareRounded_]
  | false =>
    rw [cellTest_value null]
    cases string : isCharType ct.colDataType with
    | true =>
      rw [rowTest_string string, if_pos hpl, op]
      simp [colCompare_]
    | false =>
      rw [rowTest_number string exact, nullOperand_eq, null, op, hpl]
      simp [colCompareRounded_]

lemma cellTest_ne (op : f.cop = .ne) (hpl : f.rf = 0) (hap : c ≠ f.val)
    (alike : isNullVal ct.colWidth ct.colDataType c.toNat = false ∨
      isNullVal ct.colWidth ct.colDataType f.val.toNat = true) : cellTest c f = true := by
  cases null : isNullVal ct.colWidth ct.colDataType c.toNat with
  | true =>
    have operand := alike.resolve_left (by rw [null]; decide)
    have words : word ct (cellValue ct.colDataType c) ≠
        word ct (cellValue ct.colDataType f.val) := fun he => hap (word_injective he)
    rw [cellTest_null null (by rw [op]; decide), nullOperand_eq, operand, op, hpl]
    simp [colCompareRounded_, words]
  | false =>
    have places : rank ct.colDataType (cellValue ct.colDataType c) ≠
        rank ct.colDataType (cellValue ct.colDataType f.val) :=
      fun he => hap (rank_injective ct he)
    rw [cellTest_value null]
    cases string : isCharType ct.colDataType with
    | true =>
      rw [rowTest_string string, if_pos hpl, op]
      simp only [rank, string, if_true, ne_eq, Nat.cast_inj] at places
      simp [colCompare_, places]
    | false =>
      rw [rowTest_number string exact, op, hpl]
      simp [colCompareRounded_, places]

end Cells

end Rows

lemma comparison_ne_nil : ∀ cop ∈ CompareOp.comparisons, cop ≠ .nil := by
  decide

/-- A filter list of comparisons with nothing rounded. -/
def Plain {ct : ColType} (filters : List (ColArgs ct.colWidth)) : Prop :=
  ∀ f ∈ filters, f.cop ∈ CompareOp.comparisons ∧ f.rf = 0

section Scan

variable {ct : ColType} (likes : Int → Nat → Bool) {bop : Bop}
  {filters : List (ColArgs ct.colWidth)}

/-- The filter the scan works with: that of the message, or the one parsed beforehand. -/
def scanFilter (likes : Int → Nat → Bool) (filters : List (ColArgs ct.colWidth))
    (parsed : Option ParsedColumnFilter) : ParsedColumnFilter :=
  parsed.getD (.twoArrays (parseArgs likes ct (filterString filters) filters.length))

lemma storesRow_message (combines : bop = .and ∨ bop = .or)
    (comparison : ∀ f ∈ filters, f.cop ∈ CompareOp.comparisons) (c : Cell ct.colWidth) :
    storesRow ct bop filters.length
        (.twoArrays (parseArgs likes ct (filterString filters) filters.length))
        (cellValue ct.colDataType c) (isNullVal ct.colWidth ct.colDataType c.toNat) =
      combined bop (filters.map (cellTest c)) := by
  rw [parseArgs_filterString likes comparison, ← length_map (argOf ct),
    storesRow_arrays combines, map_map]
  rfl

variable (exact : ct.colDataType ≠ .float ∧ ct.colDataType ≠ .double)
include exact

/-- The set stores no row that the loop over the filters would not store. -/
lemma storesRow_set (combines : bop = .and ∨ bop = .or) (hpl : Plain filters)
    (uniform : ∀ f ∈ filters, breaksSet bop (argOf ct f) = false) {c : Cell ct.colWidth}
    (hsto : storesRow ct bop filters.length
      (.unorderedSet (filters.map (fun f => cellValue ct.colDataType f.val)))
      (cellValue ct.colDataType c) (isNullVal ct.colWidth ct.colDataType c.toNat) = true) :
    combined bop (filters.map (cellTest c)) = true := by
  rcases combines with rfl | rfl
  · have value : isNullVal ct.colWidth ct.colDataType c.toNat = false := by
      by_contra null
      simp [storesRow, null] at hsto
    have hout : ∀ f ∈ filters, c ≠ f.val := by
      simp only [storesRow, value, Bool.false_eq_true, false_and, if_false, reduceCtorEq, if_true,
        decide_eq_true_eq, mem_map, not_exists, not_and] at hsto
      exact fun f hm he => hsto f hm (by rw [he])
    have hpa : ∀ f ∈ filters, cellTest c f = true := by
      intro f hm
      have op : f.cop = .ne ∧ f.cop ≠ .nil := by
        simpa [breaksSet, argOf] using uniform f hm
      exact cellTest_ne exact op.1 (hpl f hm).2 (hout f hm) (Or.inl value)
    simpa [combined] using Or.inr hpa
  · obtain ⟨f, hm, he⟩ : ∃ f ∈ filters, cellValue ct.colDataType f.val =
        cellValue ct.colDataType c := by
      simpa [storesRow] using hsto
    have op : f.cop = .eq ∧ f.cop ≠ .nil := by
      simpa [breaksSet, argOf] using uniform f hm
    have hpa := cellTest_eq_self exact op.1 (hpl f hm).2
    rw [cellValue_injective he] at hpa
    simp only [combined, reduceCtorEq, if_false]
    split
    · rfl
    · simpa using ⟨f, hm, hpa⟩

lemma storesRow_scan (combines : bop = .and ∨ bop = .or) (hpl : Plain filters)
    {parsed : Option ParsedColumnFilter} (given : parsed = none ∨
      parsed = parseColumnFilter likes ct (filterString filters) filters.length bop)
    {c : Cell ct.colWidth}
    (hsto : storesRow ct bop filters.length (scanFilter likes filters parsed)
      (cellValue ct.colDataType c) (isNullVal ct.colWidth ct.colDataType c.toNat) = true) :
    combined bop (filters.map (cellTest c)) = true := by
  have comparison : ∀ f ∈ filters, f.cop ∈ CompareOp.comparisons := fun f hm =>
    (hpl f hm).1
  have message := storesRow_message likes combines comparison c
  rcases given with rfl | rfl
  · rw [← message]
    exact hsto
  unfold parseColumnFilter at hsto
  split at hsto
  · rw [← message]
    exact hsto
  dsimp only at hsto
  split at hsto
  · rename_i set
    rw [parseArgs_filterString likes comparison] at hsto set
    have uniform : ∀ f ∈ filters, breaksSet bop (argOf ct f) = false := by
      simpa using set.2
    have all : (filters.map (argOf ct)).filter (fun arg => arg.rf = 0) =
        filters.map (argOf ct) := by
      rw [filter_eq_self]
      intro arg hm
      obtain ⟨f, hi, rfl⟩ := mem_map.mp hm
      simp [argOf, (hpl f hi).2]
    rw [all, map_map] at hsto
    exact storesRow_set exact combines hpl uniform hsto
  · rw [← message]
    exact hsto

end Scan

/-- Where NULL operands may stand for the planner to be right. Filters that are to hold together:
behind an operand the planner takes for NULL every operand but the last is NULL to one side at
least; and it is not so that all operands are NULL to the scan and the first only to the scan.
Filters of which one has to hold: some operand is NULL to the planner, or none only to the scan. -/
def Readable (bop : Bop) (kinds : List (Bool × Bool)) : Prop :=
  if bop = .and then
    (∀ front k back, kinds = front ++ k :: back → k.1 = true → (false, false) ∉ back.dropLast) ∧
      ¬ (kinds.head? = some (false, true) ∧ ∀ k ∈ kinds, k.2 = true)
  else (∃ k ∈ kinds, k.1 = true) ∨ (false, true) ∉ kinds

section Soundness

variable {ct : ColType} {min max : Int} {filters : List (ColArgs ct.colWidth)}

lemma lagAll_true {g : ColArgs ct.colWidth} (null : kind g ≠ (false, false))
    (hrd : (false, false) ∉ (filters.map kind).dropLast) :
    lagAll ct min max g.val filters = true := by
  induction filters generalizing g with
  | nil => rfl
  | cons f filters ih =>
    rw [lagAll, lagVerdict_null min max null f, Bool.true_and]
    rcases filters with _ | ⟨f', filters⟩
    · rfl
    · rw [map_cons, map_cons, dropLast_cons_cons, mem_cons, not_or] at hrd
      refine ih (Ne.symm hrd.1) ?_
      rw [map_cons]
      exact hrd.2

/-- Why the planner rules a range out: a filter read right, with nothing NULL to it before, or a
misread one behind an operand that is NULL to it. -/
lemma readAll_false (out : readAll ct min max filters = false) :
    (∃ front f back, filters = front ++ f :: back ∧ (∀ g ∈ front, readsNull ct g.val = false) ∧
      readsNull ct f.val = false ∧ verdict ct min max f = false) ∨
    (∃ front f back, filters = front ++ f :: back ∧ readsNull ct f.val = true ∧
      lagAll ct min max f.val back = false) := by
  induction filters with
  | nil => cases out
  | cons f filters ih =>
    rw [readAll] at out
    cases null : readsNull ct f.val with
    | true =>
      rw [null, if_pos rfl] at out
      exact Or.inr ⟨[], f, filters, rfl, null, out⟩
    | false =>
      rw [null, if_neg (by simp), Bool.and_eq_false_iff] at out
      rcases out with hh | later
      · exact Or.inl ⟨[], f, filters, rfl, by simp, null, hh⟩
      rcases ih later with ⟨front, g, back, split, clear, value, verdict⟩ |
        ⟨front, g, back, split, nullG, lag⟩
      · exact Or.inl ⟨f :: front, g, back, by rw [split]; rfl,
          forall_mem_cons.mpr ⟨null, clear⟩, value, verdict⟩
      · exact Or.inr ⟨f :: front, g, back, by rw [split]; rfl, nullG, lag⟩

variable (exact : ct.colDataType ≠ .float ∧ ct.colDataType ≠ .double)
  (wide : isCharType ct.colDataType = true → 1 < ct.colWidth.bytes)

/-- A row that is not empty and, unless it is NULL, lies in the range. -/
def Covered (ct : ColType) (min max : Int) (c : Cell ct.colWidth) : Prop :=
  isNullVal ct.colWidth ct.colDataType c.toNat = true ∨ (counts ct c = true ∧
      checkSingleValue min max (cellValue ct.colDataType c) ct.colDataType = true)

include exact wide in
/-- A filter read right that rules the range out: no value passes, and no NULL unless the scan
takes the operand for NULL. -/
lemma verdict_sound {f : ColArgs ct.colWidth} (comparison : f.cop ∈ CompareOp.comparisons)
    (hpl : f.rf = 0) (out : verdict ct min max f = false) {c : Cell ct.colWidth}
    (hcov : Covered ct min max c) (row : isNullVal ct.colWidth ct.colDataType c.toNat = false ∨
      isNullVal ct.colWidth ct.colDataType f.val.toNat = false) : cellTest c f = false := by
  have flag : f.rf ∈ roundingFlags := by
    rw [hpl]
    decide
  cases null : isNullVal ct.colWidth ct.colDataType c.toNat with
  | true =>
    have operand := row.resolve_left (by rw [null]; decide)
    rw [cellTest_null null (comparison_ne_nil _ comparison), nullOperand_eq, operand]
    rfl
  | false =>
    obtain ⟨countEq, hi⟩ := hcov.resolve_left (by rw [null]; decide)
    rw [checkSingleValue_iff, ← pruneRank_eq_rank ct wide, ← pruneRank_eq_rank ct wide,
      ← pruneRank_eq_rank ct wide] at hi
    rw [cellTest_value null]
    by_contra hpa
    rw [Bool.not_eq_false] at hpa
    cases string : isCharType ct.colDataType with
    | true =>
      have slips := (slips_string comparison flag hi.1 hi.2 string).mp ⟨out, hpa⟩
      have := wide string
      rw [Slips, string, if_pos rfl, if_neg (by omega)] at slips
      exact slips.2.1 hpl
    | false =>
      have slips := (slips_number comparison flag hi.1 hi.2 string exact countEq).mp ⟨out, hpa⟩
      rw [Slips, string, if_neg (by simp), hpl] at slips
      rcases slips with ⟨-, hrou, -⟩ | ⟨-, hrou, -⟩ <;> revert hrou <;> decide

include exact wide

lemma readable_and (hpl : Plain filters) (hrd : Readable .and (filters.map kind))
    (out : readAll ct min max filters = false) {c : Cell ct.colWidth}
    (hcov : Covered ct min max c) : ∃ f ∈ filters, cellTest c f = false := by
  obtain ⟨hal, mixed⟩ := hrd
  rcases readAll_false out with ⟨front, f, back, rfl, clear, value, ruled⟩ |
    ⟨front, f, back, rfl, null, lag⟩
  · have hm : f ∈ front ++ f :: back := by simp
    obtain ⟨comparison, flat⟩ := hpl f hm
    by_cases row : isNullVal ct.colWidth ct.colDataType c.toNat = false ∨
        isNullVal ct.colWidth ct.colDataType f.val.toNat = false
    · exact ⟨f, hm, verdict_sound exact wide comparison flat ruled hcov row⟩
    -- a NULL row, and an operand only the scan takes for NULL: another operand is a value
    rw [not_or, Bool.not_eq_false, Bool.not_eq_false] at row
    have ho : ∃ g ∈ front ++ f :: back,
        isNullVal ct.colWidth ct.colDataType g.val.toNat = false := by
      by_contra none
      push Not at none
      simp only [ne_eq, Bool.not_eq_false] at none
      refine mixed ⟨?_, ?_⟩
      · rcases front with _ | ⟨g, front⟩
        · simp [kind, value, row.2]
        · simp [kind, clear g mem_cons_self, none g (by simp)]
      · intro k hi
        obtain ⟨g, inFilters, rfl⟩ := mem_map.mp hi
        exact none g inFilters
    obtain ⟨g, inFilters, operand⟩ := ho
    refine ⟨g, inFilters, ?_⟩
    rw [cellTest_null row.1 (comparison_ne_nil _ (hpl g inFilters).1), nullOperand_eq, operand]
    rfl
  · have hpa : lagAll ct min max f.val back = true := by
      refine lagAll_true (by simp [kind, null]) ?_
      exact hal (front.map kind) (kind f) (back.map kind) (by simp) null
    rw [hpa] at lag
    cases lag

lemma readable_or (hpl : Plain filters) (hrd : Readable .or (filters.map kind))
    (out : filters.any (fun f => readsNull ct f.val || verdict ct min max f) = false)
    {c : Cell ct.colWidth} (hcov : Covered ct min max c) : ∀ f ∈ filters, cellTest c f = false := by
  simp only [any_eq_false, Bool.or_eq_true, not_or, Bool.not_eq_true] at out
  have none : (false, true) ∉ filters.map kind := by
    refine hrd.resolve_left ?_
    rintro ⟨k, hi, null⟩
    obtain ⟨f, hm, rfl⟩ := mem_map.mp hi
    rw [kind, (out f hm).1] at null
    cases null
  intro f hm
  have operand : isNullVal ct.colWidth ct.colDataType f.val.toNat = false := by
    by_contra null
    rw [Bool.not_eq_false] at null
    exact none (mem_map.mpr ⟨f, hm, by rw [kind, (out f hm).1, null]⟩)
  exact verdict_sound exact wide (hpl f hm).1 (hpl f hm).2 (out f hm).2 hcov (Or.inr operand)

/-- The planner rules a range out and the filters are readable: no covered row passes. -/
lemma readable_safe {bop : Bop} (combines : bop = .and ∨ bop = .or) (hpl : Plain filters)
    (hrd : Readable bop (filters.map kind))
    (out : casualPartitionPredicate min max (filterString filters) filters.length ct bop = false)
    {c : Cell ct.colWidth} (hcov : Covered ct min max c) :
    combined bop (filters.map (cellTest c)) = false := by
  have flat : ∀ f ∈ filters, f.rf = 0 := fun f hm => (hpl f hm).2
  rcases combines with rfl | rfl
  · rw [predicate_and min max flat] at out
    obtain ⟨f, hm, fails⟩ := readable_and exact wide hpl hrd out hcov
    have some : filters ≠ [] := ne_nil_of_mem hm
    simpa [combined, some] using ⟨f, hm, fails⟩
  by_cases some : filters = []
  · subst some
    cases out
  · rw [predicate_or min max flat some] at out
    have fails := readable_or exact wide hpl hrd out hcov
    simpa [combined, some] using fails

end Soundness

/-- Skipping is safe: whatever the range and a block it covers, if the planner rules the range out,
a scan of the block with the same filters stores no row. A scan that asks for row ids, as filter
steps do, passes over empty rows. -/
def Safe (ct : ColType) (likes : Int → Nat → Bool) (outputRid : Bool) (bop : Bop)
    (filters : List (ColArgs ct.colWidth)) : Prop :=
  ∀ (min max : Int) (block : List (Cell ct.colWidth)) (rq : ColRequest)
    (parsed : Option ParsedColumnFilter),
    rq.outputRid = outputRid → rq.bop = bop → rq.nops = filters.length →
    rq.filters = filterString filters →
    parsed = none ∨ parsed = parseColumnFilter likes ct (filterString filters) filters.length bop →
    (∀ v ∈ values ct block, checkSingleValue min max v ct.colDataType = true) →
    casualPartitionPredicate min max (filterString filters) filters.length ct bop = false →
    (pCol ct likes rq parsed block).stored = []

section Blocks

variable {ct : ColType} {likes : Int → Nat → Bool} {bop : Bop}
  {filters : List (ColArgs ct.colWidth)}

lemma pCol_stored (rq : ColRequest) (parsed : Option ParsedColumnFilter)
    (block : List (Cell ct.colWidth)) :
    (pCol ct likes rq parsed block).stored = ((visited rq block).filter (storesCell ct rq
      (parsed.getD (.twoArrays (parseArgs likes ct rq.filters rq.nops))))).map Prod.fst := by
  rw [pCol, (scan_eq ct rq _ _ _).1, nil_append]

lemma visited_mem {rq : ColRequest} {block : List (Cell ct.colWidth)}
    {row : Nat × Cell ct.colWidth} (visits : row ∈ visited rq block) : row.2 ∈ block := by
  unfold visited at visits
  dsimp only at visits
  split at visits
  · exact (of_mem_zip (mem_filter.mp visits).1).2
  · obtain ⟨rid, -, found⟩ := mem_filterMap.mp (mem_filter.mp visits).1
    obtain ⟨c, here, rfl⟩ := Option.map_eq_some_iff.mp found
    exact mem_of_getElem? here

/-- The planner lets the range pass: every filter its cursor reads does. If only one filter has to
hold, an operand is NULL to the planner or some filter lets the range pass. -/
def Passes (ct : ColType) (bop : Bop) (filters : List (ColArgs ct.colWidth)) (min max : Int) :
    Prop :=
  if bop = .and then ∀ r ∈ cursorReads ct filters, r.lets ct min max = true
  else filters = [] ∨ ∃ f ∈ filters, readsNull ct f.val = true ∨ verdict ct min max f = true

/-- A range that is ruled out stays so when it shrinks to one of its values. -/
lemma compareVal_narrow {min max value v : Int} (low : min ≤ v) (high : v ≤ max)
    {op : Option CompareOp} {lcf : Byte} (passes : compareVal v v value op lcf = true) :
    compareVal min max value op lcf = true := by
  rcases op with _ | op
  · rfl
  · cases op <;> simp [compareVal] at passes ⊢ <;> grind

lemma Passes.widen {min max v : Int} (low : pruneRank ct min ≤ pruneRank ct v)
    (high : pruneRank ct v ≤ pruneRank ct max) (passes : Passes ct bop filters v v) :
    Passes ct bop filters min max := by
  have wider : ∀ value op lcf, compareBounds ct v v value op lcf = true →
      compareBounds ct min max value op lcf = true := by
    intro value op lcf lets
    rw [compareBounds_eq] at lets ⊢
    exact compareVal_narrow low high lets
  unfold Passes at passes ⊢
  split_ifs at passes ⊢
  · exact fun r member => wider _ _ _ (passes r member)
  · exact passes.imp_right fun ⟨f, member, lets⟩ => ⟨f, member, lets.imp_right (wider _ _ _)⟩

/-- The range of a block need not cover the row: it is NULL, or it is empty and the scan does not
ask for row ids. -/
def Uncovered (ct : ColType) (outputRid : Bool) (c : Cell ct.colWidth) : Prop :=
  isNullVal ct.colWidth ct.colDataType c.toNat = true ∨
    isEmptyVal ct.colWidth ct.colDataType c.toNat = true ∧ outputRid = false

lemma visited_uncovered {rq : ColRequest} {outputRid : Bool} (rids : rq.outputRid = outputRid)
    {block : List (Cell ct.colWidth)} {row : Nat × Cell ct.colWidth}
    (visits : row ∈ visited rq block) (uncounted : counts ct row.2 = false) :
    Uncovered ct outputRid row.2 := by
  by_cases null : isNullVal ct.colWidth ct.colDataType row.2.toNat = true
  · exact .inl null
  have empty : isEmptyVal ct.colWidth ct.colDataType row.2.toNat = true := by
    simpa [counts, null] using uncounted
  unfold visited at visits
  dsimp only at visits
  split at visits
  · exact .inr ⟨empty, by simpa [empty, rids] using (mem_filter.mp visits).2⟩
  · simp [empty] at visits

lemma safe_of_readable (exact : ct.colDataType ≠ .float ∧ ct.colDataType ≠ .double)
    (wide : isCharType ct.colDataType = true → 1 < ct.colWidth.bytes)
    (combines : bop = .and ∨ bop = .or) (hpl : Plain filters)
    (hrd : Readable bop (filters.map kind)) : Safe ct likes true bop filters := by
  intro min max block rq hpar rids sameBop sameNops sameFilters given hcove out
  rw [pCol_stored, map_eq_nil_iff, filter_eq_nil_iff]
  intro row visits hsto
  have covered : Covered ct min max row.2 := by
    cases counted : counts ct row.2 with
    | true =>
      exact .inr ⟨counted, hcove _ (mem_map.mpr ⟨row.2, mem_filter.mpr ⟨visited_mem visits, counted⟩,
        rfl⟩)⟩
    | false => exact (visited_uncovered rids visits counted).imp_right (nomatch ·.2)
  have fails := readable_safe exact wide combines hpl hrd out covered
  rw [storesCell, sameBop, sameNops, sameFilters] at hsto
  have hpa := storesRow_scan likes exact combines hpl given hsto
  rw [fails] at hpa
  cases hpa

end Blocks

end PruningSafety
