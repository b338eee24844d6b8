import EryDb.ColumnScan

/-!
# The range a scan leaves behind

Scanning the blocks of an extent yields the range of the extent: each block returns its
own bounds and `UpdateMinMax` folds them together. Neither step has a separate mark for
"no value yet"; both start from bounds that lie the wrong way round, and for strings the
starting bounds are ordinary strings in the order of comparison. The invariant is that
every bound a block can return lies on the covering side of the starting bound.
-/

namespace ScanRanges

open List BrmTypes ColumnTypes FilterStrings CasualPruning ColumnScan

lemma toU64_lt (x : Int) : toU64 x < 2 ^ 64 := by
  unfold toU64
  omega

lemma toU64_toI64 {n : Nat} (word : n < 2 ^ 64) : toU64 (toI64 n) = n := by
  unfold toU64 toI64
  rw [Nat.mod_eq_of_lt word]
  split <;> omega

/-- A cell that takes part in the range: neither NULL nor empty. -/
def counts (ct : ColType) (c : Cell ct.colWidth) : Bool :=
  !isNullVal ct.colWidth ct.colDataType c.toNat && !isEmptyVal ct.colWidth ct.colDataType c.toNat

def values (ct : ColType) (block : List (Cell ct.colWidth)) : List Int :=
  (block.filter (counts ct)).map (cellValue ct.colDataType)

section Widening

variable (ct : ColType) (val : Int) (range : Int × Int)

lemma widen_rank :
    pruneRank ct (widen ct val range).1 = min (pruneRank ct range.1) (pruneRank ct val) ∧
      pruneRank ct (widen ct val range).2 = max (pruneRank ct range.2) (pruneRank ct val) := by
  have word := toU64_toI64 (toU64_lt val)
  unfold widen
  simp only [← isCharType_iff]
  by_cases string : isCharType ct.colDataType = true ∧ 1 < ct.colWidth.bytes
  · have compare : ∀ a b cop, colCompare a b cop 0 ct.colDataType ct.colWidth placeholderRegex
        false = colCompare_ (orderSwap a) (orderSwap b) cop :=
      fun a b cop => by rw [colCompare_string string.1 a b cop 0 _ rfl, if_pos rfl]
    simp only [compare, string, and_self, if_true, colCompare_, pruneRank, decide_eq_true_eq]
    constructor <;> split <;> omega
  rw [if_neg string]
  split_ifs with unsigned
  all_goals
    simp only [pruneRank, if_neg string, unsigned, if_true, if_false, Bool.false_eq_true]
    constructor <;> omega

end Widening

section Scan

variable (ct : ColType) (rq : ColRequest) (filter : ParsedColumnFilter)

def storesCell (row : Nat × Cell ct.colWidth) : Bool :=
  storesRow ct rq.bop rq.nops filter (cellValue ct.colDataType row.2)
    (isNullVal ct.colWidth ct.colDataType row.2.toNat)

/-- The bounds after some values. -/
def widenAll (vals : List Int) (range : Int × Int) : Int × Int :=
  vals.foldl (fun range val => widen ct val range) range

section Row

variable (result : ColResult) (row : Nat × Cell ct.colWidth)

lemma scanRow_stored : (scanRow ct rq filter result row).stored =
    result.stored ++ if storesCell ct rq filter row then [row.1] else [] := by
  unfold scanRow storesCell
  dsimp only
  split <;> simp

@[simp] lemma scanRow_validMinMax :
    (scanRow ct rq filter result row).validMinMax = result.validMinMax := rfl

lemma scanRow_range (hcap : result.validMinMax = true) :
    ((scanRow ct rq filter result row).min, (scanRow ct rq filter result row).max) =
      if counts ct row.2 then widen ct (cellValue ct.colDataType row.2) (result.min, result.max)
      else (result.min, result.max) := by
  simp only [scanRow, counts, hcap, Bool.true_and, Prod.mk.eta]
  rfl

end Row

/-- The whole scan: the rows that pass, and the bounds widened by the cells that count. -/
lemma scan_eq (rows : List (Nat × Cell ct.colWidth)) (result : ColResult) :
    (rows.foldl (scanRow ct rq filter) result).stored =
        result.stored ++ (rows.filter (storesCell ct rq filter)).map Prod.fst ∧
      (rows.foldl (scanRow ct rq filter) result).validMinMax = result.validMinMax ∧
      (result.validMinMax = true → ((rows.foldl (scanRow ct rq filter) result).min,
          (rows.foldl (scanRow ct rq filter) result).max) =
        widenAll ct (((rows.map Prod.snd).filter (counts ct)).map (cellValue ct.colDataType))
          (result.min, result.max)) := by
  induction rows generalizing result with
  | nil => simp [widenAll]
  | cons row rows ih =>
    obtain ⟨hsto, hv, range⟩ := ih (scanRow ct rq filter result row)
    rw [foldl_cons]
    refine ⟨?_, ?_, ?_⟩
    · rw [hsto, scanRow_stored]
      by_cases hpa : storesCell ct rq filter row = true <;> simp [hpa]
    · rw [hv, scanRow_validMinMax]
    · intro hcap
      rw [range hcap, scanRow_range ct rq filter result row hcap]
      by_cases counted : counts ct row.2 = true <;> simp [counted, widenAll]

variable {ct rq}

lemma visited_values (all : rq.ridArray = []) (block : List (Cell ct.colWidth)) :
    (((visited rq block).map Prod.snd).filter (counts ct)).map (cellValue ct.colDataType) =
      values ct block := by
  have cells : ((List.range block.length).zip block).map Prod.snd = block := by
    rw [map_snd_zip]
    simp
  unfold visited values
  rw [if_pos all]
  congr 1
  conv_rhs => rw [← cells]
  rw [filter_map, filter_map, filter_filter]
  congr 1
  apply filter_congr
  intro row _
  simp only [Function.comp, counts]
  cases isEmptyVal ct.colWidth ct.colDataType row.2.toNat <;> simp

/-- A range in the order of pruning that reaches over some values and over the starting bounds. -/
structure Reaches (ct : ColType) (start range : Int × Int) (vals : List Int) : Prop where
  low : pruneRank ct range.1 ≤ pruneRank ct start.1
  high : pruneRank ct start.2 ≤ pruneRank ct range.2
  covers : ∀ v ∈ vals, pruneRank ct range.1 ≤ pruneRank ct v ∧ pruneRank ct v ≤ pruneRank ct range.2

lemma widenAll_reaches (ct : ColType) (start : Int × Int) (vals : List Int) :
    Reaches ct start (widenAll ct vals start) vals := by
  induction vals generalizing start with
  | nil => exact ⟨le_rfl, le_rfl, by simp⟩
  | cons v vals ih =>
    obtain ⟨low, high, hcov⟩ := ih (widen ct v start)
    obtain ⟨least, hgr⟩ := widen_rank ct v start
    rw [least] at low
    rw [hgr] at high
    refine ⟨?_, ?_, ?_⟩
    · exact low.trans (min_le_left _ _)
    · exact (le_max_left _ _).trans high
    · exact forall_mem_cons.mpr
        ⟨⟨low.trans (min_le_right _ _), (le_max_right _ _).trans high⟩, hcov⟩

variable (likes : Int → Nat → Bool) (parsed : Option ParsedColumnFilter)

lemma pCol_validMinMax (block : List (Cell ct.colWidth)) :
    (pCol ct likes rq parsed block).validMinMax =
      isMinMaxValid rq.ridArray.length ct.colDataType ct.colWidth.bytes :=
  (scan_eq ct rq _ _ _).2.1

/-- What a scan without row ids returns for a column whose bounds are captured. -/
lemma pCol_reaches (all : rq.ridArray = [])
    (hcap : isMinMaxValid 0 ct.colDataType ct.colWidth.bytes = true)
    (block : List (Cell ct.colWidth)) :
    (pCol ct likes rq parsed block).validMinMax = true ∧ Reaches ct (startRange ct true)
        ((pCol ct likes rq parsed block).min, (pCol ct likes rq parsed block).max)
        (values ct block) := by
  refine ⟨by rw [pCol_validMinMax, all, length_nil, hcap], ?_⟩
  unfold pCol
  rw [all, length_nil, hcap]
  rw [(scan_eq ct rq _ _ _).2.2 rfl, visited_values all]
  exact widenAll_reaches ct _ _

end Scan

section Folding

variable {ct : ColType}

/-- One block of an extent as it is scanned: its LBID, the request and the cells. -/
structure BlockScan (ct : ColType) where
  lbid : Int
  rq : ColRequest
  parsed : Option ParsedColumnFilter
  block : List (Cell ct.colWidth)

def BlockScan.result (likes : Int → Nat → Bool) (scan : BlockScan ct) : ColResult :=
  pCol ct likes scan.rq scan.parsed scan.block

/-- The results of the blocks folded into the partitions, in the order in which they come in. -/
def foldScans (likes : Int → Nat → Bool) (scans : List (BlockScan ct))
    (partitions : List MinMaxPartition) : List MinMaxPartition :=
  scans.foldl (fun partitions scan => updateMinMax (scan.result likes).min
    (scan.result likes).max scan.lbid ct.colDataType (scan.result likes).validMinMax partitions)
    partitions

lemma updatePartition_lbids (min max : Int) (type : ColDataType) (valid : Bool)
    (mmp : MinMaxPartition) : (updatePartition min max type valid mmp).lbid = mmp.lbid ∧
      (updatePartition min max type valid mmp).lbidmax = mmp.lbidmax := by
  unfold updatePartition
  dsimp only
  split_ifs <;> exact ⟨rfl, rfl⟩

variable {scans : List (BlockScan ct)} {mmp : MinMaxPartition}

lemma updateMinMax_first (min max : Int) {lbid : Int} (type : ColDataType) (valid : Bool)
    {before : List MinMaxPartition} (after : List MinMaxPartition)
    (hi : mmp.lbid ≤ lbid ∧ lbid < mmp.lbidmax)
    (once : ∀ p ∈ before, ¬ (p.lbid ≤ lbid ∧ lbid < p.lbidmax)) :
    updateMinMax min max lbid type valid (before ++ mmp :: after) =
      before ++ updatePartition min max type valid mmp :: after := by
  induction before with
  | nil => rw [nil_append, updateMinMax, if_pos hi, nil_append]
  | cons p before ih =>
    rw [cons_append, updateMinMax, if_neg (once p mem_cons_self),
      ih (fun q hm => once q (mem_cons_of_mem p hm)), cons_append]

def foldPartition (likes : Int → Nat → Bool) (scans : List (BlockScan ct))
    (mmp : MinMaxPartition) : MinMaxPartition :=
  scans.foldl (fun mmp scan => updatePartition (scan.result likes).min (scan.result likes).max
    ct.colDataType (scan.result likes).validMinMax mmp) mmp

variable (likes : Int → Nat → Bool)

/-- The blocks of one extent only touch its partition, wherever it stands in the vector. -/
lemma foldScans_partition {before after : List MinMaxPartition}
    (hi : ∀ scan ∈ scans, mmp.lbid ≤ scan.lbid ∧ scan.lbid < mmp.lbidmax)
    (once : ∀ scan ∈ scans, ∀ p ∈ before, ¬ (p.lbid ≤ scan.lbid ∧ scan.lbid < p.lbidmax)) :
    foldScans likes scans (before ++ mmp :: after) =
      before ++ foldPartition likes scans mmp :: after := by
  induction scans generalizing mmp with
  | nil => rfl
  | cons scan scans ih =>
    rw [foldScans, foldl_cons, updateMinMax_first _ _ _ _ _
      (hi scan mem_cons_self) (once scan mem_cons_self)]
    refine ih ?_ (fun s hm => once s (mem_cons_of_mem _ hm))
    intro s hm
    rw [(updatePartition_lbids ..).1, (updatePartition_lbids ..).2]
    exact hi s (mem_cons_of_mem _ hm)

/-- Replacing a bound that is lower or still the starting one keeps the lower of the two. -/
lemma pick_low {place : Int → Nat} {new old start : Int} (hbo : place new ≤ place start) :
    place (if place new < place old ∨ old = start then new else old) ≤ place old ∧
      place (if place new < place old ∨ old = start then new else old) ≤ place new := by
  split_ifs with replaced
  · rcases replaced with hlo | rfl
    · omega
    · exact ⟨hbo, le_rfl⟩
  · omega

lemma pick_high {place : Int → Nat} {new old start : Int} (hbo : place start ≤ place new) :
    place old ≤ place (if place new > place old ∨ old = start then new else old) ∧
      place new ≤ place (if place new > place old ∨ old = start then new else old) := by
  split_ifs with replaced
  · rcases replaced with hhi | rfl
    · omega
    · exact ⟨hbo, le_rfl⟩
  · omega

variable (wide : isCharType ct.colDataType = true → 1 < ct.colWidth.bytes)
include wide

/-- A block's bounds never leave the partition narrower. The comparison with the starting bound
replaces a bound by one that lies on its covering side. -/
lemma updatePartition_rank (state : mmp.isValid = .invalid) {min max : Int}
    (low : pruneRank ct min ≤ pruneRank ct (startRange ct true).1)
    (high : pruneRank ct (startRange ct true).2 ≤ pruneRank ct max) :
    let m := updatePartition min max ct.colDataType true mmp
    m.isValid = .invalid ∧
      pruneRank ct m.min ≤ pruneRank ct mmp.min ∧ pruneRank ct m.min ≤ pruneRank ct min ∧
      pruneRank ct mmp.max ≤ pruneRank ct m.max ∧ pruneRank ct max ≤ pruneRank ct m.max := by
  intro m
  by_cases string : isCharType ct.colDataType = true
  · have signed : isUnsigned ct.colDataType = false := by
      rcases (isCharType_iff _).mp string with type | type <;> rw [type] <;> rfl
    have place : ∀ x, pruneRank ct x = orderSwap x := fun x => by
      simp [pruneRank, string, wide string]
    simp only [startRange, signed, if_true, Bool.false_eq_true, if_false, place,
      Nat.cast_le] at low high
    simp only [m, updatePartition, state, string, if_true, reduceCtorEq, if_false, place,
      Nat.cast_le, true_and]
    exact ⟨(pick_low low).1, (pick_low low).2, (pick_high high).1, (pick_high high).2⟩
  · by_cases unsigned : isUnsigned ct.colDataType = true
    · have place : ∀ x, pruneRank ct x = toU64 x := fun x => by
        simp [pruneRank, string, unsigned]
      simp only [m, updatePartition, state, string, unsigned, if_true, reduceCtorEq, if_false,
        place, true_and, Bool.false_eq_true]
      refine ⟨?_, ?_, ?_, ?_⟩ <;> split <;> omega
    · have place : ∀ x, pruneRank ct x = x := fun x => by simp [pruneRank, string, unsigned]
      simp only [m, updatePartition, state, string, unsigned, if_true, reduceCtorEq, if_false,
        place, true_and, Bool.false_eq_true]
      refine ⟨?_, ?_, ?_, ?_⟩ <;> split <;> omega

lemma updatePartition_reaches (state : mmp.isValid = .invalid) {range : Int × Int}
    {seen vals : List Int} (hb : Reaches ct (startRange ct true) (mmp.min, mmp.max) seen)
    (block : Reaches ct (startRange ct true) range vals) :
    let m := updatePartition range.1 range.2 ct.colDataType true mmp
    m.isValid = .invalid ∧ Reaches ct (startRange ct true) (m.min, m.max) (seen ++ vals) := by
  intro m
  obtain ⟨invalid, lowOld, lowNew, highOld, highNew⟩ :=
    updatePartition_rank wide state block.low block.high
  refine ⟨invalid, lowOld.trans hb.low, hb.high.trans highOld, ?_⟩
  intro v hm
  rcases mem_append.mp hm with old | new
  · exact ⟨lowOld.trans (hb.covers v old).1, (hb.covers v old).2.trans highOld⟩
  · exact ⟨lowNew.trans (block.covers v new).1, (block.covers v new).2.trans highNew⟩

/-- The run: the partition stays open and reaches over all values of the blocks scanned. -/
lemma foldPartition_reaches (hcap : isMinMaxValid 0 ct.colDataType ct.colWidth.bytes = true)
    (all : ∀ scan ∈ scans, scan.rq.ridArray = []) (state : mmp.isValid = .invalid)
    {seen : List Int} (hb : Reaches ct (startRange ct true) (mmp.min, mmp.max) seen) :
    Reaches ct (startRange ct true)
      ((foldPartition likes scans mmp).min, (foldPartition likes scans mmp).max)
      (seen ++ scans.flatMap (fun scan => values ct scan.block)) := by
  induction scans generalizing mmp seen with
  | nil => simpa [foldPartition] using hb
  | cons scan scans ih =>
    obtain ⟨hv, block⟩ := pCol_reaches likes scan.parsed (all scan mem_cons_self) hcap scan.block
    obtain ⟨invalid, reaches⟩ := updatePartition_reaches wide state hb block
    have rest := ih (fun s hm => all s (mem_cons_of_mem _ hm)) invalid reaches
    rw [flatMap_cons, ← append_assoc]
    rw [foldPartition, foldl_cons, BlockScan.result, hv]
    exact rest

omit wide in
/-- A column whose bounds are not captured: the first block closes the partition. -/
lemma foldPartition_updating (hcap : isMinMaxValid 0 ct.colDataType ct.colWidth.bytes = false)
    (all : ∀ scan ∈ scans, scan.rq.ridArray = []) (mmp : MinMaxPartition) (some : scans ≠ []) :
    (foldPartition likes scans mmp).isValid = .updating := by
  induction scans generalizing mmp with
  | nil => exact absurd rfl some
  | cons scan scans ih =>
    rw [foldPartition, foldl_cons, BlockScan.result, pCol_validMinMax,
      all scan mem_cons_self, length_nil, hcap]
    by_cases last : scans = []
    · rw [last]
      rfl
    · exact ih (fun s hm => all s (mem_cons_of_mem _ hm)) _ last

omit wide in
lemma foldPartition_bounds (hcap : isMinMaxValid 0 ct.colDataType ct.colWidth.bytes = false)
    (all : ∀ scan ∈ scans, scan.rq.ridArray = []) (mmp : MinMaxPartition) :
    (foldPartition likes scans mmp).min = mmp.min ∧
      (foldPartition likes scans mmp).max = mmp.max := by
  induction scans generalizing mmp with
  | nil => exact ⟨rfl, rfl⟩
  | cons scan scans ih =>
    rw [foldPartition, foldl_cons, BlockScan.result, pCol_validMinMax,
      all scan mem_cons_self, length_nil, hcap]
    exact ih (fun s hm => all s (mem_cons_of_mem _ hm)) _

omit wide in
/-- The starting bounds hold no value in any of the orders. -/
lemma newPartition_empty (type : ColDataType) (lbid lbidmax seq v : Int) :
    checkSingleValue (newPartition type lbid lbidmax seq .invalid).min
      (newPartition type lbid lbidmax seq .invalid).max v type = false := by
  have inverted : rank type (newPartition type lbid lbidmax seq .invalid).max <
      rank type (newPartition type lbid lbidmax seq .invalid).min := by
    have bounds : rank type (newPartition type 0 0 0 .invalid).max <
        rank type (newPartition type 0 0 0 .invalid).min := by
      cases type <;> decide
    unfold newPartition at bounds ⊢
    split_ifs at bounds ⊢ <;> exact bounds
  rw [Bool.eq_false_iff, ne_eq, checkSingleValue_iff]
  omega

/-- Scanning the blocks of an extent without a valid range, in any order and with any filters:
the partition comes to hold every value of the blocks exactly if `p_Col` captures bounds or there
is no value; where it captures none the partition is marked as updating, and no range is written
back for it. -/
theorem scanned_range_covers {scans : List (BlockScan ct)}
    (all : ∀ scan ∈ scans, scan.rq.ridArray = []) (lbid lbidmax seq : Int)
    (before after : List MinMaxPartition)
    (inside : ∀ scan ∈ scans, lbid ≤ scan.lbid ∧ scan.lbid < lbidmax)
    (first : ∀ scan ∈ scans, ∀ p ∈ before, ¬ (p.lbid ≤ scan.lbid ∧ scan.lbid < p.lbidmax)) :
    ∃ mmp, foldScans likes scans
        (before ++ newPartition ct.colDataType lbid lbidmax seq .invalid :: after) =
          before ++ mmp :: after ∧
      ((∀ scan ∈ scans, ∀ v ∈ values ct scan.block,
          checkSingleValue mmp.min mmp.max v ct.colDataType = true) ↔
        isMinMaxValid 0 ct.colDataType ct.colWidth.bytes = true ∨
          ∀ scan ∈ scans, values ct scan.block = []) ∧
      (isMinMaxValid 0 ct.colDataType ct.colWidth.bytes = false → scans ≠ [] →
        mmp.isValid = .updating) := by
  have fresh : (newPartition ct.colDataType lbid lbidmax seq .invalid).lbid = lbid ∧
      (newPartition ct.colDataType lbid lbidmax seq .invalid).lbidmax = lbidmax ∧
      (newPartition ct.colDataType lbid lbidmax seq .invalid).isValid = .invalid ∧
      ((newPartition ct.colDataType lbid lbidmax seq .invalid).min,
        (newPartition ct.colDataType lbid lbidmax seq .invalid).max) = startRange ct true := by
    unfold newPartition startRange
    split <;> exact ⟨rfl, rfl, rfl, rfl⟩
  obtain ⟨start, stop, state, range⟩ := fresh
  refine ⟨_, foldScans_partition likes (by rwa [start, stop]) first, ?_, ?_⟩
  · constructor
    · intro covered
      refine or_iff_not_imp_left.mpr fun uncaptured scan member => eq_nil_iff_forall_not_mem.mpr ?_
      intro v counted
      obtain ⟨low, high⟩ := foldPartition_bounds likes (Bool.eq_false_iff.mpr uncaptured) all
        (newPartition ct.colDataType lbid lbidmax seq .invalid)
      have held := covered scan member v counted
      rw [low, high, newPartition_empty] at held
      cases held
    rintro (captured | bare) scan member v counted
    swap
    · rw [bare scan member] at counted
      cases counted
    have empty : Reaches ct (startRange ct true)
        ((newPartition ct.colDataType lbid lbidmax seq .invalid).min,
          (newPartition ct.colDataType lbid lbidmax seq .invalid).max) [] := by
      rw [range]
      exact ⟨le_rfl, le_rfl, by simp⟩
    have reaches := foldPartition_reaches likes wide captured all state empty
    rw [checkSingleValue_iff, ← pruneRank_eq_rank ct wide, ← pruneRank_eq_rank ct wide,
      ← pruneRank_eq_rank ct wide]
    exact reaches.covers v (mem_flatMap.mpr ⟨scan, member, counted⟩)
  · intro captured some
    exact foldPartition_updating likes captured all _ some

end Folding

/-- A scan of all rows without filters. -/
def plainScan : ColRequest := ⟨true, .and, 0, [], [], false⟩

def bigintColumn : ColType := ⟨.bigint, .eight, by decide⟩

/-- Two blocks of a `BIGINT` extent, of which the first holds only a NULL. -/
def bigintScans : List (BlockScan bigintColumn) :=
  [⟨0, plainScan, none, [0x8000000000000000#64]⟩, ⟨1, plainScan, none, [7#64, 3#64]⟩]

theorem scanned_range_covers_bigint :
    ∃ mmp, foldScans (fun _ _ => false) bigintScans [newPartition .bigint 0 8192 0 .invalid] =
        [mmp] ∧ checkSingleValue mmp.min mmp.max 3 .bigint = true := by
  have all : ∀ scan ∈ bigintScans, scan.rq.ridArray = [] := by decide
  obtain ⟨mmp, folded, covers, -⟩ := scanned_range_covers (fun _ _ => false) (by decide) all
    0 8192 0 [] [] (by decide) (by decide)
  exact ⟨mmp, folded,
    covers.mpr (.inl (by decide)) _ (mem_cons_of_mem _ mem_cons_self) 3 (by decide +kernel)⟩

def medintColumn : ColType := ⟨.medint, .four, by decide⟩

def medintScans : List (BlockScan medintColumn) := [⟨0, plainScan, none, [5#32]⟩]

/-- `p_Col` captures no bounds for a `MEDINT` column, and the range of its extent stays empty. -/
theorem medint_range_empty :
    ∃ mmp, foldScans (fun _ _ => false) medintScans [newPartition .medint 0 4096 0 .invalid] =
        [mmp] ∧
      (∃ scan ∈ medintScans, (5 : Int) ∈ values medintColumn scan.block) ∧
      checkSingleValue mmp.min mmp.max 5 .medint = false ∧ mmp.isValid = .updating :=
  ⟨_, rfl, ⟨_, mem_cons_self, by decide +kernel⟩, by decide +kernel⟩

end ScanRanges
