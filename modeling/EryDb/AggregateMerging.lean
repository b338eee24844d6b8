import EryDb.AggregationTables

/-!
# Counts, extremes and bit functions merge

For COUNT, MIN, MAX and the bit functions the two phases are one fold cut in pieces. A count and a
bit function are read as the words they are. MIN and MAX are read as an optional rank, which is
missing while the field is NULL; the initial field need not be NULL for that: in a VARCHAR column
of one byte it is not, and is then an ordinary value that every batch starts from.
-/

namespace RowAggregation

open List (flatten_cons map_append map_cons mem_append mem_map)
open BrmTypes GroupFolds
open LittleEndian (Byte)

variable {func : AggFunction}

section Ranks

variable {c : Column} {f g : Field}

/-- The columns whose MIN and MAX merge: integers, decimals, dates and short strings. -/
def Ranked (c : Column) : Bool :=
  match c.type with
  | .tinyint | .smallint | .medint | .int | .bigint | .decimal | .udecimal
  | .utinyint | .usmallint | .umedint | .uint | .ubigint | .date | .datetime => true
  | .char | .varchar => c.width ≤ 8
  | _ => false

/-- What MIN and MAX compare. -/
def rank (c : Column) (f : Field) : Int :=
  match c.type with
  | .tinyint | .smallint | .medint | .int | .bigint | .decimal | .udecimal =>
    (getIntField c f).toInt
  | .char | .varchar => uint64ToStr (getUintField c f)
  | _ => (getUintField c f).toNat

/-- A field as its column holds it. -/
def stored (c : Column) (f : Field) : Field := ⟨getUintField c f, []⟩

lemma getUintField_bits (c : Column) (f : Field) :
    (getUintField c f).setWidth (8 * c.width) = bits c f := by
  unfold getUintField
  by_cases narrow : 8 * c.width ≤ 64
  · rw [BitVec.setWidth_setWidth_of_le _ narrow, BitVec.setWidth_eq]
  · unfold bits
    rw [BitVec.setWidth_setWidth_of_le f.word (by omega), BitVec.setWidth_eq]

lemma bits_setField (c : Column) (v : BitVec 64) :
    bits c (setField c v) = v.setWidth (8 * c.width) :=
  getUintField_bits c ⟨v, []⟩

lemma getIntField_bits (c : Column) (f : Field) :
    (getIntField c f).setWidth (8 * c.width) = bits c f := by
  apply BitVec.eq_of_getLsbD_eq
  intro i hl
  simp only [getIntField, BitVec.getLsbD_setWidth, BitVec.getLsbD_signExtend, hl, decide_true,
    Bool.true_and, if_true]
  by_cases hi : i < 64
  · simp [hi]
  · simp [bits, hi, BitVec.getLsbD_of_ge f.word i (by omega)]

lemma setField_uint (c : Column) (f : Field) : setField c (getUintField c f) = stored c f := by
  rw [setField, getUintField_bits]
  rfl

lemma setField_int (c : Column) (f : Field) : setField c (getIntField c f) = stored c f := by
  rw [setField, getIntField_bits]
  rfl

lemma bits_stored (c : Column) (f : Field) : bits c (stored c f) = bits c f := by
  rw [← setField_uint, bits_setField, getUintField_bits]

/-- The rank tells the stored bits. -/
lemma rank_injective (he : rank c f = rank c g) : bits c f = bits c g := by
  have ofInt (heq : (getIntField c f).toInt = (getIntField c g).toInt) : bits c f = bits c g := by
    rw [← getIntField_bits, BitVec.toInt_inj.mp heq, getIntField_bits]
  have ofNat (heq : (getUintField c f).toNat = (getUintField c g).toNat) :
      bits c f = bits c g := by
    rw [← getUintField_bits, BitVec.toNat_inj.mp heq, getUintField_bits]
  have ofStr (heq : uint64ToStr (getUintField c f) = uint64ToStr (getUintField c g)) :
      bits c f = bits c g := by
    have bytes := LittleEndian.read_injective (by simp) heq
    refine ofNat ?_
    have reads := congrArg LittleEndian.read (List.reverse_injective bytes)
    rwa [LittleEndian.read_write (getUintField c f).isLt,
      LittleEndian.read_write (getUintField c g).isLt] at reads
  cases type : c.type
  case tinyint | smallint | medint | int | bigint | decimal | udecimal =>
    simp only [rank, type] at he
    exact ofInt he
  case char | varchar =>
    simp only [rank, type, Nat.cast_inj] at he
    exact ofStr he
  all_goals
    simp only [rank, type, Nat.cast_inj] at he
    exact ofNat he

lemma isNull_congr (hra : Ranked c = true) (he : bits c f = bits c g) :
    isNull c f = isNull c g := by
  have uint : getUintField c f = getUintField c g := by rw [getUintField, he, getUintField]
  have int : getIntField c f = getIntField c g := by rw [getIntField, he, getIntField]
  cases type : c.type <;> simp only [Ranked, type, decide_eq_true_eq, Bool.false_eq_true] at hra <;>
    simp only [isNull, type, uint, int, hra, if_true]

lemma stored_congr (he : bits c f = bits c g) : stored c f = stored c g := by
  rw [stored, getUintField, he]
  rfl

lemma stored_stored (c : Column) (f : Field) : stored c (stored c f) = stored c f := by
  rw [stored, getUintField, bits_stored]
  rfl

lemma isNull_stored (hra : Ranked c = true) : isNull c (stored c f) = isNull c f :=
  isNull_congr hra (bits_stored c f)

lemma rank_congr (he : bits c f = bits c g) : rank c f = rank c g := by
  have uint : getUintField c f = getUintField c g := by rw [getUintField, he, getUintField]
  have int : getIntField c f = getIntField c g := by rw [getIntField, he, getIntField]
  unfold rank
  rw [uint, int]

/-- MIN and MAX of a ranked column, on a field with the column of the result. -/
lemma doMinMaxSum_ranked (p : Platform) (hra : Ranked c = true) (notSum : func ≠ .sum)
    (x old : Field) : doMinMaxSum p c c func x old = .ok (if isNull c x then old
      else updateMinMax c old (stored c x) (minMax func (rank c x) (rank c old))) := by
  unfold doMinMaxSum
  split
  · rfl
  · cases type : c.type <;>
      simp only [Ranked, type, decide_eq_true_eq, Bool.false_eq_true] at hra <;>
      simp only [hra, if_true, updateIntMinMax, updateUintMinMax,
        updateCharMinMax, setField_int, setField_uint, rank, type, minMax, Nat.cast_lt]

end Ranks

variable {cell : Cell}

section Functions

variable (p : Platform) (cols : Nat → Column)

/-- The better of two optional ranks. -/
def pick (func : AggFunction) : Option Int → Option Int → Option Int
  | none, y => y
  | x, none => x
  | some a, some b => some (if func = .min then min a b else max a b)

lemma pick_comm (func : AggFunction) (x y : Option Int) : pick func x y = pick func y x := by
  cases x <;> cases y <;> simp only [pick, min_comm, max_comm]

lemma pick_assoc (func : AggFunction) (x y z : Option Int) :
    pick func (pick func x y) z = pick func x (pick func y z) := by
  cases x <;> cases y <;> cases z <;> simp only [pick]
  split <;> simp only [min_assoc, max_assoc]

lemma pick_self (func : AggFunction) (x : Option Int) : pick func x x = x := by
  cases x <;> simp [pick]

def readRank (c : Column) (f : Field) : Option Int := if isNull c f then none else some (rank c f)

/-- A field of MIN or MAX: what is NULL in it is the marker it started with. -/
structure Extreme (c : Column) (cell : Cell) : Prop where
  stored : cell.out = stored c cell.out
  null : isNull c cell.out = true → cell.out = nullField c
  aux : cell.aux = .zero

variable {c : Column}

lemma nullField_stored (hra : Ranked c = true) : nullField c = stored c (nullField c) := by
  have hwh (v : BitVec 64) : setField c v = stored c (setField c v) := by
    rw [stored, getUintField, bits_setField]
    rfl
  cases type : c.type <;> simp only [Ranked, type, decide_eq_true_eq, Bool.false_eq_true] at hra <;>
    simp only [nullField, type, hra, if_true] <;> exact hwh _

lemma updateMinMax_read (hra : Ranked c = true) (hv : Extreme c cell) {x out : Field}
    (value : isNull c x = false)
    (hup : updateMinMax c cell.out (stored c x) (minMax func (rank c x) (rank c cell.out)) = out) :
    Extreme c { cell with out := out } ∧
      readRank c out = pick func (readRank c cell.out) (some (rank c x)) := by
  have fresh : isNull c (stored c x) = false := (isNull_stored hra).trans value
  have taken : Extreme c { cell with out := stored c x } := by
    refine ⟨(stored_stored c x).symm, fun null => ?_, hv.aux⟩
    rw [fresh] at null
    cases null
  have reads : readRank c (stored c x) = some (rank c x) := by
    rw [readRank, fresh, rank_congr (bits_stored c x)]
    rfl
  subst hup
  by_cases null : isNull c cell.out = true
  · rw [updateMinMax, if_pos null, reads, readRank, if_pos null]
    exact ⟨taken, rfl⟩
  rw [updateMinMax, if_neg null]
  have old : readRank c cell.out = some (rank c cell.out) := by rw [readRank, if_neg null]
  rw [old]
  split_ifs with hbt
  · rw [reads]
    refine ⟨taken, congrArg some ?_⟩
    unfold minMax at hbt
    split at hbt <;> simp_all [le_of_lt]
  · rw [old]
    refine ⟨hv, congrArg some ?_⟩
    unfold minMax at hbt
    split at hbt <;> simp_all

/-- MIN and MAX take in a field, of a row or of a partial row. -/
lemma takeExtreme (notSum : func ≠ .sum) (hra : Ranked c = true) (hv : Extreme c cell)
    (x : Field) : ∃ t, (do
        let field ← doMinMaxSum p c c func x cell.out
        .ok { cell with out := field } : Except Error Cell) = .ok t ∧ Extreme c t ∧
      readRank c t.out = pick func (readRank c cell.out) (readRank c x) := by
  rw [doMinMaxSum_ranked p hra notSum]
  refine ⟨_, rfl, ?_⟩
  by_cases null : isNull c x = true
  · have hsk : readRank c x = none := if_pos null
    simp only [if_pos null, hsk]
    exact ⟨hv, by rw [pick_comm]; rfl⟩
  · have value : readRank c x = some (rank c x) := if_neg null
    simp only [if_neg null, value]
    exact updateMinMax_read hra hv (by simpa using null) rfl

lemma Extreme.injective {s t : Cell} (left : Extreme c s) (right : Extreme c t)
    (he : readRank c s.out = readRank c t.out) : s = t := by
  have fields : s.out = t.out := by
    unfold readRank at he
    split_ifs at he with null null' null'
    · rw [left.null null, right.null null']
    · rw [Option.some.injEq] at he
      rw [left.stored, right.stored]
      exact stored_congr (rank_injective he)
  cases s
  cases t
  simp only [Cell.mk.injEq]
  exact ⟨fields, left.aux.trans right.aux.symm⟩

/-- The cells of MIN and MAX. -/
lemma extreme_merging (colIn : Nat) (extreme : func = .min ∨ func = .max)
    (hra : Ranked (cols colIn) = true) :
    Merging (updateCell p cols ⟨func, colIn⟩) (UMP2.updateCell p cols ⟨func, colIn⟩)
      (makeAggFieldsNull (outColumn (cols colIn) func) func)
      (Extreme (cols colIn)) (fun cell => readRank (cols colIn) cell.out)
      (fun row => some (readRank (cols colIn) (row colIn))) (pick func) := by
  have start : Extreme (cols colIn) ⟨nullField (cols colIn), .zero⟩ :=
    ⟨nullField_stored hra, fun _ => rfl, rfl⟩
  obtain rfl | rfl := extreme
  all_goals exact
    { valid := start
      row := fun s row valid => takeExtreme p (by rintro ⟨⟩) hra valid (row colIn)
      part := fun s part valid _ => takeExtreme p (by rintro ⟨⟩) hra valid part.out
      inj := fun s t left right he => left.injective right he
      comm := pick_comm _
      assoc := pick_assoc _
      idem := pick_self _ _ }

/-- A cell that is one word. -/
structure Word (cell : Cell) : Prop where
  text : cell.out.text = []
  aux : cell.aux = .zero

lemma Word.injective {s t : Cell} (left : Word s) (right : Word t)
    (he : s.out.word = t.out.word) : s = t := by
  obtain ⟨⟨_, _⟩, _⟩ := s
  obtain ⟨⟨_, _⟩, _⟩ := t
  cases left.text
  cases left.aux
  cases right.text
  cases right.aux
  cases he
  rfl

lemma Word.set (word : Word cell) (v : BitVec 64) :
    Word { cell with out := setField bigintColumn v } ∧
      (setField bigintColumn v).word = v := by
  rw [setField_wide rfl]
  exact ⟨⟨rfl, word.aux⟩, rfl⟩

/-- The cells of the counts: COUNT(col) takes in the rows that are not NULL. -/
lemma count_merging (colIn : Nat) (count : func = .countAsterisk ∨ func = .countColName) :
    Merging (updateCell p cols ⟨func, colIn⟩) (UMP2.updateCell p cols ⟨func, colIn⟩)
      (makeAggFieldsNull (outColumn (cols colIn) func) func)
      Word (fun cell => cell.out.word)
      (fun row => if func = .countColName ∧ isNull (cols colIn) (row colIn) then none
        else some (1 : BitVec 64)) (· + ·) := by
  have add {s : Cell} (word : Word s) (v : BitVec 64) :
      ∃ t, (Except.ok { s with out := setField bigintColumn (getIntField bigintColumn s.out + v) } :
        Except Error Cell) = .ok t ∧ Word t ∧ t.out.word = s.out.word + v := by
    rw [getIntField_wide rfl]
    exact ⟨_, rfl, word.set _⟩
  have parts (s part : Cell) (word : Word s) : ∃ t,
      (Except.ok { s with out := setField bigintColumn (getIntField bigintColumn s.out +
        getIntField bigintColumn part.out) } : Except Error Cell) = .ok t ∧ Word t ∧
        t.out.word = s.out.word + part.out.word := by
    rw [getIntField_wide rfl part.out]
    exact add word _
  obtain rfl | rfl := count
  all_goals refine
      { valid := ⟨rfl, rfl⟩
        row := fun s row word => ?_
        part := fun s part word _ => parts s part word
        inj := fun s t left right he => left.injective right he
        comm := BitVec.add_comm
        assoc := BitVec.add_assoc
        idem := rfl }
  · exact add word 1
  · simp only [updateCell, true_and]
    split_ifs
    · exact ⟨s, rfl, word, rfl⟩
    · exact add word 1

lemma bitOp_comm (func : AggFunction) (a b : BitVec 64) : bitOp func a b = bitOp func b a := by
  cases func <;> simp only [bitOp, BitVec.and_comm, BitVec.or_comm, BitVec.xor_comm]

lemma bitOp_assoc (func : AggFunction) (a b d : BitVec 64) :
    bitOp func (bitOp func a b) d = bitOp func a (bitOp func b d) := by
  cases func <;> simp only [bitOp, BitVec.and_assoc, BitVec.or_assoc, BitVec.xor_assoc]

/-- The cells of the bit functions. -/
lemma bit_merging (colIn : Nat) (bit : func = .bitAnd ∨ func = .bitOr ∨ func = .bitXor) :
    Merging (updateCell p cols ⟨func, colIn⟩) (UMP2.updateCell p cols ⟨func, colIn⟩)
      (makeAggFieldsNull (outColumn (cols colIn) func) func)
      Word (fun cell => cell.out.word) (fun row => if isNull (cols colIn) (row colIn) then none
        else some (bitInput p (cols colIn) (row colIn))) (bitOp func) := by
  have rows (s : Cell) (row : Row) (word : Word s) : ∃ t,
      (Except.ok { s with out := doBitOp p (cols colIn) bigintColumn func (row colIn) s.out } :
        Except Error Cell) = .ok t ∧ Word t ∧
      t.out.word = (if isNull (cols colIn) (row colIn) then none
        else some (bitInput p (cols colIn) (row colIn))).elim s.out.word
          (bitOp func s.out.word) := by
    unfold doBitOp
    rw [getUintField_wide rfl, getIntField_wide rfl, ite_self]
    split_ifs
    · exact ⟨s, rfl, word, rfl⟩
    · refine ⟨_, rfl, (word.set _).1, (word.set _).2.trans ?_⟩
      rw [bitOp_comm]
      rfl
  have parts (s part : Cell) (word : Word s) : ∃ t,
      (Except.ok { s with out := UMP2.doBitOp bigintColumn func part.out s.out } :
        Except Error Cell) = .ok t ∧ Word t ∧
      t.out.word = bitOp func s.out.word part.out.word := by
    unfold UMP2.doBitOp
    rw [getUintField_wide rfl, getUintField_wide rfl, bitOp_comm]
    exact ⟨_, rfl, word.set _⟩
  have inj (s t : Cell) (left : Word s) (right : Word t) (he : s.out.word = t.out.word) :
      s = t := left.injective right he
  obtain rfl | rfl | rfl := bit
  all_goals exact ⟨⟨rfl, rfl⟩, rows, fun s part word _ => parts s part word, inj, bitOp_comm _,
    bitOp_assoc _, by first | exact BitVec.and_self | exact BitVec.or_self | exact BitVec.xor_self⟩

/-- The functions that merge: not SUM and AVG, and MIN and MAX on ranked columns. -/
def Mergeable (cols : Nat → Column) (f : FunctionCol) : Bool :=
  match f.func with
  | .sum | .avg => false
  | .min | .max => Ranked (cols f.colIn)
  | _ => true

lemma updateCell_splits {f : FunctionCol} (canMerge : Mergeable cols f = true) :
    Splits (updateCell p cols f) (UMP2.updateCell p cols f)
      (makeAggFieldsNull (outColumn (cols f.colIn) f.func) f.func) := by
  obtain ⟨func, colIn⟩ := f
  cases func
  case sum | avg => cases canMerge
  case min => exact (extreme_merging p cols colIn (Or.inl rfl) canMerge).splits
  case max => exact (extreme_merging p cols colIn (Or.inr rfl) canMerge).splits
  case countAsterisk => exact (count_merging p cols colIn (Or.inl rfl)).splits
  case countColName => exact (count_merging p cols colIn (Or.inr rfl)).splits
  case bitAnd => exact (bit_merging p cols colIn (Or.inl rfl)).splits
  case bitOr => exact (bit_merging p cols colIn (Or.inr (Or.inl rfl))).splits
  case bitXor => exact (bit_merging p cols colIn (Or.inr (Or.inr rfl))).splits

/-- No function that merges can throw, on any cell. -/
lemma updateCell_returns {f : FunctionCol} (canMerge : Mergeable cols f = true) (cell : Cell) :
    (∀ row, ∃ t, updateCell p cols f cell row = .ok t) ∧
      ∀ part, ∃ t, UMP2.updateCell p cols f cell part = .ok t := by
  obtain ⟨func, colIn⟩ := f
  cases func
  case sum | avg => cases canMerge
  case min | max =>
    have hra : Ranked (cols colIn) = true := canMerge
    constructor
    all_goals
      intro x
      simp only [updateCell, UMP2.updateCell, outColumn]
      rw [doMinMaxSum_ranked p hra (by rintro ⟨⟩)]
      exact ⟨_, rfl⟩
  case countColName =>
    refine ⟨fun row => ?_, fun part => ⟨_, rfl⟩⟩
    simp only [updateCell]
    split <;> exact ⟨_, rfl⟩
  all_goals exact ⟨fun row => ⟨_, rfl⟩, fun part => ⟨_, rfl⟩⟩

end Functions

variable {batches : List (List (List Row))} {partials : List Table}

section Queries

variable {q : Query}

variable (canMerge : ∀ f ∈ q.fFunctionCols, Mergeable q.cols f = true)
include canMerge

lemma updateEntry_splits : Splits q.updateEntry (UMP2.updateEntry q) q.nullRow := by
  unfold Query.updateEntry UMP2.updateEntry Query.nullRow
  generalize q.fFunctionCols = fns at canMerge ⊢
  induction fns with
  | nil => exact splits_nil
  | cons f fns ih =>
    obtain ⟨head, tail⟩ := List.forall_mem_cons.mp canMerge
    exact splits_cons (updateCell_splits q.platform q.cols head) (ih tail)

lemma updateEntry_returns (cells : List Cell) :
    (∀ row, ∃ cells', q.updateEntry cells row = .ok cells') ∧
      ∀ part, ∃ cells', UMP2.updateEntry q cells part = .ok cells' := by
  unfold Query.updateEntry UMP2.updateEntry
  generalize q.fFunctionCols = fns at canMerge ⊢
  induction fns generalizing cells with
  | nil => exact ⟨fun row => ⟨[], by cases cells <;> rfl⟩, fun part => ⟨[], by cases cells <;> rfl⟩⟩
  | cons f fns ih =>
    obtain ⟨head, tail⟩ := List.forall_mem_cons.mp canMerge
    cases cells with
    | nil => exact ⟨fun row => ⟨[], rfl⟩, fun part => ⟨[], rfl⟩⟩
    | cons cell cells =>
      obtain ⟨rows, parts⟩ := updateCell_returns q.platform q.cols head cell
      obtain ⟨rows', parts'⟩ := ih cells tail
      constructor
      · intro row
        obtain ⟨t, ran⟩ := rows row
        obtain ⟨ts, ran'⟩ := rows' row
        exact ⟨t :: ts, bind_ok.mpr ⟨t, ran, bind_ok.mpr ⟨ts, ran', rfl⟩⟩⟩
      intro part
      cases part with
      | nil => exact ⟨[], rfl⟩
      | cons part rest =>
        obtain ⟨t, ran⟩ := parts part
        obtain ⟨ts, ran'⟩ := parts' rest
        exact ⟨t :: ts, bind_ok.mpr ⟨t, ran, bind_ok.mpr ⟨ts, ran', rfl⟩⟩⟩

omit canMerge

/-- The batches of phase one, each with a hash set of its own. -/
def Aggregated (q : Query) (batch : List (List Row)) (t : Table) : Prop :=
  ∃ placed, aggregate q placed batch = .ok t

/-- The keys of the rows; without GROUP BY there is one key, also if there are no rows. -/
def Query.distinctKey (q : Query) (rows : List Row) (k : Key) : Prop :=
  if q.fGroupByCols = [] then k = [] else ∃ row ∈ rows, q.key row = k

/-- Exactly one row for each distinct key, with the cells of the single pass. -/
structure Agrees (q : Query) (rows : List Row) (final once : Table) : Prop where
  same : final.rows.Perm once.rows
  nodup : (final.rows.map Prod.fst).Nodup
  keys : ∀ k, k ∈ final.rows.map Prod.fst ↔ q.distinctKey rows k

lemma start_keys (q : Query) (rows : List Row) (k : Key) :
    k ∈ q.start.rows.map Prod.fst ∨ k ∈ (keyed q rows).map Prod.fst ↔ q.distinctKey rows k := by
  unfold Query.distinctKey Query.start Table.rows keyed
  by_cases none : q.fGroupByCols = []
  · simp only [if_pos none, map_cons, List.map_nil, List.mem_singleton, List.map_map]
    refine ⟨fun either => either.elim id fun mem => ?_, Or.inl⟩
    obtain ⟨row, -, rfl⟩ := mem_map.mp mem
    simp [Query.key, none]
  · simp [none]

/-- The batches of a run of phase one, as rows with their keys. -/
lemma batches_grouped (ran : List.Forall₂ (Aggregated q) batches partials)
    (kept : ∀ row ∈ batches.flatten.flatten, q.copy (q.key row) = q.key row) :
    List.Forall₂ (Grouped q q.updateEntry) (batches.map fun b => keyed q b.flatten) partials := by
  induction ran with
  | nil => exact .nil
  | cons head _ ih =>
    obtain ⟨hpl, ran⟩ := head
    refine .cons (aggregate_grouped ran fun row mem => kept row ?_) (ih fun row mem => kept row ?_)
    · rw [flatten_cons, List.flatten_append]
      exact List.mem_append_left _ mem
    · rw [flatten_cons, List.flatten_append]
      exact List.mem_append_right _ mem

lemma keyed_batches (q : Query) (batches : List (List (List Row))) :
    (batches.map fun b => keyed q b.flatten).flatten = keyed q batches.flatten.flatten := by
  induction batches with
  | nil => rfl
  | cons batch batches ih =>
    rw [map_cons, flatten_cons, ih, flatten_cons, List.flatten_append, keyed,
      keyed, keyed, map_append]

/-- The copies that partial rows carry. -/
lemma partials_copied (ran : List.Forall₂ (Aggregated q) batches partials) :
    ∀ part ∈ partials.flatMap Table.rows, q.copy part.1 = part.1 := by
  induction ran with
  | nil => simp
  | cons head _ ih =>
    obtain ⟨hpl, ran⟩ := head
    intro part mem
    rw [List.flatMap_cons, mem_append] at mem
    exact mem.elim (copied_rows (aggregate_copied ran) part) (ih part)

lemma partial_keys {batches : List (List (Key × Row))} {tables : List Table}
    (all : List.Forall₂ (Grouped q q.updateEntry) batches tables) (k : Key) :
    k ∈ q.start.rows.map Prod.fst ∨ k ∈ (tables.flatMap Table.rows).map Prod.fst ↔
      k ∈ q.start.rows.map Prod.fst ∨ k ∈ batches.flatten.map Prod.fst := by
  induction all with
  | nil => simp
  | cons grouped _ ih =>
    rw [List.flatMap_cons, map_append, mem_append, grouped.keys k, flatten_cons,
      map_append, mem_append]
    tauto

/-- With keys that their copies equal, the phases give the table of a single pass. -/
lemma agrees_of_kept (splits : Splits q.updateEntry (UMP2.updateEntry q) q.nullRow)
    (ran : List.Forall₂ (Aggregated q) batches partials) {parts : List (Key × List Cell)}
    (order : parts.Perm (partials.flatMap Table.rows)) {env : Setting} {final once : Table}
    (combined : UMP2.aggregate q env parts = .ok final) {groups : List (List Row)}
    (all : groups.flatten.Perm batches.flatten.flatten) (single : Aggregated q groups once)
    (kept : ∀ row ∈ groups.flatten, q.copy (q.key row) = q.key row) :
    Agrees q groups.flatten final once := by
  obtain ⟨hpl, ran_once⟩ := single
  have onePass := aggregate_grouped ran_once kept
  have phase1 := batches_grouped ran fun row mem => kept row (all.mem_iff.mpr mem)
  have phase2 := ump2_grouped combined fun part mem =>
    partials_copied ran part (order.mem_iff.mp mem)
  -- the keys of the partial rows are the keys of the rows
  have keys (k : Key) : k ∈ final.rows.map Prod.fst ↔ k ∈ once.rows.map Prod.fst := by
    have rows : k ∈ (batches.map fun b => keyed q b.flatten).flatten.map Prod.fst ↔
        k ∈ (keyed q groups.flatten).map Prod.fst := by
      rw [keyed_batches]
      exact ((all.map _).map _).mem_iff.symm
    rw [phase2.keys k, onePass.keys k, (order.map Prod.fst).mem_iff, ← rows]
    exact partial_keys phase1 k
  have cells (k : Key) : (lookup k final.rows).getD q.nullRow =
      (lookup k once.rows).getD q.nullRow := by
    obtain ⟨sel, merged, batch, rows_eq, he⟩ := batches_of_key phase1 k
    have reordered : merged.Perm (rowsOf k parts) := by
      rw [← rows_eq]
      exact rowsOf_perm k order.symm
    have everyRow : (rowsOf k (keyed q groups.flatten)).Perm sel.flatten := by
      rw [flatten_of_key he, keyed_batches]
      exact rowsOf_perm k (all.map _)
    obtain ⟨s, left, right⟩ := splits _ _ _ _ batch reordered everyRow
    have last := (phase2.folds k).symm.trans left
    have first := (onePass.folds k).symm.trans right
    rw [Except.ok.injEq] at last first
    rw [last, first]
  have lookups (k : Key) : lookup k final.rows = lookup k once.rows := by
    have either : (lookup k final.rows).isSome = true ↔ (lookup k once.rows).isSome = true := by
      rw [isSome_lookup, isSome_lookup, keys k]
    have heq := cells k
    cases left : lookup k final.rows <;> cases right : lookup k once.rows <;>
      simp_all
  refine ⟨perm_of_lookup phase2.nodup onePass.nodup lookups, phase2.nodup, fun k => ?_⟩
  rw [keys k, onePass.keys k, start_keys]

/-- COUNT, MIN, MAX and the bit functions: no run throws but for want of memory, and the two phases
agree with a single pass over the rows in any order exactly if every key is kept by the copy in its
result row. -/
theorem two_phases_agree (q : Query)
    (mergeable : ∀ f ∈ q.fFunctionCols, Mergeable q.cols f = true) :
    (∀ placed groups, ∃ t, aggregate q placed groups = .ok t) ∧
    (∀ env parts, (∀ n, env.memory n = true) → ∃ t, UMP2.aggregate q env parts = .ok t) ∧
    ∀ (batches : List (List (List Row))) (partials : List Table),
      List.Forall₂ (Aggregated q) batches partials →
    ∀ parts : List (Key × List Cell), parts.Perm (partials.flatMap Table.rows) →
    ∀ env final, UMP2.aggregate q env parts = .ok final →
    ∀ groups : List (List Row), groups.flatten.Perm batches.flatten.flatten →
    ∀ once, Aggregated q groups once → (Agrees q groups.flatten final once ↔
        ∀ row ∈ groups.flatten, ∀ i ∈ q.fGroupByCols, Kept (q.cols i) (row i)) := by
  refine ⟨fun placed groups => ?_, fun env parts granted => ?_, ?_⟩
  · rw [aggregate_eq_feed]
    exact feed_returns (fun _ => rfl) fun cells row => (updateEntry_returns mergeable cells).1 row
  · exact feed_returns granted fun cells part => (updateEntry_returns mergeable cells).2 part
  intro batches partials ran parts order env final combined groups all once single
  constructor
  · intro agrees row mem
    rw [← copy_key_iff]
    by_cases none : q.fGroupByCols = []
    · simp [Query.copy, Query.key, none]
    have present : q.key row ∈ final.rows.map Prod.fst := by
      rw [agrees.keys, Query.distinctKey, if_neg none]
      exact ⟨row, mem, rfl⟩
    obtain ⟨part, member, same⟩ := mem_map.mp present
    rw [← same]
    exact copied_rows (ump2_copied combined) part member
  · intro kept
    exact agrees_of_kept (updateEntry_splits mergeable) ran order combined all single
      fun row mem => (copy_key_iff q row).mpr (kept row mem)

/-- COUNT(*) and MIN of an INT column, grouped by one column of four bytes. -/
def countAndMin (type : ColDataType) : Query where
  platform := ⟨fun _ _ => 0, fun _ => 0, fun _ => 0⟩
  cols := fun i => if i = 0 then ⟨type, 4, 0, false⟩ else ⟨.int, 4, 0, false⟩
  fGroupByCols := [0]
  fFunctionCols := [⟨.countAsterisk, 0⟩, ⟨.min, 1⟩]

def keyAndValue (key value : BitVec 64) : Row := fun i => if i = 0 then ⟨key, []⟩ else ⟨value, []⟩

/-- A table of `countAndMin`: the keys with their counts and minima. -/
def countAndMinTable (rows : List (BitVec 64 × BitVec 64 × BitVec 64 × BitVec 64)) : Table :=
  ⟨rows.map fun r => ⟨[⟨r.1, []⟩], [⟨r.2.1, []⟩],
    [⟨⟨r.2.2.1, []⟩, .zero⟩, ⟨⟨r.2.2.2, []⟩, .zero⟩]⟩, rows.length, aggRowGroupSize⟩

/-- Two batches of an INT key; the second has only a NULL value for the key 7. -/
theorem two_phases_agree_int :
    Agrees (countAndMin .int) [keyAndValue 7 5, keyAndValue 9 3, keyAndValue 7 0x80000000]
      (countAndMinTable [(7, 7, 2, 5), (9, 9, 1, 3)])
      (countAndMinTable [(7, 7, 2, 5), (9, 9, 1, 3)]) := by
  refine ((two_phases_agree (countAndMin .int) (by decide)).2.2
    [[[keyAndValue 7 5, keyAndValue 9 3]], [[keyAndValue 7 0x80000000]]]
    [countAndMinTable [(7, 7, 1, 5), (9, 9, 1, 3)], countAndMinTable [(7, 7, 1, 0x80000000)]]
    (.cons ⟨fun _ _ _ => false, by rfl⟩ (.cons ⟨fun _ _ _ => false, by rfl⟩ .nil)) _ (.refl _)
    ⟨fun _ _ _ => false, fun _ => true⟩ _ (by rfl)
    [[keyAndValue 7 5, keyAndValue 9 3, keyAndValue 7 0x80000000]] (.refl _) _
    ⟨fun _ _ _ => false, by rfl⟩).mpr ?_
  intro row _ i mem
  cases List.mem_singleton.mp mem
  trivial

/-- Two rows of one FLOAT key, a NaN: a single pass makes two rows of them, and the key of the
final row is NULL. -/
theorem nan_key_lost : List.Forall₂ (Aggregated (countAndMin .float))
      [[[keyAndValue 0x7FC00000 5, keyAndValue 0x7FC00000 6]]]
      [countAndMinTable [(0xFFAAAAAA, 0x7FC00000, 1, 5), (0xFFAAAAAA, 0x7FC00000, 1, 6)]] ∧
    UMP2.aggregate (countAndMin .float) ⟨fun _ _ _ => false, fun _ => true⟩
      (countAndMinTable [(0xFFAAAAAA, 0x7FC00000, 1, 5), (0xFFAAAAAA, 0x7FC00000, 1, 6)]).rows =
        .ok (countAndMinTable [(0xFFAAAAAA, 0xFFAAAAAA, 2, 5)]) ∧
    ¬ Agrees (countAndMin .float) [keyAndValue 0x7FC00000 5, keyAndValue 0x7FC00000 6]
      (countAndMinTable [(0xFFAAAAAA, 0xFFAAAAAA, 2, 5)])
      (countAndMinTable [(0xFFAAAAAA, 0x7FC00000, 1, 5), (0xFFAAAAAA, 0x7FC00000, 1, 6)]) := by
  refine ⟨.cons ⟨fun _ _ _ => false, by rfl⟩ .nil, by rfl, fun agrees => ?_⟩
  have lengths := agrees.same.length_eq
  cases lengths

end Queries

end RowAggregation
