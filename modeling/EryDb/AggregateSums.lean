import EryDb.AggregateMerging
import EryDb.MarkedSums

/-!
# Exact sums

SUM keeps its running sum in a field whose NULL marker is one of the sums it can reach: a sum equal
to the marker is taken for "no value yet", by the next row, by phase two and by who reads the
result. AVG looks at its count instead, but phase two still leaves out a partial sum that equals
the marker, and it adds partial sums without looking for an overflow.
-/

namespace RowAggregation

open List (append_nil flatten_cons flatten_nil foldlM_cons length_append map_cons map_map
  mem_flatten mem_map)
open BrmTypes GroupFolds MarkedSums

variable {x : Field}

section Values

/-- The columns a sum is exact for. -/
def Integral (c : Column) : Bool :=
  match c.type with
  | .tinyint | .smallint | .medint | .int | .bigint | .decimal | .udecimal
  | .utinyint | .usmallint | .umedint | .uint | .ubigint => true
  | _ => false

/-- The unscaled integer of a field. -/
def value (c : Column) (f : Field) : Int :=
  if isUnsigned c.type then (getUintField c f).toNat else (getIntField c f).toInt

/-- The integers of the fields that are not NULL. -/
def values (c : Column) (fields : List Field) : List Int :=
  (fields.filter fun f => !isNull c f).map (value c)

/-- The NULL marker of a sum, as an integer. -/
def sumMarker (unsigned : Bool) : Int := if unsigned then 2 ^ 64 - 2 else -2 ^ 63

/-- The columns of sums. -/
structure SumColumn (unsigned : Bool) (o : Column) : Prop where
  width : o.width = 8
  type : o.type = if unsigned then .ubigint else .bigint

lemma outColumn_sum {c : Column} (hint : Integral c = true) {func : AggFunction}
    (sums : func = .sum ∨ func = .avg) : SumColumn (isUnsigned c.type) (outColumn c func) := by
  obtain rfl | rfl := sums
  all_goals
    cases type : c.type <;> simp only [Integral, type, Bool.false_eq_true] at hint <;>
      exact ⟨by simp [outColumn, type, isUnsigned], by simp [outColumn, type, isUnsigned]⟩

variable {u : Bool} {o : Column}

variable (sums : SumColumn u o)
include sums

lemma SumColumn.unsigned : isUnsigned o.type = u := by
  rw [sums.type]
  cases u <;> rfl

lemma SumColumn.integral : Integral o = true := by
  unfold Integral
  rw [sums.type]
  cases u <;> rfl

lemma SumColumn.value (f : Field) :
    value o f = if u then (f.word.toNat : Int) else f.word.toInt := by
  rw [RowAggregation.value, sums.unsigned, getUintField_wide sums.width,
    getIntField_wide sums.width]

lemma SumColumn.isNull_iff (f : Field) :
    isNull o f = true ↔ RowAggregation.value o f = sumMarker u := by
  rw [sums.value]
  cases u
  · have type : o.type = .bigint := sums.type
    simp only [isNull, type, getIntField_wide sums.width, decide_eq_true_eq, Bool.false_eq_true,
      if_false, sumMarker, ← BitVec.toInt_inj]
    rfl
  have type : o.type = .ubigint := sums.type
  simp only [isNull, type, getIntField_wide sums.width, decide_eq_true_eq, if_true, sumMarker,
    ← BitVec.toNat_inj]
  have marker : ubigintNull.toNat = 2 ^ 64 - 2 := by decide
  omega

lemma SumColumn.null : RowAggregation.value o (nullField o) = sumMarker u := by
  rw [sums.value]
  cases u
  · have type : o.type = .bigint := sums.type
    simp only [nullField, type, setField_wide sums.width]
    decide
  · have type : o.type = .ubigint := sums.type
    simp only [nullField, type, setField_wide sums.width]
    decide

omit sums

lemma sumMarker_ne (u : Bool) : sumMarker u ≠ 0 := by
  cases u <;> decide

/-- The integers a sum field can hold. -/
def InRange (u : Bool) (x : Int) : Prop :=
  if u then 0 ≤ x ∧ x < 2 ^ 64 else -2 ^ 63 ≤ x ∧ x < 2 ^ 63

lemma value_inRange (c : Column) (f : Field) : InRange (isUnsigned c.type) (value c f) := by
  unfold InRange value
  split
  · have := (getUintField c f).isLt
    omega
  · exact ⟨BitVec.le_toInt (getIntField c f), BitVec.toInt_lt⟩

lemma toInt_adds {a b : BitVec 64} (adds : intAdds a b = true) :
    (a + b).toInt = b.toInt + a.toInt := by
  have low := BitVec.le_toInt a
  have high := @BitVec.toInt_lt 64 a
  have fits := of_decide_eq_true adds
  simp only [int64Max, int64Min] at fits
  rw [BitVec.toInt_add, Int.bmod_eq_of_le (by omega) (by omega)]
  omega

lemma toNat_adds {a b : BitVec 64} (adds : uintAdds a b = true) :
    (a + b).toNat = b.toNat + a.toNat := by
  have fits := of_decide_eq_true adds
  simp only [uint64Max] at fits
  rw [BitVec.toNat_add, Nat.mod_eq_of_lt (by omega)]
  omega

/-- One step of a SUM that does not throw. -/
lemma doSum_value (p : Platform) {c : Column} (hint : Integral c = true)
    (sums : SumColumn (isUnsigned c.type) o) {old new : Field}
    (ran : doMinMaxSum p c o .sum x old = .ok new) : value o new = if isNull c x then value o old
      else restart (sumMarker (isUnsigned c.type)) (value o old) (value c x) := by
  unfold doMinMaxSum at ran
  by_cases null : isNull c x = true
  · rw [if_pos null] at ran ⊢
    cases ran
    rfl
  rw [if_neg null] at ran ⊢
  have signed (unsig : isUnsigned c.type = false)
      (ran : updateIntSum o (getIntField c x) (getIntField o old) old = .ok new) :
      value o new = restart (sumMarker (isUnsigned c.type)) (value o old) (value c x) := by
    rw [unsig] at sums ⊢
    have input : value c x = (getIntField c x).toInt := by simp [value, unsig]
    have reads (v : BitVec 64) : value o (setField o v) = v.toInt := by
      rw [sums.value, setField_wide sums.width]
      rfl
    unfold updateIntSum at ran
    unfold restart
    split_ifs at ran with hem adds
    · cases ran
      rw [if_pos ((sums.isNull_iff old).mp hem), reads, input]
    · cases ran
      rw [if_neg fun he => hem ((sums.isNull_iff old).mpr he), reads, toInt_adds adds, sums.value,
        getIntField_wide sums.width, input]
      rfl
  have unsigned (unsig : isUnsigned c.type = true)
      (ran : updateUintSum o (getUintField c x) (getUintField o old) old = .ok new) :
      value o new = restart (sumMarker (isUnsigned c.type)) (value o old) (value c x) := by
    rw [unsig] at sums ⊢
    have input : value c x = (getUintField c x).toNat := by simp [value, unsig]
    have reads (v : BitVec 64) : value o (setField o v) = v.toNat := by
      rw [sums.value, setField_wide sums.width]
      rfl
    unfold updateUintSum at ran
    unfold restart
    split_ifs at ran with hem adds
    · cases ran
      rw [if_pos ((sums.isNull_iff old).mp hem), reads, input]
    · cases ran
      rw [if_neg fun he => hem ((sums.isNull_iff old).mpr he), reads, toNat_adds adds, sums.value,
        getUintField_wide sums.width, input]
      rfl
  cases type : c.type <;> simp only [Integral, type, Bool.false_eq_true] at hint <;>
    simp only [type, if_true] at ran <;> rw [← type] <;>
    first
    | exact signed (by rw [type]; rfl) ran
    | exact unsigned (by rw [type]; rfl) ran

end Values

variable {cell cell' part : Cell} {colIn : Nat} {parts : List Cell} {vals : List (List Int)}

section Sums

variable {u : Bool} {c o : Column}

/-- The cells of a SUM over fields of one column. -/
def sumFields (p : Platform) (c o : Column) (fields : List Field) (cell : Cell) :
    Except Error Cell :=
  fields.foldlM (fun cell x => do
    let field ← doMinMaxSum p c o .sum x cell.out
    .ok { cell with out := field }) cell

variable (p : Platform)

lemma sumFields_value (hint : Integral c = true) (sums : SumColumn (isUnsigned c.type) o)
    {fields : List Field} (ran : sumFields p c o fields cell = .ok cell') :
    value o cell'.out = (values c fields).foldl
      (restart (sumMarker (isUnsigned c.type))) (value o cell.out) := by
  induction fields generalizing cell with
  | nil =>
    cases ran
    rfl
  | cons x fields ih =>
    rw [sumFields, foldlM_cons] at ran
    obtain ⟨mid, first, rest⟩ := bind_ok.mp ran
    obtain ⟨field, hste, he⟩ := bind_ok.mp first
    cases he
    rw [ih rest, doSum_value p hint sums hste]
    unfold values
    by_cases null : isNull c x = true <;> simp [null]

/-- The values of a sum column are what is not the marker. -/
lemma SumColumn.values_eq (sums : SumColumn u o) (fields : List Field) :
    values o fields = (fields.map (RowAggregation.value o)).filter (· ≠ sumMarker u) := by
  rw [values, List.filter_map]
  refine congrArg (List.map _) (List.filter_congr fun f _ => ?_)
  have null := sums.isNull_iff f
  by_cases marked : RowAggregation.value o f = sumMarker u
  · simp [marked, null.mpr marked]
  · have valued : isNull o f = false := by
      rw [← Bool.not_eq_true, null]
      exact marked
    simp [marked, valued]

variable (cols : Nat → Column)

variable (hint : Integral (cols colIn) = true)
include hint

/-- A batch of a SUM: the running sum of its values. -/
lemma sum_batch {rows : List Row} (ran : Batch (updateCell p cols ⟨.sum, colIn⟩)
      (makeAggFieldsNull (outColumn (cols colIn) .sum) .sum) rows part) :
    value (outColumn (cols colIn) .sum) part.out =
      run (sumMarker (isUnsigned (cols colIn).type))
        (values (cols colIn) (rows.map (· colIn))) := by
  have sums := outColumn_sum hint (Or.inl rfl)
  have hfo : sumFields p (cols colIn) (outColumn (cols colIn) .sum) (rows.map (· colIn))
      (makeAggFieldsNull (outColumn (cols colIn) .sum) .sum) = .ok part := by
    rw [sumFields, List.foldlM_map]
    exact ran
  rw [sumFields_value p hint sums hfo, run]
  exact congrArg (List.foldl _ · _) sums.null

/-- Phase two of a SUM: the running sum of the partial sums that are not the marker. -/
lemma sum_parts (ran : parts.foldlM (UMP2.updateCell p cols ⟨.sum, colIn⟩)
      (makeAggFieldsNull (outColumn (cols colIn) .sum) .sum) = .ok cell) :
    value (outColumn (cols colIn) .sum) cell.out =
      run (sumMarker (isUnsigned (cols colIn).type))
        ((parts.map fun part => value (outColumn (cols colIn) .sum) part.out).filter
          (· ≠ sumMarker (isUnsigned (cols colIn).type))) := by
  have sums := outColumn_sum hint (Or.inl rfl)
  have hfo : sumFields p (outColumn (cols colIn) .sum) (outColumn (cols colIn) .sum)
      (parts.map Cell.out) (makeAggFieldsNull (outColumn (cols colIn) .sum) .sum) = .ok cell := by
    rw [sumFields, List.foldlM_map]
    exact ran
  rw [sumFields_value p sums.integral (by rwa [sums.unsigned]) hfo, sums.unsigned,
    sums.values_eq, map_map]
  exact congrArg (List.foldl _ · _) sums.null

/-- What a SUM should show: NULL without values, else their exact sum. -/
def SumExact (o : Column) (vals : List Int) (cell : Cell) : Prop :=
  if vals = [] then isNull o cell.out = true
  else isNull o cell.out = false ∧ value o cell.out = vals.sum

instance (o : Column) (vals : List Int) (cell : Cell) : Decidable (SumExact o vals cell) :=
  inferInstanceAs (Decidable (if vals = [] then isNull o cell.out = true
    else isNull o cell.out = false ∧ value o cell.out = vals.sum))

/-- A SUM is exact if no running sum, of a batch or of the batches, equals the marker. -/
lemma sum_exact_iff {batches : List (List Row)}
    (first : List.Forall₂ (Batch (updateCell p cols ⟨.sum, colIn⟩)
      (makeAggFieldsNull (outColumn (cols colIn) .sum) .sum)) batches parts)
    (second : parts.foldlM (UMP2.updateCell p cols ⟨.sum, colIn⟩)
      (makeAggFieldsNull (outColumn (cols colIn) .sum) .sum) = .ok cell)
    (values_eq : vals = batches.map fun rows => values (cols colIn) (rows.map (· colIn))) :
    SumExact (outColumn (cols colIn) .sum) vals.flatten cell ↔
      (∀ b ∈ vals, Clear (sumMarker (isUnsigned (cols colIn).type)) b) ∧
        Clear (sumMarker (isUnsigned (cols colIn).type))
          ((vals.filter (· ≠ [])).map List.sum) := by
  have sums := outColumn_sum hint (Or.inl rfl)
  have runs : (parts.map fun part => value (outColumn (cols colIn) .sum) part.out) =
      vals.map (run (sumMarker (isUnsigned (cols colIn).type))) := by
    subst values_eq
    clear second
    induction first with
    | nil => rfl
    | cons head _ ih =>
      rw [map_cons, map_cons, map_cons, ← ih, sum_batch p cols hint head]
  have total := sum_parts p cols hint second
  rw [runs] at total
  rw [← run_parts_iff (sumMarker_ne _), SumExact, ← Bool.not_eq_true, sums.isNull_iff,
    total]
  rfl

end Sums

section Averages

variable {u : Bool} {c o : Column}

/-- The cells of an AVG that has taken in the values `seen`. -/
structure Averaged (o : Column) (seen : List Int) (cell : Cell) : Prop where
  count : cell.aux.word = BitVec.ofNat 64 seen.length
  none : seen = [] → cell.out = nullField o
  sum : seen ≠ [] → value o cell.out = seen.sum

/-- The count tells whether there was a value, as long as it does not wrap. -/
lemma count_eq_zero {n : Nat} {w : BitVec 64} (count : w = BitVec.ofNat 64 n) (hsm : n < 2 ^ 64) :
    w = 0 ↔ n = 0 := by
  rw [count, ← BitVec.toNat_inj, BitVec.toNat_ofNat, Nat.mod_eq_of_lt hsm]
  rfl

lemma Averaged.add {seen : List Int} {v : Int} {sum aux : BitVec 64}
    (hav : Averaged o seen cell) (sums : SumColumn u o)
    (total : value o ⟨sum, []⟩ = if seen = [] then v else value o cell.out + v)
    (count : aux = cell.aux.word + 1) :
    Averaged o (seen ++ [v]) ⟨setField o sum, setField bigintColumn aux⟩ := by
  rw [setField_wide sums.width, setField_wide rfl]
  refine ⟨?_, fun hem => absurd hem (by simp), fun _ => ?_⟩
  · rw [count, hav.count, length_append, BitVec.ofNat_add]
    rfl
  · rw [total, List.sum_append]
    by_cases hem : seen = []
    · simp [hem]
    · simp [hem, hav.sum hem]

/-- A value that an AVG takes in is put in place of the NULL or added without overflow. -/
lemma doAvg_cases (hint : Integral c = true) (sums : SumColumn (isUnsigned c.type) o)
    (valued : isNull c x = false) (ran : doAvg c o x cell = .ok cell') :
    ∃ v : BitVec 64, value o ⟨v, []⟩ = value c x ∧
      ((cell.aux.word = 0 ∧ cell' = ⟨setField o v, setField bigintColumn 1⟩) ∨
        (cell.aux.word ≠ 0 ∧ value o ⟨v + cell.out.word, []⟩ = value o cell.out + value c x ∧
          cell' = ⟨setField o (v + cell.out.word),
            setField bigintColumn (cell.aux.word + 1)⟩)) := by
  simp only [doAvg, valued, Bool.false_eq_true, if_false, getIntField_wide sums.width,
    getIntField_wide (c := bigintColumn) rfl, getUintField_wide sums.width,
    getUintField_wide (c := bigintColumn) rfl] at ran
  cases type : c.type <;> simp only [Integral, type, Bool.false_eq_true] at hint <;>
    simp only [type] at ran sums
  case tinyint | smallint | medint | int | bigint | decimal | udecimal =>
    have input : value c x = (getIntField c x).toInt := by simp [value, type, isUnsigned]
    have reads (f : Field) : value o f = f.word.toInt := sums.value f
    refine ⟨getIntField c x, (reads _).trans input.symm, ?_⟩
    split at ran
    · rename_i none
      cases ran
      exact Or.inl ⟨none, rfl⟩
    rename_i some
    split at ran
    · rename_i adds
      cases ran
      exact Or.inr ⟨some, by rw [reads, reads, input]; exact toInt_adds adds, rfl⟩
    · cases ran
  all_goals
    have input : value c x = (getUintField c x).toNat := by simp [value, type, isUnsigned]
    have reads (f : Field) : value o f = f.word.toNat := sums.value f
    refine ⟨getUintField c x, (reads _).trans input.symm, ?_⟩
    split at ran
    · rename_i none
      cases ran
      exact Or.inl ⟨none, rfl⟩
    rename_i some
    split at ran
    · rename_i adds
      cases ran
      refine Or.inr ⟨some, ?_, rfl⟩
      rw [reads, reads, input]
      exact_mod_cast toNat_adds adds
    · cases ran

lemma doAvg_averaged (hint : Integral c = true) (sums : SumColumn (isUnsigned c.type) o)
    {seen : List Int} (ran : doAvg c o x cell = .ok cell') (hav : Averaged o seen cell)
    (hsm : seen.length < 2 ^ 64) :
    Averaged o (if isNull c x then seen else seen ++ [value c x]) cell' := by
  by_cases null : isNull c x = true
  · rw [doAvg, if_pos null] at ran
    cases ran
    rwa [if_pos null]
  have fresh : cell.aux.word = 0 ↔ seen = [] :=
    (count_eq_zero hav.count hsm).trans List.length_eq_zero_iff
  rw [if_neg null]
  obtain ⟨v, input, ⟨none, rfl⟩ | ⟨some, added, rfl⟩⟩ :=
    doAvg_cases hint sums (by simpa using null) ran
  · refine hav.add sums ?_ (by rw [none]; rfl)
    rw [input, if_pos (fresh.mp none)]
  · refine hav.add sums ?_ rfl
    rw [added, if_neg fun hem => some (fresh.mpr hem)]

variable (p : Platform) (cols : Nat → Column)

/-- A batch of an AVG: the exact sum and number of its values. -/
lemma avg_batch (hint : Integral (cols colIn) = true) {rows : List Row}
    (ran : Batch (updateCell p cols ⟨.avg, colIn⟩)
      (makeAggFieldsNull (outColumn (cols colIn) .avg) .avg) rows part)
    (hsm : (values (cols colIn) (rows.map (· colIn))).length < 2 ^ 64) :
    Averaged (outColumn (cols colIn) .avg) (values (cols colIn) (rows.map (· colIn))) part := by
  have sums := outColumn_sum hint (Or.inr rfl)
  have general : ∀ (rows : List Row) (seen : List Int) (cell : Cell),
      rows.foldlM (updateCell p cols ⟨.avg, colIn⟩) cell = .ok part →
      Averaged (outColumn (cols colIn) .avg) seen cell →
      (seen ++ values (cols colIn) (rows.map (· colIn))).length < 2 ^ 64 →
      Averaged (outColumn (cols colIn) .avg)
        (seen ++ values (cols colIn) (rows.map (· colIn))) part := by
    intro rows
    induction rows with
    | nil =>
      intro seen cell ran hav _
      cases ran
      simpa [values] using hav
    | cons row rows ih =>
      intro seen cell ran hav hsm
      rw [foldlM_cons] at ran
      obtain ⟨mid, first, rest⟩ := bind_ok.mp ran
      have split : seen ++ values (cols colIn) ((row :: rows).map (· colIn)) =
          (if isNull (cols colIn) (row colIn) then seen
            else seen ++ [value (cols colIn) (row colIn)]) ++
            values (cols colIn) (rows.map (· colIn)) := by
        unfold values
        by_cases null : isNull (cols colIn) (row colIn) = true <;> simp [null]
      have hfe : seen.length < 2 ^ 64 := by
        rw [length_append] at hsm
        omega
      rw [split] at hsm ⊢
      exact ih _ mid rest (doAvg_averaged hint sums first hav hfe) hsm
  exact general rows [] _ ran ⟨rfl, fun _ => rfl, fun none => absurd rfl none⟩ hsm

/-- The batches phase two takes in: a batch has values, and they do not sum to the marker. -/
def takes (m : Int) (b : List Int) : Bool := b ≠ [] ∧ b.sum ≠ m

/-- The cells of phase two after the batches `taken`. -/
structure Totalled (o : Column) (taken : List (List Int)) (cell : Cell) : Prop where
  count : cell.aux.word = BitVec.ofNat 64 taken.flatten.length
  none : taken = [] → cell.out = nullField o
  sum : taken ≠ [] → cell.out.word = BitVec.ofInt 64 taken.flatten.sum
  valued : ∀ b ∈ taken, b ≠ []

lemma SumColumn.word (sums : SumColumn u o) (f : Field) :
    f.word = BitVec.ofInt 64 (RowAggregation.value o f) := by
  rw [sums.value]
  cases u
  · exact BitVec.ofInt_toInt.symm
  · simp

/-- A partial pair is left out, put in place of the NULL, or added with wrap-around. -/
lemma ump2_doAvg_cases (sums : SumColumn u o) (ran : UMP2.doAvg o part cell = .ok cell') :
    (isNull o part.out = true ∧ cell' = cell) ∨ (isNull o part.out = false ∧
        ((cell.aux.word = 0 ∧ cell' = ⟨⟨part.out.word, []⟩, ⟨part.aux.word, []⟩⟩) ∨
          (cell.aux.word ≠ 0 ∧ cell' = ⟨⟨part.out.word + cell.out.word, []⟩,
            ⟨part.aux.word + cell.aux.word, []⟩⟩))) := by
  cases null : isNull o part.out with
  | true =>
    rw [UMP2.doAvg, if_pos null] at ran
    cases ran
    exact Or.inl ⟨rfl, rfl⟩
  | false =>
    refine Or.inr ⟨rfl, ?_⟩
    simp only [UMP2.doAvg, null, Bool.false_eq_true, if_false, getIntField_wide sums.width,
      getIntField_wide (c := bigintColumn) rfl, getUintField_wide sums.width,
      getUintField_wide (c := bigintColumn) rfl, setField_wide sums.width,
      setField_wide (c := bigintColumn) rfl, sums.type] at ran
    cases u <;> simp only [Bool.false_eq_true, if_false, if_true] at ran <;>
      split at ran <;> cases ran
    all_goals first
      | exact Or.inl ⟨by assumption, rfl⟩
      | exact Or.inr ⟨by assumption, rfl⟩

lemma Totalled.step (sums : SumColumn u o) {b : List Int} {taken : List (List Int)}
    (ran : UMP2.doAvg o part cell = .ok cell') (hav : Averaged o b part)
    (total : Totalled o taken cell) (hsm : taken.flatten.length < 2 ^ 64) :
    Totalled o (if takes (sumMarker u) b then taken ++ [b] else taken) cell' := by
  have marked : isNull o part.out = true ↔ takes (sumMarker u) b = false := by
    rw [sums.isNull_iff]
    by_cases hem : b = []
    · simp [takes, hem, hav.none hem, sums.null]
    · simp [takes, hem, hav.sum hem]
  have fresh : cell.aux.word = 0 ↔ taken = [] := by
    rw [count_eq_zero total.count hsm, List.length_eq_zero_iff, List.flatten_eq_nil_iff]
    constructor
    · intro all
      cases taken with
      | nil => rfl
      | cons b' rest =>
        exact absurd (all b' List.mem_cons_self) (total.valued b' List.mem_cons_self)
    · rintro rfl
      simp
  obtain ⟨null, rfl⟩ | ⟨value, cases⟩ := ump2_doAvg_cases sums ran
  · rwa [marked.mp null, if_neg (by simp)]
  have taking : takes (sumMarker u) b = true := by
    rw [← Bool.not_eq_false, ← marked, value]
    simp
  have valued : b ≠ [] := fun hem => by simp [takes, hem] at taking
  have word : part.out.word = BitVec.ofInt 64 b.sum := by
    rw [sums.word, hav.sum valued]
  have all : ∀ b' ∈ taken ++ [b], b' ≠ [] := by
    intro b' mem
    obtain mem | rfl := (List.mem_append.mp mem).imp_right List.mem_singleton.mp
    · exact total.valued b' mem
    · exact valued
  rw [if_pos taking]
  obtain ⟨zero, rfl⟩ | ⟨some, rfl⟩ := cases
  · have none := fresh.mp zero
    subst none
    exact ⟨by simpa using hav.count, by simp, by simpa using word, all⟩
  refine ⟨?_, by simp, fun _ => ?_, all⟩
  · simp only [hav.count, total.count, List.flatten_append, length_append,
      BitVec.ofNat_add, flatten_cons, flatten_nil, append_nil]
    rw [BitVec.add_comm]
  · have old := total.sum fun none => some (fresh.mpr none)
    simp only [word, old, List.flatten_append, List.sum_append, flatten_cons,
      flatten_nil, append_nil, BitVec.ofInt_add]
    rw [BitVec.add_comm]

lemma avg_parts (hint : Integral (cols colIn) = true)
    (first : List.Forall₂ (Averaged (outColumn (cols colIn) .avg)) vals parts)
    (second : parts.foldlM (UMP2.updateCell p cols ⟨.avg, colIn⟩)
      (makeAggFieldsNull (outColumn (cols colIn) .avg) .avg) = .ok cell)
    (hsm : vals.flatten.length < 2 ^ 64) : Totalled (outColumn (cols colIn) .avg)
      (vals.filter (takes (sumMarker (isUnsigned (cols colIn).type)))) cell := by
  have sums := outColumn_sum hint (Or.inr rfl)
  have general : ∀ (taken : List (List Int)) (start : Cell),
      parts.foldlM (UMP2.updateCell p cols ⟨.avg, colIn⟩) start = .ok cell →
      Totalled (outColumn (cols colIn) .avg) taken start →
      taken.flatten.length + vals.flatten.length < 2 ^ 64 →
      Totalled (outColumn (cols colIn) .avg)
        (taken ++ vals.filter (takes (sumMarker (isUnsigned (cols colIn).type)))) cell := by
    clear second hsm
    induction first with
    | nil =>
      intro taken start ran total _
      cases ran
      simpa using total
    | @cons b part vals parts head _ ih =>
      intro taken start ran total hsm
      rw [foldlM_cons] at ran
      obtain ⟨mid, hste, rest⟩ := bind_ok.mp ran
      rw [flatten_cons, length_append] at hsm
      have next := total.step sums hste head (by omega)
      split_ifs at next with taking
      · rw [List.filter_cons_of_pos taking]
        have longer : (taken ++ [b]).flatten.length = taken.flatten.length + b.length := by
          simp only [List.flatten_append, flatten_cons, flatten_nil, append_nil, length_append]
        have rest_total := ih (taken ++ [b]) mid rest next (by omega)
        rwa [List.append_assoc] at rest_total
      · rw [List.filter_cons_of_neg taking]
        exact ih taken mid rest next (by omega)
  exact general [] _ second ⟨rfl, fun _ => rfl, fun none => absurd rfl none, by simp⟩
    (by simpa using hsm)

/-- What an AVG should keep: the number of the values, and their exact sum. -/
def AvgExact (o : Column) (vals : List Int) (cell : Cell) : Prop :=
  (getIntField bigintColumn cell.aux).toInt = vals.length ∧
    if vals = [] then isNull o cell.out = true else value o cell.out = vals.sum

instance (o : Column) (vals : List Int) (cell : Cell) : Decidable (AvgExact o vals cell) :=
  inferInstanceAs (Decidable ((getIntField bigintColumn cell.aux).toInt = vals.length ∧
    if vals = [] then isNull o cell.out = true else value o cell.out = vals.sum))

/-- The batches left out are those without values exactly if all values are counted. -/
lemma length_taken_iff {m : Int} (vals : List (List Int)) :
    (vals.filter (takes m)).flatten.length = vals.flatten.length ↔
      ∀ b ∈ vals, b ≠ [] → b.sum ≠ m := by
  have hfe : ∀ vals : List (List Int),
      (vals.filter (takes m)).flatten.length ≤ vals.flatten.length := by
    intro vals
    exact (List.filter_sublist.flatten).length_le
  induction vals with
  | nil => simp
  | cons b vals ih =>
    have rest := hfe vals
    rw [List.forall_mem_cons, flatten_cons, length_append]
    refine Iff.trans ?_ (and_congr_right fun _ => ih)
    by_cases taking : takes m b = true
    · rw [List.filter_cons_of_pos taking, flatten_cons, length_append]
      have both := of_decide_eq_true taking
      constructor
      · intro he
        exact ⟨fun _ => both.2, by omega⟩
      · intro all
        omega
    · rw [List.filter_cons_of_neg taking]
      have hsk : b = [] ∨ b.sum = m := by
        simpa [takes, or_iff_not_imp_left] using taking
      by_cases hem : b = []
      · simp [hem]
      have marked := hsk.resolve_left hem
      have some := List.length_pos_iff.mpr hem
      constructor
      · intro he
        omega
      · intro all
        exact absurd marked (all.1 hem)

lemma flatten_taken {m : Int} (all : ∀ b ∈ vals, b ≠ [] → b.sum ≠ m) :
    (vals.filter (takes m)).flatten = vals.flatten :=
  (List.filter_sublist.flatten).eq_of_length ((length_taken_iff vals).mpr all)

/-- The word of an integer reads as the integer exactly if it is in range. -/
lemma SumColumn.value_ofInt (sums : SumColumn u o) {f : Field} {x : Int}
    (word : f.word = BitVec.ofInt 64 x) : RowAggregation.value o f = x ↔ InRange u x := by
  constructor
  · intro he
    have range := value_inRange o f
    rwa [sums.unsigned, he] at range
  intro range
  rw [sums.value, word]
  cases u
  · have bounds : -2 ^ 63 ≤ x ∧ x < 2 ^ 63 := range
    rw [if_neg (by simp), BitVec.toInt_ofInt, Int.bmod_eq_of_le (by omega) (by omega)]
  · have bounds : 0 ≤ x ∧ x < 2 ^ 64 := range
    rw [if_pos rfl, BitVec.toNat_ofInt]
    omega

lemma avg_exact_iff (hint : Integral (cols colIn) = true) {batches : List (List Row)}
    (first : List.Forall₂ (Batch (updateCell p cols ⟨.avg, colIn⟩)
      (makeAggFieldsNull (outColumn (cols colIn) .avg) .avg)) batches parts)
    (second : parts.foldlM (UMP2.updateCell p cols ⟨.avg, colIn⟩)
      (makeAggFieldsNull (outColumn (cols colIn) .avg) .avg) = .ok cell)
    (values_eq : vals = batches.map fun rows => values (cols colIn) (rows.map (· colIn))) :
    AvgExact (outColumn (cols colIn) .avg) vals.flatten cell ↔ vals.flatten.length < 2 ^ 63 ∧
        (∀ b ∈ vals, b ≠ [] → b.sum ≠ sumMarker (isUnsigned (cols colIn).type)) ∧
        InRange (isUnsigned (cols colIn).type) vals.flatten.sum := by
  have sums := outColumn_sum hint (Or.inr rfl)
  by_cases hsm : vals.flatten.length < 2 ^ 63
  · have hav : List.Forall₂ (Averaged (outColumn (cols colIn) .avg)) vals parts := by
      subst values_eq
      clear second
      induction first with
      | nil => exact .nil
      | cons head _ ih =>
        rw [map_cons, flatten_cons, length_append] at hsm
        exact .cons (avg_batch p cols hint head (by omega)) (ih (by omega))
    have total := avg_parts p cols hint hav second (by omega)
    have counted : (getIntField bigintColumn cell.aux).toInt =
        (vals.filter (takes (sumMarker (isUnsigned (cols colIn).type)))).flatten.length := by
      have hfe : (vals.filter (takes (sumMarker (isUnsigned (cols colIn).type)))).flatten.length ≤
          vals.flatten.length := (List.filter_sublist.flatten).length_le
      rw [getIntField_wide rfl, total.count, BitVec.toInt_eq_toNat_bmod, BitVec.toNat_ofNat,
        Nat.mod_eq_of_lt (by omega), Int.bmod_eq_of_le (by omega) (by omega)]
    rw [AvgExact, counted, Int.natCast_inj, length_taken_iff]
    simp only [hsm, true_and]
    refine and_congr_right fun all => ?_
    split_ifs with hem
    · have none : vals.filter (takes (sumMarker (isUnsigned (cols colIn).type))) = [] := by
        refine List.filter_eq_nil_iff.mpr fun b mem => ?_
        simp [takes, List.flatten_eq_nil_iff.mp hem b mem]
      rw [total.none none, hem, sums.isNull_iff, sums.null]
      cases isUnsigned (cols colIn).type <;> simp [InRange]
    have some : vals.filter (takes (sumMarker (isUnsigned (cols colIn).type))) ≠ [] := by
      intro none
      rw [← flatten_taken all, none] at hem
      exact hem rfl
    have word := total.sum some
    rw [flatten_taken all] at word
    exact sums.value_ofInt word
  · refine ⟨fun exact_ => ?_, fun all => absurd all.1 hsm⟩
    have bound := @BitVec.toInt_lt 64 (getIntField bigintColumn cell.aux)
    rw [exact_.1] at bound
    omega

end Averages

section Groups

variable {q : Query} {batches : List (List (List Row))} {partials : List Table} {env : Setting}
  {final : Table}

/-- The values of a function's column in a group, batch by batch. -/
def groupValues (q : Query) (f : FunctionCol) (batches : List (List (List Row))) (k : Key) :
    List (List Int) :=
  batches.map fun b => values (q.cols f.colIn)
    ((b.flatten.filter fun row => q.key row = k).map (· f.colIn))

lemma rowsOf_keyed (q : Query) (rows : List Row) (k : Key) :
    rowsOf k (keyed q rows) = rows.filter fun row => q.key row = k := by
  rw [rowsOf, keyed, List.filter_map, map_map]
  exact List.map_id'' (fun _ => rfl) _

lemma filter_map_values (g : List Row → List Int) (none : g [] = []) (l : List (List Row)) :
    (l.map g).filter (· ≠ []) = ((l.filter (!·.isEmpty)).map g).filter (· ≠ []) := by
  induction l with
  | nil => rfl
  | cons rows l ih =>
    cases rows with
    | nil => simpa [none] using ih
    | cons row rows =>
      simp only [map_cons, List.filter_cons, ih, List.isEmpty_cons, Bool.not_false, if_true]

/-- A function's cell in the final row of a key, from the batches that have the key. -/
lemma function_of_key (ran : List.Forall₂ (Aggregated q) batches partials)
    (combined : UMP2.aggregate q env (partials.flatMap Table.rows) = .ok final)
    (kept : ∀ row ∈ batches.flatten.flatten, q.copy (q.key row) = q.key row) (k : Key)
    {j : Nat} {f : FunctionCol} (hasFunction : q.fFunctionCols[j]? = some f) :
    ∃ sel parts cell, List.Forall₂ (Batch (updateCell q.platform q.cols f)
        (makeAggFieldsNull (outColumn (q.cols f.colIn) f.func) f.func)) sel parts ∧
      parts.foldlM (UMP2.updateCell q.platform q.cols f)
        (makeAggFieldsNull (outColumn (q.cols f.colIn) f.func) f.func) = .ok cell ∧
      ((lookup k final.rows).getD q.nullRow)[j]? = some cell ∧
      (sel.map fun rows => values (q.cols f.colIn) (rows.map (· f.colIn))).filter (· ≠ []) =
        (groupValues q f batches k).filter (· ≠ []) := by
  have phase1 := batches_grouped ran kept
  have phase2 := ump2_grouped combined (partials_copied ran)
  obtain ⟨sel, rows, batch, rows_eq, he⟩ := batches_of_key phase1 k
  have start : q.nullRow[j]? =
      some (makeAggFieldsNull (outColumn (q.cols f.colIn) f.func) f.func) := by
    simp [Query.nullRow, hasFunction]
  have step : (q.fFunctionCols.map (updateCell q.platform q.cols))[j]? =
      some (updateCell q.platform q.cols f) := by
    simp [hasFunction]
  have step' : (q.fFunctionCols.map (UMP2.updateCell q.platform q.cols))[j]? =
      some (UMP2.updateCell q.platform q.cols f) := by
    simp [hasFunction]
  have split : (∀ row ∈ rows, row.length = q.fFunctionCols.length) ∧
      List.Forall₂ (Batch (updateCell q.platform q.cols f)
        (makeAggFieldsNull (outColumn (q.cols f.colIn) f.func) f.func)) sel
        (rows.filterMap (·[j]?)) := by
    clear rows_eq he
    induction batch with
    | nil => exact ⟨by simp, .nil⟩
    | cons head _ ih =>
      have full := length_along head (by simp [Query.nullRow])
      obtain ⟨t, hf, hfo⟩ := foldlM_along_get head step start
      refine ⟨List.forall_mem_cons.mpr ⟨by simpa using full, ih.1⟩, ?_⟩
      simp only [List.filterMap_cons, hf]
      exact .cons hfo ih.2
  have fold := phase2.folds k
  rw [rows_eq] at fold
  obtain ⟨cell, hf, hfo⟩ := foldlM_alongRow_get fold (by simpa using split.1) step' start
  refine ⟨sel, _, cell, split.2, hfo, hf, ?_⟩
  rw [filter_map_values _ rfl, he, ← filter_map_values _ rfl, map_map, map_map]
  refine congrArg (List.filter _) (List.map_congr_left fun b _ => ?_)
  simp only [Function.comp_apply, rowsOf_keyed]

/-- What matters of the values, batch by batch, is in the batches that have some. -/
lemma flatten_of_filter {vals' : List (List Int)}
    (he : vals.filter (· ≠ []) = vals'.filter (· ≠ [])) : vals.flatten = vals'.flatten := by
  rw [← List.flatten_filter_ne_nil, he, List.flatten_filter_ne_nil]

lemma forall_of_filter {P : List Int → Prop} (none : P []) {vals' : List (List Int)}
    (he : vals.filter (· ≠ []) = vals'.filter (· ≠ [])) : (∀ b ∈ vals, P b) ↔ ∀ b ∈ vals', P b := by
  have drop (l : List (List Int)) : (∀ b ∈ l.filter (· ≠ []), P b) ↔ ∀ b ∈ l, P b := by
    simp only [List.mem_filter, decide_eq_true_eq]
    constructor
    · intro all b mem
      by_cases hem : b = []
      · exact hem ▸ none
      · exact all b ⟨mem, hem⟩
    · exact fun all b both => all b both.1
  rw [← drop vals, he, drop]

/-- No running sum of a group equals the marker, in a batch or over the batches. -/
def SumsClear (unsigned : Bool) (vals : List (List Int)) : Prop :=
  (∀ b ∈ vals, Clear (sumMarker unsigned) b) ∧
    Clear (sumMarker unsigned) ((vals.filter (· ≠ [])).map List.sum)

/-- No batch of a group sums to the marker, and the whole group does not overflow. -/
def AveragesFit (unsigned : Bool) (vals : List (List Int)) : Prop :=
  vals.flatten.length < 2 ^ 63 ∧ (∀ b ∈ vals, b ≠ [] → b.sum ≠ sumMarker unsigned) ∧
    InRange unsigned vals.flatten.sum

/-- SUM and AVG of an integer or decimal column, in the cells of one group. -/
def CellExact (q : Query) (f : FunctionCol) (vals : List Int) (cell : Cell) : Prop :=
  (f.func = .sum → SumExact (outColumn (q.cols f.colIn) .sum) vals cell) ∧
    (f.func = .avg → AvgExact (outColumn (q.cols f.colIn) .avg) vals cell)

def Exact (q : Query) (f : FunctionCol) (vals : List (List Int)) : Prop :=
  (f.func = .sum → SumsClear (isUnsigned (q.cols f.colIn).type) vals) ∧
    (f.func = .avg → AveragesFit (isUnsigned (q.cols f.colIn).type) vals)

/-- Every group has its row, and SUM and AVG are exact in it. -/
def SumsExact (q : Query) (batches : List (List (List Row))) (final : Table) : Prop :=
  ∀ k, q.distinctKey batches.flatten.flatten k → ∃ cells, lookup k final.rows = some cells ∧
    ∀ (j : Nat) (f : FunctionCol), q.fFunctionCols[j]? = some f → Integral (q.cols f.colIn) = true →
      ∃ cell, cells[j]? = some cell ∧ CellExact q f (groupValues q f batches k).flatten cell

lemma cell_exact_iff (ran : List.Forall₂ (Aggregated q) batches partials)
    (combined : UMP2.aggregate q env (partials.flatMap Table.rows) = .ok final)
    (kept : ∀ row ∈ batches.flatten.flatten, q.copy (q.key row) = q.key row) (k : Key)
    {j : Nat} {f : FunctionCol} (hasFunction : q.fFunctionCols[j]? = some f)
    (hint : Integral (q.cols f.colIn) = true) :
    ∃ cell, ((lookup k final.rows).getD q.nullRow)[j]? = some cell ∧
      (CellExact q f (groupValues q f batches k).flatten cell ↔
        Exact q f (groupValues q f batches k)) := by
  obtain ⟨sel, parts, cell, first, second, hf, he⟩ :=
    function_of_key ran combined kept k hasFunction
  refine ⟨cell, hf, ?_⟩
  obtain ⟨func, colIn⟩ := f
  rw [← flatten_of_filter he]
  refine and_congr (forall_congr' fun isSum => ?_) (forall_congr' fun isAvg => ?_)
  · cases isSum
    rw [sum_exact_iff q.platform q.cols hint first second rfl, SumsClear,
      forall_of_filter clear_nil he, he]
  · cases isAvg
    rw [avg_exact_iff q.platform q.cols hint first second rfl, AveragesFit, flatten_of_filter he]
    refine and_congr_right fun _ => and_congr_left fun _ => ?_
    exact forall_of_filter (fun none => absurd rfl none) he

/-- A group that does not exist has no values. -/
lemma groupValues_absent {k : Key} (hab : ¬ q.distinctKey batches.flatten.flatten k)
    (f : FunctionCol) : ∀ b ∈ groupValues q f batches k, b = [] := by
  intro b mem
  obtain ⟨batch, hm, rfl⟩ := mem_map.mp mem
  have none : batch.flatten.filter (fun row => q.key row = k) = [] := by
    refine List.filter_eq_nil_iff.mpr fun row inBatch => ?_
    simp only [decide_eq_true_eq]
    intro hh
    refine hab ?_
    unfold Query.distinctKey
    split
    · rename_i noKeys
      rw [← hh, Query.key, noKeys]
      rfl
    · exact ⟨row, mem_flatten.mpr (by
        obtain ⟨group, inGroup, hi⟩ := mem_flatten.mp inBatch
        exact ⟨group, mem_flatten.mpr ⟨batch, hm, inGroup⟩, hi⟩), hh⟩
  rw [none]
  rfl

lemma exact_of_absent (hab : ∀ b ∈ vals, b = []) (f : FunctionCol) : Exact q f vals := by
  have hem : vals.flatten = [] := List.flatten_eq_nil_iff.mpr hab
  have none : vals.filter (· ≠ []) = [] :=
    List.filter_eq_nil_iff.mpr fun b mem => by simpa using hab b mem
  refine ⟨fun _ => ⟨fun b mem => hab b mem ▸ clear_nil, ?_⟩, fun _ => ⟨?_, ?_, ?_⟩⟩
  · rw [none]
    exact clear_nil
  · rw [hem]
    decide
  · exact fun b mem some => absurd (hab b mem) some
  · rw [hem]
    cases isUnsigned (q.cols f.colIn).type <;> simp [InRange]

/-- In runs that do not throw, every group's SUM and AVG are exact if and only if every key is kept
by the copy in its result row, no running sum equals the marker of its column, and no average
overflows. -/
theorem sums_exact_iff (ran : List.Forall₂ (Aggregated q) batches partials)
    (combined : UMP2.aggregate q env (partials.flatMap Table.rows) = .ok final) :
    SumsExact q batches final ↔
      (∀ row ∈ batches.flatten.flatten, ∀ i ∈ q.fGroupByCols, Kept (q.cols i) (row i)) ∧
        ∀ f ∈ q.fFunctionCols, Integral (q.cols f.colIn) = true →
          ∀ k, Exact q f (groupValues q f batches k) := by
  constructor
  · intro sums
    have kept : ∀ row ∈ batches.flatten.flatten, q.copy (q.key row) = q.key row := by
      intro row mem
      by_cases none : q.fGroupByCols = []
      · simp [Query.copy, Query.key, none]
      have group : q.distinctKey batches.flatten.flatten (q.key row) := by
        rw [Query.distinctKey, if_neg none]
        exact ⟨row, mem, rfl⟩
      obtain ⟨cells, found, -⟩ := sums _ group
      have present := isSome_lookup.mp (Option.isSome_of_eq_some found)
      obtain ⟨part, member, same⟩ := mem_map.mp present
      rw [← same]
      exact copied_rows (ump2_copied combined) part member
    refine ⟨fun row mem => (copy_key_iff q row).mp (kept row mem), fun f mem integral k => ?_⟩
    obtain ⟨j, hasFunction⟩ := List.mem_iff_getElem?.mp mem
    by_cases group : q.distinctKey batches.flatten.flatten k
    · obtain ⟨cells, found, all⟩ := sums k group
      obtain ⟨cell, here, exactCell⟩ := all j f hasFunction integral
      obtain ⟨cell', here', iff⟩ := cell_exact_iff ran combined kept k hasFunction integral
      rw [found, Option.getD_some, here, Option.some.injEq] at here'
      exact iff.mp (here' ▸ exactCell)
    · exact exact_of_absent (groupValues_absent group f) f
  · rintro ⟨keptKeys, exactAll⟩ k group
    have kept : ∀ row ∈ batches.flatten.flatten, q.copy (q.key row) = q.key row :=
      fun row mem => (copy_key_iff q row).mpr (keptKeys row mem)
    have phase2 := ump2_grouped combined (partials_copied ran)
    have present : k ∈ final.rows.map Prod.fst := by
      rw [phase2.keys k, partial_keys (batches_grouped ran kept) k, keyed_batches, start_keys]
      exact group
    obtain ⟨cells, found⟩ := Option.isSome_iff_exists.mp (isSome_lookup.mpr present)
    refine ⟨cells, found, fun j f hasFunction integral => ?_⟩
    obtain ⟨cell, here, iff⟩ := cell_exact_iff ran combined kept k hasFunction integral
    rw [found, Option.getD_some] at here
    exact ⟨cell, here, iff.mpr (exactAll f (List.mem_of_getElem? hasFunction) integral k)⟩

/-- One function of a BIGINT column, without GROUP BY. -/
def ofBigint (func : AggFunction) : Query where
  platform := ⟨fun _ _ => 0, fun _ => 0, fun _ => 0⟩
  cols := fun _ => ⟨.bigint, 8, 0, false⟩
  fGroupByCols := []
  fFunctionCols := [⟨func, 0⟩]

def bigintRow (v : BitVec 64) : Row := fun _ => ⟨v, []⟩

def ofBigintTable (out aux : BitVec 64) : Table :=
  ⟨[⟨[], [], [⟨⟨out, []⟩, ⟨aux, []⟩⟩]⟩], 0, aggRowGroupSize⟩

theorem sums_exact_three_four :
    SumsExact (ofBigint .sum) [[[bigintRow 3]], [[bigintRow 4]]] (ofBigintTable 7 0) := by
  refine (@sums_exact_iff (ofBigint .sum) [[[bigintRow 3]], [[bigintRow 4]]]
    [ofBigintTable 3 0, ofBigintTable 4 0] ⟨fun _ _ _ => false, fun _ => true⟩ (ofBigintTable 7 0)
    (.cons ⟨fun _ _ _ => false, by rfl⟩ (.cons ⟨fun _ _ _ => false, by rfl⟩ .nil)) (by rfl)).mpr ?_
  refine ⟨fun row _ i mem => absurd mem List.not_mem_nil, fun f mem _ k => ?_⟩
  cases List.mem_singleton.mp mem
  by_cases whole : k = []
  · subst whole
    have vals : groupValues (ofBigint .sum) ⟨.sum, 0⟩ [[[bigintRow 3]], [[bigintRow 4]]] [] =
        [[3], [4]] := by decide
    rw [vals]
    refine ⟨fun _ => ⟨?_, ?_⟩, fun other => by cases other⟩
    · intro b mem
      have positive : ∀ v ∈ b, 0 ≤ v := by
        intro v inside
        simp only [List.mem_cons, List.not_mem_nil, or_false] at mem
        obtain rfl | rfl := mem <;> simp_all
      exact clear_of_nonneg (by decide) positive
    · exact clear_of_nonneg (by decide) (by decide)
  · refine exact_of_absent (groupValues_absent ?_ _) _
    exact whole

/-- A sum that passes the marker loses it, and an average that overflows wraps around. -/
theorem sum_lost_at_marker : (List.Forall₂ (Aggregated (ofBigint .sum))
        [[[bigintRow 0xC000000000000000, bigintRow 0xC000000000000000, bigintRow 5]]]
        [ofBigintTable 5 0] ∧
      UMP2.aggregate (ofBigint .sum) ⟨fun _ _ _ => false, fun _ => true⟩ (ofBigintTable 5 0).rows =
        .ok (ofBigintTable 5 0) ∧
      ¬ SumsExact (ofBigint .sum)
        [[[bigintRow 0xC000000000000000, bigintRow 0xC000000000000000, bigintRow 5]]]
        (ofBigintTable 5 0)) ∧
    List.Forall₂ (Aggregated (ofBigint .avg)) [[[bigintRow 0x7FFFFFFFFFFFFFFF]], [[bigintRow 1]]]
        [ofBigintTable 0x7FFFFFFFFFFFFFFF 1, ofBigintTable 1 1] ∧
      UMP2.aggregate (ofBigint .avg) ⟨fun _ _ _ => false, fun _ => true⟩
        ((ofBigintTable 0x7FFFFFFFFFFFFFFF 1).rows ++ (ofBigintTable 1 1).rows) =
        .ok (ofBigintTable 0x8000000000000000 2) ∧
      ¬ SumsExact (ofBigint .avg) [[[bigintRow 0x7FFFFFFFFFFFFFFF]], [[bigintRow 1]]]
        (ofBigintTable 0x8000000000000000 2) := by
  refine ⟨⟨.cons ⟨fun _ _ _ => false, by rfl⟩ .nil, by rfl, fun sums => ?_⟩,
    .cons ⟨fun _ _ _ => false, by rfl⟩ (.cons ⟨fun _ _ _ => false, by rfl⟩ .nil), by rfl,
    fun sums => ?_⟩
  all_goals
    obtain ⟨cells, found, all⟩ := sums [] rfl
    cases found
    obtain ⟨cell, here, exactSum, exactAvg⟩ := all 0 _ rfl rfl
    cases here
  · exact absurd (exactSum rfl) (by decide)
  · exact absurd (exactAvg rfl) (by decide)

end Groups

end RowAggregation
