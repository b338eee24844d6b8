import Mathlib.Data.Finset.Max
import EryDb.BrmTypes
import EryDb.RunningRange

/-!
# Ranges of the extents of a bulk load

While a column is loaded, `ColExtInf` keeps for each extent the range of the values parsed so
far, under the last input row of the extent. The parser reports a range for every batch of
rows. The lowest signed value marks an entry that has no range yet; an unsigned column has
that bit pattern as an ordinary value in the middle of its order. The bounds of a string column
are reported with their bytes reversed, so that they are ordered as unsigned numbers, but they
are compared as signed ones.
-/

namespace LoadRanges

open BrmTypes RunningRange

def llongMin : Int := -2 ^ 63

def invalidLbid : Int := 0xFFFFFFFFF

structure ColExtInfEntry where
  fLbid : Int
  fMinVal : Int
  fMaxVal : Int
  fNewExtent : Bool

structure ColExtInf where
  fMap : Nat → Option ColExtInfEntry
  fPendingExtentRows : Finset Nat

def empty : ColExtInf := ⟨fun _ => none, ∅⟩

/-- The order of the values of a type; strings are ordered by their bytes. -/
def order (type : ColDataType) (v : Int) : Int :=
  if isUnsigned type ∨ isCharType type then toU64 v else v

/-- What `addOrUpdateEntry` compares. -/
def compared (type : ColDataType) (v : Int) : Int := if isUnsigned type then toU64 v else v

def ColExtInfEntry.range (e : ColExtInfEntry) : Range Int := ⟨e.fMinVal, e.fMaxVal⟩

def addFirstEntry (lastInputRow : Nat) (lbid : Int) (bIsNewExtent : Bool) (s : ColExtInf) :
    ColExtInf :=
  ⟨Function.update s.fMap lastInputRow (some ⟨lbid, llongMin, llongMin, bIsNewExtent⟩),
    s.fPendingExtentRows⟩

def addOrUpdateEntry (lastInputRow : Nat) (minVal maxVal : Int) (colDataType : ColDataType)
    (s : ColExtInf) : ColExtInf :=
  match s.fMap lastInputRow with
  | none =>
    ⟨Function.update s.fMap lastInputRow (some ⟨invalidLbid, minVal, maxVal, true⟩),
      insert lastInputRow s.fPendingExtentRows⟩
  | some e =>
    -- the lowest value stands for a range that has not been set
    let range := if e.fMinVal = llongMin then ⟨minVal, maxVal⟩
      else extend (compared colDataType) e.range ⟨minVal, maxVal⟩
    ⟨Function.update s.fMap lastInputRow
        (some { e with fMinVal := range.lo, fMaxVal := range.hi }), s.fPendingExtentRows⟩

inductive LbidError where
  | missingExtentEntry
  | missingExtentRow

def updateEntryLbid (startLbid : Int) (s : ColExtInf) : Except LbidError ColExtInf :=
  match s.fPendingExtentRows.min with
  | none => .error .missingExtentRow
  | some row =>
    match s.fMap row with
    | none => .error .missingExtentEntry
    | some e => .ok ⟨Function.update s.fMap row (some { e with fLbid := startLbid }),
        s.fPendingExtentRows.erase row⟩

/-- What the parser reports of a batch of rows: a range that covers its values. -/
structure Batch (type : ColDataType) where
  row : Nat
  minVal : Int
  maxVal : Int
  values : List Int
  covers : ∀ v ∈ values, Covers (order type) ⟨minVal, maxVal⟩ v

inductive Call (type : ColDataType) where
  | addFirstEntry (row : Nat) (lbid : Int) (isNew : Bool)
  | addOrUpdateEntry (batch : Batch type)
  | updateEntryLbid (lbid : Int)

variable {type : ColDataType} {calls before after : List (Call type)} {row : Nat} {s : ColExtInf}

/-- A failed call changes nothing. -/
def Call.run (s : ColExtInf) : Call type → ColExtInf
  | .addFirstEntry row lbid isNew => LoadRanges.addFirstEntry row lbid isNew s
  | .addOrUpdateEntry b => LoadRanges.addOrUpdateEntry b.row b.minVal b.maxVal type s
  | .updateEntryLbid lbid =>
    match LoadRanges.updateEntryLbid lbid s with
    | .ok t => t
    | .error _ => s

def run (calls : List (Call type)) : ColExtInf := calls.foldl Call.run empty

/-- The values reported for a row since its entry was made. -/
def Call.reported (row : Nat) (values : List Int) : Call type → List Int
  | .addFirstEntry r _ _ => if r = row then [] else values
  | .addOrUpdateEntry b => if b.row = row then values ++ b.values else values
  | .updateEntryLbid _ => values

def reported (row : Nat) (calls : List (Call type)) : List Int := calls.foldl (Call.reported row) []

/-- The entry of a row covers the values reported for it. -/
def CoversReported (row : Nat) (calls : List (Call type)) : Prop :=
  ∀ e, (run calls).fMap row = some e → ∀ v ∈ reported row calls, Covers (order type) e.range v

def rangeOf (row : Nat) (s : ColExtInf) : Option (Range Int) :=
  (s.fMap row).map ColExtInfEntry.range

def Batch.range (b : Batch type) : Range Int := ⟨b.minVal, b.maxVal⟩

/-- The range of an entry after a batch. -/
def Batch.joined (b : Batch type) : Option (Range Int) → Range Int
  | none => b.range
  | some r => if r.lo = llongMin then b.range else extend (compared type) r b.range

/-- What a call does to the range of a row. -/
def Call.joined (row : Nat) (r : Option (Range Int)) : Call type → Option (Range Int)
  | .addFirstEntry first _ _ => if first = row then some ⟨llongMin, llongMin⟩ else r
  | .addOrUpdateEntry b => if b.row = row then some (b.joined r) else r
  | .updateEntryLbid _ => r

lemma rangeOf_update {e : ColExtInfEntry} (other row : Nat) (pending : Finset Nat) :
    rangeOf row ⟨Function.update s.fMap other (some e), pending⟩ =
      if other = row then some e.range else rangeOf row s := by
  by_cases here : other = row
  · subst here
    simp only [rangeOf, Function.update_self, Option.map_some, if_true]
  · simp only [rangeOf, Function.update_of_ne (Ne.symm here), if_neg here]

variable (b : Batch type)

lemma rangeOf_addOrUpdateEntry (row : Nat) (s : ColExtInf) :
    rangeOf row (addOrUpdateEntry b.row b.minVal b.maxVal type s) =
      if b.row = row then some (b.joined (rangeOf row s)) else rangeOf row s := by
  split_ifs with here
  · rw [← here, addOrUpdateEntry]
    cases found : s.fMap b.row with
    | none =>
      have absent : rangeOf b.row s = none := by rw [rangeOf, found, Option.map_none]
      rw [rangeOf_update, if_pos rfl, absent]
      rfl
    | some e =>
      have entry : rangeOf b.row s = some e.range := by rw [rangeOf, found, Option.map_some]
      rw [rangeOf_update, if_pos rfl, entry]
      rfl
  · rw [addOrUpdateEntry]
    cases s.fMap b.row <;> simp only [rangeOf_update, if_neg here]

/-- An LBID is assigned to an entry without a change of its range. -/
lemma rangeOf_updateEntryLbid {lbid : Int} {t : ColExtInf}
    (ran : updateEntryLbid lbid s = .ok t) (row : Nat) : rangeOf row t = rangeOf row s := by
  unfold updateEntryLbid at ran
  split at ran
  · cases ran
  rename_i pending _
  split at ran
  · cases ran
  rename_i e found
  cases ran
  rw [rangeOf_update]
  split_ifs with here
  · rw [rangeOf, ← here, found]
    rfl
  · rfl

variable (c : Call type)

lemma rangeOf_run (row : Nat) (s : ColExtInf) :
    rangeOf row (c.run s) = c.joined row (rangeOf row s) := by
  cases c with
  | addFirstEntry first lbid isNew => exact rangeOf_update first row s.fPendingExtentRows
  | addOrUpdateEntry b => exact rangeOf_addOrUpdateEntry b row s
  | updateEntryLbid lbid =>
    cases ran : updateEntryLbid lbid s with
    | error _ => simp only [Call.run, ran, Call.joined]
    | ok t =>
      simp only [Call.run, ran, Call.joined]
      exact rangeOf_updateEntryLbid ran row

lemma run_snoc : run (before ++ [c]) = c.run (run before) := by
  rw [run, List.foldl_append]
  rfl

lemma reported_snoc : reported row (before ++ [c]) = c.reported row (reported row before) := by
  rw [reported, List.foldl_append]
  rfl

/-- Nothing has been reported for a row without an entry. -/
lemma reported_of_absent (absent : rangeOf row (run calls) = none) : reported row calls = [] := by
  induction calls using List.reverseRecOn with
  | nil => rfl
  | append_singleton before c ih =>
    rw [run_snoc, rangeOf_run] at absent
    rw [reported_snoc]
    cases c with
    | addFirstEntry first lbid isNew =>
      by_cases here : first = row
      · simp [Call.reported, here]
      · rw [Call.joined, if_neg here] at absent
        rw [Call.reported, if_neg here, ih absent]
    | addOrUpdateEntry b =>
      by_cases here : b.row = row
      · simp [Call.joined, here] at absent
      · rw [Call.joined, if_neg here] at absent
        rw [Call.reported, if_neg here, ih absent]
    | updateEntryLbid lbid => exact ih absent

lemma coversReported_iff : CoversReported row calls ↔
    ∀ r, rangeOf row (run calls) = some r → ∀ v ∈ reported row calls, Covers (order type) r v := by
  constructor
  · intro covered r found
    obtain ⟨e, entry, rfl⟩ := Option.map_eq_some_iff.mp found
    exact covered e entry
  · intro covered e entry
    exact covered e.range (by rw [rangeOf, entry]; rfl)

/-- `x` lies below `y`, but the code takes `y` for the smaller one. -/
def Misordered (type : ColDataType) (x y : Int) : Prop :=
  order type x < order type y ∧ compared type y < compared type x

/-- Where the code takes the wrong one of two bounds, the values do not reach beyond it. -/
structure Joinable (type : ColDataType) (r q : Range Int) (values : List Int) : Prop where
  lower : ∀ v ∈ values, (Misordered type r.lo q.lo → order type q.lo ≤ order type v) ∧
    (Misordered type q.lo r.lo → order type r.lo ≤ order type v)
  upper : ∀ v ∈ values, (Misordered type r.hi q.hi → order type v ≤ order type r.hi) ∧
    (Misordered type q.hi r.hi → order type v ≤ order type q.hi)

/-- A batch that comes when the lower bound is the mark covers what was reported before. Any other
batch can be joined to the range of the entry. -/
def Restated (row : Nat) (before : List (Call type)) (b : Batch type) : Prop :=
  ∀ e, (run before).fMap row = some e →
    (e.fMinVal = llongMin → ∀ v ∈ reported row before, Covers (order type) b.range v) ∧
    (e.fMinVal ≠ llongMin → Joinable type e.range b.range (reported row before ++ b.values))

variable {r q : Range Int} {x y v : Int}

/-- Bounds that compare as equal are equal in the order. -/
lemma misordered_of_le (below : order type x < order type y)
    (taken : compared type y ≤ compared type x) : Misordered type x y := by
  refine ⟨below, lt_of_le_of_ne taken fun same => ?_⟩
  by_cases unsigned : isUnsigned type
  · simp only [compared, order, unsigned, if_true, true_or] at same below
    omega
  · rw [compared, compared, if_neg unsigned, if_neg unsigned] at same
    rw [same] at below
    exact lt_irrefl _ below

lemma extend_lo_le_iff (known : order type r.lo ≤ order type v ∨ order type q.lo ≤ order type v) :
    order type (extend (compared type) r q).lo ≤ order type v ↔
      (Misordered type r.lo q.lo → order type q.lo ≤ order type v) ∧
        (Misordered type q.lo r.lo → order type r.lo ≤ order type v) := by
  simp only [extend]
  split_ifs with taken
  · refine ⟨fun above => ⟨fun _ => above, fun wrong => absurd wrong.2 (lt_asymm taken)⟩,
      fun joinable => ?_⟩
    rcases lt_or_ge (order type r.lo) (order type q.lo) with below | above
    · exact joinable.1 ⟨below, taken⟩
    · exact known.elim above.trans id
  · refine ⟨fun above => ⟨fun wrong => absurd wrong.2 taken, fun _ => above⟩, fun joinable => ?_⟩
    rcases lt_or_ge (order type q.lo) (order type r.lo) with below | above
    · exact joinable.2 (misordered_of_le below (not_lt.mp taken))
    · exact known.elim id above.trans

lemma le_extend_hi_iff (known : order type v ≤ order type r.hi ∨ order type v ≤ order type q.hi) :
    order type v ≤ order type (extend (compared type) r q).hi ↔
      (Misordered type r.hi q.hi → order type v ≤ order type r.hi) ∧
        (Misordered type q.hi r.hi → order type v ≤ order type q.hi) := by
  simp only [extend]
  split_ifs with taken
  · refine ⟨fun above => ⟨fun wrong => absurd wrong.2 (lt_asymm taken), fun _ => above⟩,
      fun joinable => ?_⟩
    rcases lt_or_ge (order type q.hi) (order type r.hi) with below | above
    · exact joinable.2 ⟨below, taken⟩
    · exact known.elim (·.trans above) id
  · refine ⟨fun above => ⟨fun _ => above, fun wrong => absurd wrong.2 taken⟩, fun joinable => ?_⟩
    rcases lt_or_ge (order type r.hi) (order type q.hi) with below | above
    · exact joinable.1 (misordered_of_le below (not_lt.mp taken))
    · exact known.elim id (·.trans above)

lemma covers_extend_iff {values : List Int}
    (known : ∀ v ∈ values, Covers (order type) r v ∨ Covers (order type) q v) :
    (∀ v ∈ values, Covers (order type) (extend (compared type) r q) v) ↔
      Joinable type r q values := by
  have lower : ∀ v ∈ values, _ := fun v mem =>
    extend_lo_le_iff ((known v mem).imp (·.1) (·.1))
  have upper : ∀ v ∈ values, _ := fun v mem =>
    le_extend_hi_iff ((known v mem).imp (·.2) (·.2))
  exact ⟨fun covers => ⟨fun v mem => (lower v mem).mp (covers v mem).1,
      fun v mem => (upper v mem).mp (covers v mem).2⟩,
    fun joinable v mem => ⟨(lower v mem).mpr (joinable.lower v mem),
      (upper v mem).mpr (joinable.upper v mem)⟩⟩

/-- After a batch the entry covers everything unless it forgot its range or joined the batch to
the wrong bound. -/
lemma coversReported_batch (here : b.row = row) (covered : CoversReported row before) :
    CoversReported row (before ++ [.addOrUpdateEntry b]) ↔ Restated row before b := by
  rw [coversReported_iff] at covered ⊢
  rw [run_snoc, rangeOf_run, reported_snoc, Call.joined, if_pos here, Call.reported, if_pos here]
  simp only [Option.some.injEq, forall_eq']
  cases found : rangeOf row (run before) with
  | none =>
    rw [reported_of_absent found]
    have absent : (run before).fMap row = none := Option.map_eq_none_iff.mp found
    exact ⟨fun _ e entry => by simp [absent] at entry, fun _ => b.covers⟩
  | some r =>
    obtain ⟨e, entry, rfl⟩ := Option.map_eq_some_iff.mp found
    have restated : Restated row before b ↔
        (e.fMinVal = llongMin → ∀ v ∈ reported row before, Covers (order type) b.range v) ∧
        (e.fMinVal ≠ llongMin →
          Joinable type e.range b.range (reported row before ++ b.values)) := by
      simp [Restated, entry]
    rw [restated]
    by_cases mark : e.fMinVal = llongMin
    · have joined : b.joined (some e.range) = b.range := if_pos mark
      rw [joined]
      constructor
      · exact fun covers => ⟨fun _ v mem => covers v (List.mem_append_left _ mem),
          fun other => absurd mark other⟩
      · intro again v mem
        exact (List.mem_append.mp mem).elim (again.1 mark v) (b.covers v)
    · have joined : b.joined (some e.range) = extend (compared type) e.range b.range := if_neg mark
      rw [joined, covers_extend_iff]
      · exact ⟨fun joinable => ⟨fun same => absurd same mark, fun _ => joinable⟩,
          fun again => again.2 mark⟩
      · intro v mem
        exact (List.mem_append.mp mem).imp (covered e.range found v) (b.covers v)

/-- A call for another row or for an LBID keeps what is covered, and a first entry starts anew. -/
lemma coversReported_other (covered : CoversReported row before)
    (others : ∀ b, c = .addOrUpdateEntry b → b.row ≠ row) : CoversReported row (before ++ [c]) := by
  rw [coversReported_iff] at covered ⊢
  rw [run_snoc, rangeOf_run, reported_snoc]
  cases c with
  | addFirstEntry first lbid isNew =>
    by_cases here : first = row
    · rw [Call.reported, if_pos here]
      intro r _ v none
      cases none
    · rw [Call.reported, if_neg here, Call.joined, if_neg here]
      exact covered
  | addOrUpdateEntry b =>
    rw [Call.reported, if_neg (others b rfl), Call.joined, if_neg (others b rfl)]
    exact covered
  | updateEntryLbid lbid => exact covered

/-- Along a run the entry of a row covers everything reported for it, at every moment, exactly if
every batch that comes to an entry whose lower bound is the mark covers what came before, and
every other one can be joined to the range of the entry. -/
theorem covers_reported_iff (type : ColDataType) (row : Nat) (calls : List (Call type)) :
    (∀ before after, calls = before ++ after → CoversReported row before) ↔
      ∀ before b after, calls = before ++ .addOrUpdateEntry b :: after → b.row = row →
        Restated row before b := by
  constructor
  · intro covered before b after split here
    refine (coversReported_batch b here (covered before _ split)).mp (covered _ after ?_)
    rw [split, List.append_assoc]
    rfl
  intro restated before
  induction before using List.reverseRecOn with
  | nil =>
    intro after _ e found
    cases found
  | append_singleton before c ih =>
    intro after split
    rw [List.append_assoc] at split
    have covered := ih _ split
    by_cases here : ∃ b, c = .addOrUpdateEntry b ∧ b.row = row
    · obtain ⟨b, rfl, same⟩ := here
      exact (coversReported_batch b same covered).mpr (restated before b after split same)
    · refine coversReported_other c covered fun b same row => ?_
      exact here ⟨b, same, row⟩

/-- The lower bound of the first batch is 2 to the 63, read as the mark; the second batch makes
the entry forget it. -/
theorem middle_value_forgotten :
    ∃ calls : List (Call .ubigint), reported 9 calls = [llongMin, llongMin + 5] ∧
      ¬ CoversReported 9 calls := by
  let low : Batch .ubigint := ⟨9, llongMin, llongMin, [llongMin], by simp [Covers]⟩
  let high : Batch .ubigint := ⟨9, llongMin + 5, llongMin + 5, [llongMin + 5], by simp [Covers]⟩
  refine ⟨[.addOrUpdateEntry low, .addOrUpdateEntry high], rfl, fun covered => ?_⟩
  have covers := covered ⟨invalidLbid, llongMin + 5, llongMin + 5, true⟩ rfl llongMin
    (by simp [reported, Call.reported, low, high])
  exact absurd covers.1 (by decide)

end LoadRanges
