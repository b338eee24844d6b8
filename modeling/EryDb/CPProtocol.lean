import EryDb.CPCalls
import EryDb.LbidSpace
import EryDb.RunningRange
import EryDb.TicketedCache

/-!
# Writers and queries on the range of an extent

One writer at a time marks the extent before it changes values and resets it with the sequence
number `-1` when it has committed or rolled back. A query reads the sequence number at its
start, scans the committed values later and offers a range for them under that number. The
number counts the changes of the range and starts again behind `EM_MAX_SEQNUM`, so that a query
with fewer changes than that in between cannot mistake one for another. The number of changes
since the start is kept beside the state for this condition; no call reads it.
-/

namespace CPProtocol

open ImageUndo BrmTypes ExtentMap ExtentUpdates CasualPartitions ExtentCalls LbidTiling CPCalls
open Function LbidSpace RunningRange TicketedCache

section Model

inductive Writer where
  | idle
  | marked
  | finished

/-- What a query has read at its start, and the values it has scanned. -/
structure Query where
  seqNum : Int
  isValid : CPState
  start : Nat
  scanned : Option (List Int)

structure System (Name : Type) where
  map : Map
  committed : List Int
  writer : Writer
  queries : Name → Option Query
  increments : Nat

variable {Name : Type} [DecidableEq Name]

def cprange (i : Nat) (map : Map) : CPRange := (fExtentMap map i).cprange

def firstLbid (i : Nat) (map : Map) : Int := (fExtentMap map i).range.start

/-- The count after a call that leaves the map. -/
def increments (i : Nat) (s : System Name) (map : Map) : Nat :=
  if (cprange i map).sequenceNum = (cprange i s.map).sequenceNum then s.increments
  else s.increments + 1

inductive Step (i : Nat) (type : ColDataType) (rank : Int → Int) : System Name → System Name → Prop
  | mark (s : System Name) {lbid : Int} {map : Map}
      (lock : s.writer = .idle ∨ s.writer = .marked)
      (inside : lbid ∈ blocks (fExtentMap s.map i).range)
      (call : (markInvalid lbid type s.map).2 = map) :
      Step i type rank s { s with map := map, increments := increments i s map, writer := .marked }
  | commit (s : System Name) (values : List Int) (lock : s.writer = .marked) :
      Step i type rank s { s with committed := values, writer := .finished }
  | rollback (s : System Name) (lock : s.writer = .marked) :
      Step i type rank s { s with writer := .finished }
  | reset (s : System Name) {cpMap : List (Int × CPMaxMin)} {arg : CPMaxMin} {map : Map}
      (lock : s.writer = .finished) (argument : lookupKey (firstLbid i s.map) cpMap = some arg)
      (special : arg.seqNum = -1) (call : (setExtentsMaxMin cpMap s.map).2 = map) :
      Step i type rank s { s with map := map, increments := increments i s map, writer := .idle }
  | start (s : System Name) (name : Name) :
      Step i type rank s { s with
        queries := Function.update s.queries name (some ⟨(cprange i s.map).sequenceNum,
          (cprange i s.map).isValid, s.increments, none⟩) }
  | scan (s : System Name) {name : Name} {q : Query} (runs : s.queries name = some q) :
      Step i type rank s { s with
        queries := Function.update s.queries name (some { q with scanned := some s.committed }) }
  | update (s : System Name) {name : Name} {q : Query} {values : List Int}
      {cpMap : List (Int × CPMaxMin)} {arg : CPMaxMin} {map : Map}
      (runs : s.queries name = some q) (scanned : q.scanned = some values)
      (argument : lookupKey (firstLbid i s.map) cpMap = some arg)
      (sequence : arg.seqNum = q.seqNum) (covers : ∀ v ∈ values, Covers rank ⟨arg.min, arg.max⟩ v)
      (few : s.increments - q.start < 2000000000) (call : (setExtentsMaxMin cpMap s.map).2 = map) :
      Step i type rank s { s with map := map, increments := increments i s map }
  | elsewhere (s : System Name) {map : Map} (changes : Modifies s.map map)
      (same : fExtentMap map i = fExtentMap s.map i) :
      Step i type rank s { s with map := map }

/-- No query runs and no writer holds the lock; a range that is valid covers the values. -/
structure Initial (i : Nat) (rank : Int → Int) (s : System Name) : Prop where
  valid : Valid s.map
  used : usedExtent s.map i
  idle : s.writer = .idle
  silent : ∀ name, s.queries name = none
  counted : s.increments = 0
  sequence : 0 ≤ (cprange i s.map).sequenceNum ∧ (cprange i s.map).sequenceNum ≤ 2000000000
  covers : (cprange i s.map).isValid = .valid → ∀ v ∈ s.committed,
    Covers rank ⟨(cprange i s.map).loVal, (cprange i s.map).hiVal⟩ v

end Model

/-- The sequence number after a number of changes. -/
def numbered (base n : Nat) : Int := ((base + n) % 2000000001 : Nat)

lemma numbered_nonneg (base n : Nat) : 0 ≤ numbered base n := Int.natCast_nonneg _

lemma incSeqNum_numbered (base n : Nat) : incSeqNum (numbered base n) = numbered base (n + 1) := by
  rw [incSeqNum, numbered, numbered]
  split_ifs <;> omega

lemma incSeqNum_ne (x : Int) : incSeqNum x ≠ x := by
  rw [incSeqNum]
  split_ifs <;> omega

section Calls

variable {i : Nat} {s : Map} {arg : CPMaxMin} {r : CPRange}

/-- A reset, where the present number is not special. -/
lemma offeredTo_reset (hnn : 0 ≤ r.sequenceNum) (special : arg.seqNum = -1) :
    offeredTo arg r = { r with isValid := .invalid, sequenceNum := incSeqNum r.sequenceNum } := by
  rw [offeredTo, offeredReset, offered, if_neg (by omega), if_pos special]
  rfl

lemma offeredTo_current (he : r.sequenceNum = arg.seqNum) (invalid : r.isValid = .invalid) :
    offeredTo arg r = ⟨arg.max, arg.min, incSeqNum r.sequenceNum, .valid⟩ := by
  rw [offeredTo, offeredReset, offered, if_pos ⟨he, by simp [invalid]⟩]
  rfl

lemma offeredTo_late (hnn : 0 ≤ arg.seqNum)
    (late : ¬(r.sequenceNum = arg.seqNum ∧ r.isValid = .invalid)) : offeredTo arg r = r := by
  have ordinary : ¬(r.sequenceNum = arg.seqNum ∧ decide (r.isValid = .invalid) = true) := by
    simpa using late
  rw [offeredTo, offeredReset, offered, if_neg ordinary, if_neg (by omega)]
  simp only [if_neg (show arg.seqNum ≠ -2 by omega), Option.getD_none]

lemma markUpdating_spec (type : ColDataType) (r : CPRange) :
    (markUpdating type r).sequenceNum = incSeqNum r.sequenceNum ∧
      (markUpdating type r).isValid = .updating := by
  rw [markUpdating]
  split_ifs <;> exact ⟨rfl, rfl⟩

end Calls

section Simulation

variable {Name : Type} [DecidableEq Name] {i : Nat} {type : ColDataType} {rank : Int → Int}
variable {base : Nat} {s t : System Name}

def validity : CPState → Validity
  | .invalid => .unknown
  | .updating => .changing
  | .valid => .known

def summaryOf (r : CPRange) : Range Int := ⟨r.loVal, r.hiVal⟩

/-- The protocol behind a state: the number of changes is the clock, the range the summary of the
committed values. -/
def view (i : Nat) (s : System Name) : State (Range Int) (List Int) Name where
  clock := s.increments
  validity := validity (cprange i s.map).isValid
  summary := summaryOf (cprange i s.map)
  data := s.committed
  readers name := (s.queries name).map (fun q => ⟨q.start, q.scanned⟩)

def CoversAll (rank : Int → Int) (r : Range Int) (values : List Int) : Prop :=
  ∀ v ∈ values, Covers rank r v

structure Inv (i : Nat) (rank : Int → Int) (base : Nat) (s : System Name) : Prop where
  valid : Valid s.map
  used : usedExtent s.map i
  sequence : (cprange i s.map).sequenceNum = numbered base s.increments
  writer : s.writer ≠ .idle → (cprange i s.map).isValid = .updating
  queries : ∀ name q, s.queries name = some q → q.seqNum = numbered base q.start
  cache : TicketedCache.Inv (CoversAll rank) (view i s)

/-- The readers after a query has changed. -/
lemma readers_update (queries : Name → Option Query) (name : Name) (q : Query) :
    (fun ho => (Function.update queries name (some q) ho).map
        (fun q => (⟨q.start, q.scanned⟩ : Reader (List Int)))) =
      Function.update (fun ho => (queries ho).map (fun q => ⟨q.start, q.scanned⟩)) name
        (some ⟨q.start, q.scanned⟩) := by
  funext ho
  by_cases he : ho = name
  · rw [he, update_self, update_self, Option.map_some]
  · rw [update_of_ne he, update_of_ne he]

/-- A call that changes the range counts once, and the invariant only has to be shown for the
writer and for the protocol behind it. -/
lemma Inv.called (inv : Inv i rank base s) {map : Map} {writer : Writer} (hmod : Modifies s.map map)
    (inc : (cprange i map).sequenceNum = incSeqNum (cprange i s.map).sequenceNum)
    (hd : writer ≠ .idle → (cprange i map).isValid = .updating)
    (step : TicketedCache.Step (CoversAll rank) (view i s) { view i s with
        clock := s.increments + 1
        validity := validity (cprange i map).isValid
        summary := summaryOf (cprange i map) }) :
    Inv i rank base { s with map := map, increments := increments i s map, writer := writer } := by
  have count : increments i s map = s.increments + 1 := by
    rw [increments, inc, if_neg (incSeqNum_ne _)]
  refine ⟨modifies_valid hmod inv.valid, ?_, ?_, hd, inv.queries, ?_⟩
  · rw [usedExtent, modifies_range hmod i]
    exact inv.used
  · rw [count, inc, inv.sequence, incSeqNum_numbered]
  · rw [count]
    exact step.inv inv.cache

omit [DecidableEq Name] in
/-- A call that leaves the range of the extent as it is. -/
lemma Inv.unchanged (inv : Inv i rank base s) {map : Map} (hmod : Modifies s.map map)
    (he : cprange i map = cprange i s.map) : Inv i rank base { s with map := map } := by
  refine ⟨modifies_valid hmod inv.valid, ?_, ?_, ?_, inv.queries, ?_⟩
  · rw [usedExtent, modifies_range hmod i]
    exact inv.used
  · rw [he]
    exact inv.sequence
  · rw [he]
    exact inv.writer
  · rw [view, he]
    exact inv.cache

omit [DecidableEq Name] in
lemma view_readers {name : Name} {q : Query} (runs : s.queries name = some q) :
    (view i s).readers name = some ⟨q.start, q.scanned⟩ := by
  simp only [view, runs, Option.map_some]

/-- A query that starts or scans. -/
lemma Inv.query (inv : Inv i rank base s) {name : Name} {q : Query}
    (number : q.seqNum = numbered base q.start)
    (step : TicketedCache.Step (CoversAll rank) (view i s) { view i s with
        readers := Function.update (view i s).readers name (some ⟨q.start, q.scanned⟩) }) :
    Inv i rank base { s with queries := Function.update s.queries name (some q) } := by
  refine ⟨inv.valid, inv.used, inv.sequence, inv.writer, ?_, ?_⟩
  · intro ho p runs
    by_cases he : ho = name
    · subst he
      obtain rfl : q = p := by simpa using runs
      exact number
    · simp only [update_of_ne he] at runs
      exact inv.queries ho p runs
  · rw [view, readers_update]
    exact step.inv inv.cache

lemma Step.preserves (step : Step i type rank s t) (inv : Inv i rank base s) :
    Inv i rank base t := by
  cases step with
  | @mark lbid map lock hi call =>
    have range : cprange i map = markUpdating type (cprange i s.map) := by
      rw [← call]
      simp only [markInvalid, extentOf_eq inv.valid inv.used hi, cprange, setCPRange, modifyExtent,
        fExtentMap_putExtent, if_true]
    obtain ⟨number, updating⟩ := markUpdating_spec type (cprange i s.map)
    refine inv.called (call ▸ markInvalid_modifies lbid type s.map) (by rw [range, number])
      (fun _ => by rw [range, updating]) ?_
    rw [range, updating]
    exact .mark (view i s) _
  | commit values lock =>
    have updating := inv.writer (by simp [lock])
    refine ⟨inv.valid, inv.used, inv.sequence, fun _ => updating, inv.queries, ?_⟩
    have marked : (view i s).validity = .changing := congrArg validity updating
    exact (TicketedCache.Step.change (view i s) values marked).inv inv.cache
  | rollback lock =>
    have updating := inv.writer (by simp [lock])
    exact ⟨inv.valid, inv.used, inv.sequence, fun _ => updating, inv.queries, inv.cache⟩
  | @reset cpMap arg map lock argument special call =>
    have number : 0 ≤ (cprange i s.map).sequenceNum := inv.sequence ▸ numbered_nonneg _ _
    have range : cprange i map = { cprange i s.map with
        isValid := .invalid, sequenceNum := incSeqNum (cprange i s.map).sequenceNum } := by
      rw [← call]
      exact (setExtentsMaxMin_cprange inv.valid inv.used argument).trans
        (offeredTo_reset number special)
    refine inv.called (call ▸ setExtentsMaxMin_modifies cpMap s.map) (by rw [range])
      (fun busy => absurd rfl busy) ?_
    rw [range]
    exact .release (view i s) _
  | start name => exact inv.query inv.sequence (.enter (view i s) name)
  | @scan name q runs =>
    exact inv.query (inv.queries name q runs) (.look (view i s) (view_readers runs))
  | @update name q values cpMap arg map runs hsc argument sequence hcov few call =>
    have reads := view_readers (i := i) runs
    rw [hsc] at reads
    have number := inv.queries name q runs
    have range : cprange i map = offeredTo arg (cprange i s.map) := by
      rw [← call]
      exact setExtentsMaxMin_cprange inv.valid inv.used argument
    by_cases hcu : (cprange i s.map).sequenceNum = arg.seqNum ∧ (cprange i s.map).isValid = .invalid
    · -- the number has not come back, so that the query's ticket is the clock
      have ticket : q.start = s.increments := by
        have hsta : q.start ≤ s.increments := inv.cache.tickets name _ reads
        have he : numbered base q.start = numbered base s.increments := by
          rw [← number, ← sequence, ← hcu.1, inv.sequence]
        rw [numbered, numbered] at he
        omega
      rw [offeredTo_current hcu.1 hcu.2] at range
      refine inv.called (call ▸ setExtentsMaxMin_modifies cpMap s.map) (by rw [range])
        (fun busy => ?_) ?_
      · have updating := inv.writer busy
        rw [hcu.2] at updating
        cases updating
      · rw [range]
        have unknown : (view i s).validity = .unknown := congrArg validity hcu.2
        rw [ticket] at reads
        exact .publish (view i s) _ reads unknown hcov
    · have ordinary : 0 ≤ arg.seqNum := by
        rw [sequence, number]
        exact numbered_nonneg _ _
      rw [offeredTo_late ordinary hcu] at range
      have count : increments i s map = s.increments := by rw [increments, range, if_pos rfl]
      rw [count]
      exact inv.unchanged (call ▸ setExtentsMaxMin_modifies cpMap s.map) range
  | elsewhere merged he => exact inv.unchanged merged (congrArg EMEntry.cprange he)

omit [DecidableEq Name] in
lemma Initial.inv (initial : Initial i rank s) :
    Inv i rank (cprange i s.map).sequenceNum.toNat s := by
  refine ⟨initial.valid, initial.used, ?_, fun busy => absurd initial.idle busy, ?_, ?_, ?_, ?_⟩
  · have sequence := initial.sequence
    rw [initial.counted, numbered]
    omega
  · intro name q runs
    rw [initial.silent] at runs
    cases runs
  · intro hk
    cases state : (cprange i s.map).isValid with
    | valid => exact initial.covers state
    | invalid | updating => simp only [view, state, validity, reduceCtorEq] at hk
  · intro name r reads
    simp only [view, initial.silent, Option.map_none, reduceCtorEq] at reads
  · intro name r d reads
    simp only [view, initial.silent, Option.map_none, reduceCtorEq] at reads

/-- In every interleaving, a range that is valid covers all committed values. -/
theorem valid_range_covers (initial : Initial i rank s)
    (run : Relation.ReflTransGen (Step i type rank) s t)
    (isValid : (cprange i t.map).isValid = .valid) :
    ∀ v ∈ t.committed, Covers rank ⟨(cprange i t.map).loVal, (cprange i t.map).hiVal⟩ v := by
  have inv : Inv i rank (cprange i s.map).sequenceNum.toNat t := by
    clear isValid
    induction run with
    | refl => exact initial.inv
    | tail _ step ih => exact step.preserves ih
  exact inv.cache.known (congrArg validity isValid)

/-- In every interleaving the extent is marked as updating from the mark to the reset, and the
sequence number counts the changes of the range. -/
theorem writer_keeps_updating (initial : Initial i rank s)
    (run : Relation.ReflTransGen (Step i type rank) s t) :
    (t.writer ≠ .idle → (cprange i t.map).isValid = .updating) ∧
      (cprange i t.map).sequenceNum =
        ((cprange i s.map).sequenceNum + t.increments) % 2000000001 := by
  have inv : Inv i rank (cprange i s.map).sequenceNum.toNat t := by
    induction run with
    | refl => exact initial.inv
    | tail _ step ih => exact step.preserves ih
  refine ⟨inv.writer, ?_⟩
  rw [inv.sequence, numbered]
  have := initial.sequence.1
  omega

end Simulation

/-- An extent without a range that holds the one value 3. -/
def loadedMap : Map :=
  setCPRange (fun _ => ⟨int64Min, int64Max, 0, .invalid⟩) 0
    (firstColumn.run exampleConfig fresh).2.confirmChanges

def loadedSystem : System Unit := ⟨loadedMap, [3], .idle, fun _ => none, 0⟩

lemma cprange_loadedMap : cprange 0 loadedMap = ⟨int64Min, int64Max, 0, .invalid⟩ := by
  simp only [cprange, loadedMap, setCPRange, modifyExtent, fExtentMap_putExtent, if_true]

lemma loadedMap_valid : Valid loadedMap :=
  modifies_valid (setCPRange_modifies _ 0 _) (reachable_valid (.step firstColumn .fresh
    (by simp [firstColumn, Call.widthsValid, columnWidths]) (by decide +kernel)))

lemma loadedMap_used : usedExtent loadedMap 0 := by decide +kernel

lemma loadedSystem_initial : Initial 0 id loadedSystem := by
  refine ⟨loadedMap_valid, loadedMap_used, rfl, fun _ => rfl, rfl, ?_, ?_⟩ <;>
    simp only [loadedSystem, cprange_loadedMap]
  · decide
  · nofun

/-- The writer marks the extent, commits the value 4 in place of 3 and resets the range. -/
def markedMap : Map := (markInvalid 5 .bigint loadedMap).2
def resetMap : Map := (setExtentsMaxMin [(firstLbid 0 markedMap, ⟨0, 0, -1⟩)] markedMap).2

/-- A query that has started behind the reset offers the range from 2 to 5. -/
def offeredMap : Map := (setExtentsMaxMin [(firstLbid 0 resetMap, ⟨5, 2, 2⟩)] resetMap).2

lemma cprange_maps : (cprange 0 markedMap).isValid = .updating ∧
    (cprange 0 markedMap).sequenceNum = 1 ∧ (cprange 0 resetMap).isValid = .invalid ∧
    (cprange 0 resetMap).sequenceNum = 2 ∧ cprange 0 offeredMap = ⟨5, 2, 3, .valid⟩ := by
  decide +kernel

lemma lookupKey_single (lbid : Int) (arg : CPMaxMin) : lookupKey lbid [(lbid, arg)] = some arg := by
  simp [lookupKey]

def markedSystem : System Unit := ⟨markedMap, [3], .marked, fun _ => none, 1⟩
def finishedSystem : System Unit := ⟨markedMap, [4], .finished, fun _ => none, 1⟩
def resetSystem : System Unit := ⟨resetMap, [4], .idle, fun _ => none, 2⟩

def runningSystem (scanned : Option (List Int)) : System Unit :=
  ⟨resetMap, [4], .idle, Function.update (fun _ => none) () (some ⟨2, .invalid, 2, scanned⟩), 2⟩

def offeredSystem : System Unit :=
  { runningSystem (some [4]) with map := offeredMap, increments := 3 }

lemma markedSystem_reached :
    Relation.ReflTransGen (Step 0 .bigint id) loadedSystem markedSystem := by
  have mark : Step 0 .bigint id loadedSystem { loadedSystem with
      map := markedMap, increments := increments 0 loadedSystem markedMap, writer := .marked } :=
    .mark loadedSystem (.inl rfl)
      (show (5 : Int) ∈ _ by rw [mem_blocks]; decide +kernel) rfl
  have count : increments 0 loadedSystem markedMap = 1 := by
    simp [increments, loadedSystem, cprange_loadedMap, cprange_maps]
  rw [count] at mark
  exact .single mark

lemma resetSystem_reached : Relation.ReflTransGen (Step 0 .bigint id) loadedSystem resetSystem := by
  have commit : Step 0 .bigint id markedSystem finishedSystem := by
    have step : Step 0 .bigint id markedSystem _ := .commit markedSystem [4] rfl
    simpa only [markedSystem, finishedSystem] using step
  have reset : Step 0 .bigint id finishedSystem { finishedSystem with
      map := resetMap, increments := increments 0 finishedSystem resetMap, writer := .idle } :=
    .reset finishedSystem rfl (lookupKey_single (firstLbid 0 finishedSystem.map) ⟨0, 0, -1⟩) rfl
      (by simp only [finishedSystem, resetMap])
  have count : increments 0 finishedSystem resetMap = 2 := by
    simp [increments, finishedSystem, cprange_maps]
  rw [count] at reset
  exact (markedSystem_reached.tail commit).tail reset

lemma offeredSystem_reached :
    Relation.ReflTransGen (Step 0 .bigint id) loadedSystem offeredSystem := by
  have start : Step 0 .bigint id resetSystem (runningSystem none) := by
    have step : Step 0 .bigint id resetSystem _ := .start resetSystem ()
    simpa only [resetSystem, runningSystem, cprange_maps] using step
  have scan : Step 0 .bigint id (runningSystem none) (runningSystem (some [4])) := by
    have step : Step 0 .bigint id (runningSystem none) _ :=
      @Step.scan _ _ _ _ _ (runningSystem none) () _ rfl
    simpa only [runningSystem, Function.update_idem] using step
  have covers : ∀ v ∈ [(4 : Int)], Covers id ⟨2, 5⟩ v := by simp [Covers]
  have update : Step 0 .bigint id (runningSystem (some [4])) { runningSystem (some [4]) with
      map := offeredMap, increments := increments 0 (runningSystem (some [4])) offeredMap } :=
    @Step.update _ _ _ _ _ (runningSystem (some [4])) () _ _ _ _ _ rfl rfl
      (lookupKey_single (firstLbid 0 (runningSystem (some [4])).map) ⟨5, 2, 2⟩) rfl covers
      (by simp [runningSystem]) (by simp only [runningSystem, offeredMap])
  have count : increments 0 (runningSystem (some [4])) offeredMap = 3 := by
    simp [increments, runningSystem, cprange_maps]
  rw [count] at update
  exact ((resetSystem_reached.tail start).tail scan).tail update

/-- Behind a writer, a query starts, scans the new value and offers a range. -/
theorem query_range_covers : (cprange 0 offeredSystem.map).isValid = .valid ∧
    offeredSystem.committed = [4] ∧ ∀ v ∈ offeredSystem.committed,
      Covers id ⟨(cprange 0 offeredSystem.map).loVal, (cprange 0 offeredSystem.map).hiVal⟩ v := by
  have isValid : (cprange 0 offeredSystem.map).isValid = .valid := by
    simp only [offeredSystem, cprange_maps]
  exact ⟨isValid, rfl, valid_range_covers loadedSystem_initial offeredSystem_reached isValid⟩

/-- The extent is updating behind the mark, and three calls change the range. -/
theorem marked_and_counted : (cprange 0 markedSystem.map).isValid = .updating ∧
    (cprange 0 offeredSystem.map).sequenceNum =
      ((cprange 0 loadedSystem.map).sequenceNum + 3) % 2000000001 :=
  ⟨(writer_keeps_updating loadedSystem_initial markedSystem_reached).1 nofun,
    (writer_keeps_updating loadedSystem_initial offeredSystem_reached).2⟩

end CPProtocol
