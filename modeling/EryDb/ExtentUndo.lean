import EryDb.LbidSpace

/-!
# What undoing an extent map call restores

Creation, high water marks, statuses and casual partitioning record every cell they
write, so a replay of the log leaves the memory as it was. Deleting an extent records
the two pointer variables in the place of the two headers, so the byte counter of the
extent table does not come back. Replica roots are rewritten with no record at all.

A segment that grows moves, and what happens to the records into it is left open here.
-/

namespace ExtentUndo

open ImageUndo ImageUndo.Undoable SlotScan BrmTypes ExtentMap ExtentCreation ExtentUpdates LbidSpace
open CasualPartitions ExtentCalls

/-- Everything written since `s` was recorded, unless a segment grew. -/
structure Keeps (s t : Map) : Prop where
  emGrowth : (fEMShminfo s).allocdSize ≤ (fEMShminfo t).allocdSize
  flGrowth : (fFLShminfo s).allocdSize ≤ (fFLShminfo t).allocdSize
  still : (fEMShminfo t).allocdSize = (fEMShminfo s).allocdSize →
    (fFLShminfo t).allocdSize = (fFLShminfo s).allocdSize →
    t.dangling = s.dangling ∧ t.restored = s.restored

lemma Keeps.refl (s : Map) : Keeps s s := ⟨le_rfl, le_rfl, fun _ _ => ⟨rfl, rfl⟩⟩

lemma Keeps.trans {s t u : Map} (first : Keeps s t) (second : Keeps t u) : Keeps s u := by
  refine ⟨first.emGrowth.trans second.emGrowth, first.flGrowth.trans second.flGrowth, ?_⟩
  intro em fl
  have em₁ := first.emGrowth
  have em₂ := second.emGrowth
  have fl₁ := first.flGrowth
  have fl₂ := second.flGrowth
  obtain ⟨dangling₁, hres₁⟩ := first.still (by omega) (by omega)
  obtain ⟨dangling₂, hres₂⟩ := second.still (by omega) (by omega)
  exact ⟨dangling₂.trans dangling₁, hres₂.trans hres₁⟩

/-- Since `s` the extents deleted are `k` in number, each counted off the header of the
extent table with no record of it. -/
structure Counts (k : Nat) (s t : Map) : Prop where
  emAlloc : (fEMShminfo t).allocdSize = (fEMShminfo s).allocdSize
  emCurrent : (fEMShminfo t).currentSize = (fEMShminfo s).currentSize - k * sizeofEMEntry
  emUnrecorded : ¬ s.Recorded .emShminfo → ¬ t.Recorded .emShminfo
  flGrowth : (fFLShminfo s).allocdSize ≤ (fFLShminfo t).allocdSize

lemma Counts.refl (s : Map) : Counts 0 s s := ⟨rfl, by simp, id, le_rfl⟩

lemma Counts.trans {k l : Nat} {s t u : Map} (first : Counts k s t) (second : Counts l t u) :
    Counts (k + l) s u := by
  constructor
  · exact second.emAlloc.trans first.emAlloc
  · rw [second.emCurrent, first.emCurrent]
    push_cast
    ring
  · exact fun fresh => second.emUnrecorded (first.emUnrecorded fresh)
  · exact first.flGrowth.trans second.flGrowth

/-- Besides, while no extent is deleted everything written is recorded. -/
structure Frees (k : Nat) (s t : Map) : Prop extends Counts k s t where
  none : k = 0 → Keeps s t

lemma Frees.refl (s : Map) : Frees 0 s s := ⟨Counts.refl s, fun _ => Keeps.refl s⟩

lemma Frees.trans {k l : Nat} {s t u : Map} (first : Frees k s t) (second : Frees l t u) :
    Frees (k + l) s u :=
  ⟨first.toCounts.trans second.toCounts, fun zero =>
    (first.none (by omega)).trans (second.none (by omega))⟩

section Recorded

variable {s : Map} {a : Addr} {i : Nat}

lemma restored_putExtent (hrec : s.Recorded (.extent i)) (e : EMEntry) :
    (putExtent s i e).restored = s.restored :=
  restored_store _ hrec

lemma restored_putFree (hrec : s.Recorded (.free i)) (r : InlineLBIDRange) :
    (putFree s i r).restored = s.restored :=
  restored_store _ hrec

lemma restored_addEMSize (hrec : s.Recorded .emShminfo) (d : Int) :
    (addEMSize s d).restored = s.restored :=
  restored_store _ hrec

lemma restored_addFLSize (hrec : s.Recorded .flShminfo) (d : Int) :
    (addFLSize s d).restored = s.restored :=
  restored_store _ hrec

variable (e : EMEntry)

@[simp] lemma recorded_putExtent : (putExtent s i e).Recorded a ↔ s.Recorded a := Iff.rfl

variable (r : InlineLBIDRange)

@[simp] lemma recorded_putFree : (putFree s i r).Recorded a ↔ s.Recorded a := Iff.rfl

variable (d : Int)

@[simp] lemma recorded_addEMSize : (addEMSize s d).Recorded a ↔ s.Recorded a := Iff.rfl

@[simp] lemma recorded_addFLSize : (addFLSize s d).Recorded a ↔ s.Recorded a := Iff.rfl

end Recorded

lemma modifyExtent_keeps (i : Nat) (change : EMEntry → EMEntry) (s : Map) :
    Keeps s (modifyExtent i change s) := by
  refine ⟨by simp [modifyExtent], by simp [modifyExtent], fun _ _ => ⟨rfl, ?_⟩⟩
  rw [modifyExtent, restored_putExtent (by simp), restored_makeUndoRecord]

lemma modifyExtent_frees (i : Nat) (change : EMEntry → EMEntry) (s : Map) :
    Frees 0 s (modifyExtent i change s) := by
  refine ⟨⟨?_, ?_, ?_, ?_⟩, fun _ => modifyExtent_keeps i change s⟩ <;> simp [modifyExtent]

lemma migrateUpward_log (s : Map) (index : Nat) (freeIndex : Option Nat) :
    fFLShminfo (migrateUpward s index freeIndex).2 = fFLShminfo s ∧
      (¬ s.Recorded .emShminfo → ¬ (migrateUpward s index freeIndex).2.Recorded .emShminfo) := by
  unfold migrateUpward
  split
  · split <;> simp
  · simp

lemma growFLShmseg_unrecorded {s : Map} (fresh : ¬ s.Recorded .emShminfo) :
    ¬ (growFLShmseg s).Recorded .emShminfo := by
  rintro ⟨d, hm, start⟩
  exact fresh ⟨d, (List.mem_filter.mp hm).1, start⟩

/-- Returning a range to the free list never records the header of the extent table. -/
lemma releaseRange_log (r : InlineLBIDRange) (s : Map) :
    (fFLShminfo s).allocdSize ≤ (fFLShminfo (releaseRange r s)).allocdSize ∧
      (¬ s.Recorded .emShminfo → ¬ (releaseRange r s).Recorded .emShminfo) := by
  have migrated := fun index => migrateUpward_log (s.makeUndoRecord (.free index)) index
    (findFit (fFreeList s) r (flEntries s)).freeIndex
  simp only [releaseRange]
  split
  · rename_i p n _ _
    obtain ⟨fl, unrecorded⟩ := migrated p
    simp_all
  · rename_i n _ _
    obtain ⟨fl, unrecorded⟩ := migrated n
    simp_all
  · rename_i p _ _
    obtain ⟨fl, unrecorded⟩ := migrated p
    simp_all
  · split
    · exact ⟨by simp, fun fresh => by simpa using growFLShmseg_unrecorded fresh⟩
    · simp

lemma deleteExtent_counts (i : Nat) (s : Map) : Counts 1 s (deleteExtent i s) := by
  obtain ⟨growth, unrecorded⟩ := releaseRange_log (fExtentMap s i).range s
  constructor
  · simp
  · simp [sub_eq_add_neg]
  · simpa [deleteExtent] using unrecorded
  · simpa using growth

lemma deleteExtent_frees (i : Nat) (s : Map) : Frees 1 s (deleteExtent i s) :=
  ⟨deleteExtent_counts i s, fun one => by omega⟩

lemma applyVerdict_frees (v : Verdict) (i : Nat) (s : Map) :
    Frees (if v = .delete then 1 else 0) s (applyVerdict v i s) := by
  cases v with
  | delete => exact deleteExtent_frees i s
  | keep => exact .refl s
  | reset hwm =>
    change Frees 0 s (resetHwm i hwm s)
    unfold resetHwm
    split
    · exact modifyExtent_frees i _ s
    · exact Frees.refl s

/-- Entries from slot `n` on are as they were. -/
def Ahead (n : Nat) (s t : Map) : Prop := ∀ i, n ≤ i → fExtentMap t i = fExtentMap s i

lemma applyVerdict_ahead (v : Verdict) {i j : Nat} (s : Map) (later : i < j) :
    fExtentMap (applyVerdict v i s) j = fExtentMap s j := by
  have ho : j ≠ i := by omega
  cases v with
  | delete => simp [applyVerdict, ho]
  | keep => rfl
  | reset hwm =>
    simp only [applyVerdict, resetHwm]
    split <;> simp [modifyExtent, ho]

section VerdictLoop

variable {Scan : Type} (rule : Scan → EMEntry → Scan × Verdict)

/-- What a scan of the table knows before slot `i`. -/
def scanAt (em : Nat → EMEntry) (start : Scan) (i : Nat) : Scan :=
  forEach (fun i st => (rule st (em i)).1) i start

/-- The scan decides to delete slot `i`. -/
def Doomed (em : Nat → EMEntry) (start : Scan) (i : Nat) : Prop :=
  (rule (scanAt rule em start i) (em i)).2 = .delete

instance (em : Nat → EMEntry) (start : Scan) : DecidablePred (Doomed rule em start) :=
  fun i => inferInstanceAs (Decidable ((rule (scanAt rule em start i) (em i)).2 = .delete))

/-- The body of a loop that applies the verdict of a rule to one slot after the other. -/
structure VerdictLoop {Acc : Type} (known : Acc → Scan) (map : Acc → Map)
    (body : Nat → Acc → Acc) : Prop where
  scans : ∀ i acc, known (body i acc) = (rule (known acc) (fExtentMap (map acc) i)).1
  applies : ∀ i acc, map (body i acc) =
    applyVerdict (rule (known acc) (fExtentMap (map acc) i)).2 i (map acc)

variable {rule} {Acc : Type} {known : Acc → Scan} {map : Acc → Map} {body : Nat → Acc → Acc}

/-- Before slot `n` the loop knows what the scan of the table it started from knows, and the
slots from `n` on are untouched. -/
lemma VerdictLoop.ahead (loop : VerdictLoop rule known map body) (start : Acc) (n : Nat) :
    known (forEach body n start) = scanAt rule (fExtentMap (map start)) (known start) n ∧
      Ahead n (map start) (map (forEach body n start)) := by
  induction n with
  | zero => exact ⟨rfl, fun _ _ => rfl⟩
  | succ n ih =>
    obtain ⟨hsc, ahead⟩ := ih
    rw [forEach_succ, loop.applies, loop.scans, hsc, ahead n le_rfl]
    refine ⟨rfl, fun j later => ?_⟩
    rw [applyVerdict_ahead _ _ (by omega), ahead j (by omega)]

/-- Such a loop deletes as many extents as the rule dooms in the table it started from. -/
lemma VerdictLoop.frees (loop : VerdictLoop rule known map body) (start : Acc) (n : Nat) :
    Frees (Nat.count (Doomed rule (fExtentMap (map start)) (known start)) n) (map start)
      (map (forEach body n start)) := by
  induction n with
  | zero => exact .refl _
  | succ n ih =>
    obtain ⟨hsc, ahead⟩ := loop.ahead start n
    rw [forEach_succ, loop.applies, hsc, ahead n le_rfl, Nat.count_succ]
    exact ih.trans (applyVerdict_frees _ n _)

end VerdictLoop

def rollbackColumnRule (oid : Int) (bDeleteAll : Bool) (dbRoot : DBRootsStruct)
    (partitionNum segmentNum hwm : Nat) (st : Stripe) (e : EMEntry) : Stripe × Verdict :=
  if e.range.size ≠ 0 ∧ e.fileID = oid ∧ e.dbRoots = dbRoot ∧ e.status ≠ .outOfService then
    if bDeleteAll then (st, .delete)
    else
      let st := stripeOf st hwm e.range.size
      (st, columnVerdict st partitionNum segmentNum hwm e)
  else (st, .keep)

def rollbackDictRule (oid : Int) (dbRoot : DBRootsStruct) (partitionNum : Nat)
    (segNums hwms : List Nat) (known : List (Nat × Nat × Nat)) (e : EMEntry) :
    List (Nat × Nat × Nat) × Verdict :=
  if e.range.size ≠ 0 ∧ e.fileID = oid ∧ e.dbRoots = dbRoot ∧ e.status ≠ .outOfService then
    if hwms.length = 0 then (known, .delete)
    else
      let segs := if known.length = 0 then segToHwmMap segNums hwms e.range.size else known
      (segs, dictVerdict segs partitionNum e)
  else (known, .keep)

/-- The rule shared by the two calls that delete extents behind the high water marks of
several objects. -/
def emptyExtentRule (verdict : Stripe → ExtentInfo → EMEntry → Verdict)
    (extentsInfo : List (Int × ExtentInfo)) (st : Stripe) (e : EMEntry) : Stripe × Verdict :=
  match lookupKey e.fileID extentsInfo with
  | none => (st, .keep)
  | some info =>
    if e.range.size ≠ 0 ∧ e.status ≠ .outOfService then
      let st := stripeOf st info.hwm e.range.size
      (st, verdict st info e)
    else (st, .keep)

def emptyColVerdict (st : Stripe) (info : ExtentInfo) (e : EMEntry) : Verdict :=
  columnVerdict st info.partitionNum info.segmentNum info.hwm e

/-- No slot of the extent table is deleted by the scan. -/
def spares {Scan : Type} (rule : Scan → EMEntry → Scan × Verdict) (start : Scan) (s : Map) :
    Prop :=
  ∀ i, i < emEntries s → ¬ Doomed rule (fExtentMap s) start i

lemma deleteAll_frees (extents : List Nat) (s : Map) :
    Frees extents.length s (extents.foldl (fun s i => deleteExtent i s) s) := by
  induction extents generalizing s with
  | nil => exact .refl s
  | cons i extents ih =>
    rw [List.length_cons, Nat.add_comm]
    exact (deleteExtent_frees i s).trans (ih (deleteExtent i s))

lemma makeRoom_keeps (s : Map) : Keeps s (makeRoom s) := by
  unfold makeRoom
  split
  · refine ⟨by simp, by simp, fun he => ?_⟩
    simp [emIncrement, sizeofEMEntry] at he
  · exact Keeps.refl s

lemma getLBIDsFromFreeList_keeps (size : Nat) (s : Map) :
    Keeps s (getLBIDsFromFreeList size s).2 := by
  unfold getLBIDsFromFreeList
  split
  · exact Keeps.refl s
  simp only
  split
  · refine ⟨by simp, by simp, fun _ _ => ⟨rfl, ?_⟩⟩
    rw [restored_addFLSize (by simp), restored_makeUndoRecord, restored_putFree (by simp),
      restored_makeUndoRecord]
  · refine ⟨by simp, by simp, fun _ _ => ⟨rfl, ?_⟩⟩
    rw [restored_putFree (by simp), restored_makeUndoRecord]

lemma allocateExtent_keeps (size : Nat) (entry : Map → InlineLBIDRange → EMEntry) (s : Map) :
    Keeps s (allocateExtent size entry s).2 := by
  have taken := (makeRoom_keeps s).trans (getLBIDsFromFreeList_keeps size (makeRoom s))
  unfold allocateExtent
  split
  · rename_i answer
    simpa [answer] using taken
  rename_i answer
  rw [answer] at taken
  split
  · exact taken
  · refine taken.trans ⟨by simp, by simp, fun _ _ => ⟨rfl, ?_⟩⟩
    rw [restored_addEMSize (by simp), restored_makeUndoRecord, restored_putExtent (by simp),
      restored_makeUndoRecord]

lemma createColumnExtentDBroot_keeps (cfg : Config) (oid : Int) (colWidth : Nat)
    (dbRoot : DBRootsStruct) (colDataType : ColDataType) (partitionNum : Nat) (s : Map) :
    Keeps s (ExtentCreation.createColumnExtentDBroot cfg oid colWidth dbRoot colDataType
      partitionNum s).2 := by
  rw [ExtentCreation.createColumnExtentDBroot, created_map]
  exact allocateExtent_keeps _ _ s

lemma keeps_of_modifies {s t : Map} (hmod : Modifies s t) : Keeps s t := by
  induction hmod with
  | refl => exact .refl _
  | step _ _ ih => exact ih.trans (modifyExtent_keeps _ _ _)

section Rewriting

variable {body : Nat → Map → Map} {change : EMEntry → EMEntry} {n : Nat} {s : Map}

lemma putExtent_same (s : Map) (i : Nat) : putExtent s i (fExtentMap s i) = s := by
  simp [putExtent, fExtentMap, store]

variable (step : ∀ i t, i < n → fExtentMap t i = fExtentMap s i →
  body i t = putExtent t i (change (fExtentMap t i)))
include step

/-- A loop that rewrites entries in place leaves the log as it was. -/
lemma rewriteLoop_log : (forEach body n s).undoRecords = s.undoRecords ∧
      ∀ i, i < n → fExtentMap (forEach body n s) i = change (fExtentMap s i) := by
  suffices loop : (forEach body n s).undoRecords = s.undoRecords ∧
      ∀ i, fExtentMap (forEach body n s) i =
        if i < n then change (fExtentMap s i) else fExtentMap s i from
    ⟨loop.1, fun i bound => by simpa [bound] using loop.2 i⟩
  refine forEach_invariant (fun k t => t.undoRecords = s.undoRecords ∧ ∀ i, fExtentMap t i =
    if i < k then change (fExtentMap s i) else fExtentMap s i) ⟨rfl, by simp⟩ ?_
  rintro k t bound ⟨records, entries⟩
  have hh : fExtentMap t k = fExtentMap s k := by simp [entries]
  rw [step k t bound hh]
  refine ⟨records, fun i => ?_⟩
  by_cases he : i = k
  · simp [he, hh]
  · have : i < k + 1 ↔ i < k := by omega
    simp [he, entries, this]

lemma rewriteLoop_fixed (fixed : ∀ i, i < n → change (fExtentMap s i) = fExtentMap s i) :
    forEach body n s = s :=
  forEach_fixed (fun i bound => by
    rw [step i s bound rfl, fixed i bound, putExtent_same])

end Rewriting

/-- The state an undo right after a call would leave agrees with `s` on the entries of
both tables and on both byte counters. -/
def RestoresTo (s t : Map) : Prop :=
  ∃ u, t.undoChanges = some u ∧ (∀ i, fExtentMap u i = fExtentMap s i) ∧
    (∀ i, fFreeList u i = fFreeList s i) ∧ (fEMShminfo u).currentSize = (fEMShminfo s).currentSize ∧
    (fFLShminfo u).currentSize = (fFLShminfo s).currentSize

/-- No segment is larger in `t` than in `s`. -/
def NotGrown (s t : Map) : Prop := (fEMShminfo t).allocdSize = (fEMShminfo s).allocdSize ∧
    (fFLShminfo t).allocdSize = (fFLShminfo s).allocdSize

/-- Between calls the log is empty and no record dangles. -/
def Quiet (s : Map) : Prop := s.undoRecords = [] ∧ s.dangling = 0

lemma reachable_quiet {cfg : Config} {s : Map} (hr : Reachable cfg s) : Quiet s := by
  cases hr with
  | fresh => exact ⟨rfl, rfl⟩
  | step c _ _ _ => exact ⟨rfl, rfl⟩

section Outcome

variable {s t : Map} {k : Nat}

lemma Quiet.restored (hq : Quiet s) : s.restored = s.image := by
  simp [Undoable.restored, hq.1, restore]

lemma Quiet.restoresTo_self (hq : Quiet s) : RestoresTo s s := by
  refine ⟨clean s.restored, by simp [undoChanges, hq.2, Undoable.restored], ?_⟩
  rw [hq.restored]
  exact ⟨fun _ => rfl, fun _ => rfl, rfl, rfl⟩

lemma Keeps.restoresTo (keeps : Keeps s t) (hq : Quiet s) (still : NotGrown s t) :
    RestoresTo s t := by
  obtain ⟨dangling, hres⟩ := keeps.still still.1 still.2
  refine ⟨clean t.restored, by simp [undoChanges, dangling, hq.2, Undoable.restored], ?_⟩
  rw [hres, hq.restored]
  exact ⟨fun _ => rfl, fun _ => rfl, rfl, rfl⟩

lemma Counts.none_of_restoresTo (counts : Counts k s t) (hq : Quiet s)
    (restores : RestoresTo s t) : k = 0 := by
  obtain ⟨u, undone, -, -, hcu, -⟩ := restores
  have fresh : ¬ t.Recorded .emShminfo := counts.emUnrecorded (by simp [Recorded, hq.1])
  have replayed : u = clean t.restored := by
    simp only [undoChanges] at undone
    split at undone
    · exact (Option.some.inj undone).symm
    · simp at undone
  have kept : fEMShminfo u = fEMShminfo t := by
    rw [replayed]
    exact restored_apply fresh
  rw [kept, counts.emCurrent] at hcu
  simp only [sizeofEMEntry] at hcu
  omega

lemma Frees.restoresTo_iff (frees : Frees k s t) (hq : Quiet s) (still : NotGrown s t) :
    RestoresTo s t ↔ k = 0 :=
  ⟨frees.toCounts.none_of_restoresTo hq, fun zero => (frees.none zero).restoresTo hq still⟩

/-- Undoing a loop that applies a rule is exact if the rule dooms no extent. -/
lemma VerdictLoop.restoresTo_iff {Scan Acc : Type} {rule : Scan → EMEntry → Scan × Verdict}
    {known : Acc → Scan} {map : Acc → Map} {body : Nat → Acc → Acc}
    (loop : VerdictLoop rule known map body) (start : Acc) (hq : Quiet (map start))
    (still : NotGrown (map start) (map (forEach body (emEntries (map start)) start))) :
    RestoresTo (map start) (map (forEach body (emEntries (map start)) start)) ↔
      spares rule (known start) (map start) :=
  ((loop.frees start _).restoresTo_iff hq still).trans Nat.count_iff_forall_not

lemma rewriteLoop_restoresTo_iff {body : Nat → Map → Map} {n : Nat}
    (change : EMEntry → EMEntry) (hq : Quiet s)
    (step : ∀ i t, i < n → fExtentMap t i = fExtentMap s i →
      body i t = putExtent t i (change (fExtentMap t i))) :
    RestoresTo s (forEach body n s) ↔ ∀ i, i < n → change (fExtentMap s i) = fExtentMap s i := by
  constructor
  · rintro ⟨u, undone, entries, -⟩ i bound
    obtain ⟨records, rewritten⟩ := rewriteLoop_log step
    have replayed : fExtentMap u i = fExtentMap (forEach body n s) i := by
      simp only [undoChanges, records, hq.1] at undone
      split at undone
      · rw [← Option.some.inj undone]
        rfl
      · simp at undone
    rw [← rewritten i bound, ← replayed, entries i]
  · intro fixed
    rw [rewriteLoop_fixed step fixed]
    exact hq.restoresTo_self

end Outcome

def deleteWhereRule (doomed : EMEntry → Bool) (_ : Unit) (e : EMEntry) : Unit × Verdict :=
  ((), if e.range.size ≠ 0 ∧ doomed e = true then .delete else .keep)

def newFileRule (extentsInfo : List (Int × ExtentInfo)) (_ : Unit) (e : EMEntry) : Unit × Verdict :=
  ((), newFileVerdict extentsInfo e)

/-- The last replica root of a used extent. -/
def onlyRoot (dbr : Nat) (e : EMEntry) : Prop :=
  e.range.size ≠ 0 ∧ e.dbRoots.get 0 = dbr ∧ e.dbRoots.get 1 = 0

instance (dbr : Nat) : DecidablePred (onlyRoot dbr) := fun e =>
  inferInstanceAs (Decidable (e.range.size ≠ 0 ∧ e.dbRoots.get 0 = dbr ∧ e.dbRoots.get 1 = 0))

/-- The states in which undoing a call restores what was there: no extent is deleted and no
replica root changes. -/
def undoExact (s : Map) : Call → Prop
  | .rollbackColumnExtentsDBroot oid bDeleteAll dbRoot partitionNum segmentNum hwm =>
    spares (rollbackColumnRule oid bDeleteAll dbRoot partitionNum segmentNum hwm) noStripe s
  | .rollbackDictStoreExtentsDBroot oid dbRoot partitionNum segNums hwms =>
    spares (rollbackDictRule oid dbRoot partitionNum segNums hwms) [] s
  | .deleteEmptyColExtents extentsInfo =>
    spares (emptyExtentRule emptyColVerdict extentsInfo) noStripe s
  | .deleteEmptyDictStoreExtents extentsInfo =>
    if (extentsInfo.head?.map (fun entry => entry.2.newFile)).getD false then
      spares (newFileRule extentsInfo) () s
    else spares (emptyExtentRule oldFileVerdict extentsInfo) noStripe s
  | .deleteOID oid => ∀ i, i < emEntries s →
      ¬ ((fExtentMap s i).range.size ≠ 0 ∧ (fExtentMap s i).fileID = oid)
  | .deleteOIDs oids => ∀ i, i < emEntries s →
      ¬ ((fExtentMap s i).range.size ≠ 0 ∧ (fExtentMap s i).fileID ∈ oids)
  | .deletePartition oids partitionNums =>
    oids = ∅ ∨ partitionExtents oids partitionNums s = []
  | .bulkUpdateDBRoot args => ∀ i, i < emEntries s → ∀ arg,
      args.find? (fun arg => decide (arg.startLBID = (fExtentMap s i).range.start)) = some arg →
      arg.dbRoot = (fExtentMap s i).dbRoots
  | .deleteDBRoot dbr => ∀ i, i < emEntries s → (fExtentMap s i).range.size ≠ 0 →
      ¬ onlyRoot dbr (fExtentMap s i) ∧ (fExtentMap s i).dbRoots.getDbrIndex dbr = none
  | _ => True

section Loops

variable (s : Map)

lemma deleteWhere_loop (doomed : EMEntry → Bool) :
    VerdictLoop (deleteWhereRule doomed) (fun _ : Map => ()) id (fun i s =>
      if (fExtentMap s i).range.size ≠ 0 ∧ doomed (fExtentMap s i) = true then deleteExtent i s
      else s) := by
  refine ⟨fun _ _ => rfl, fun i t => ?_⟩
  simp only [deleteWhereRule, id]
  split <;> rfl

variable (oid : Int)

lemma rollbackColumn_loop (bDeleteAll : Bool) (dbRoot : DBRootsStruct)
    (partitionNum segmentNum hwm : Nat) :
    VerdictLoop (rollbackColumnRule oid bDeleteAll dbRoot partitionNum segmentNum hwm)
      Prod.fst Prod.snd (rollbackColumnStep oid bDeleteAll dbRoot partitionNum segmentNum hwm) := by
  constructor <;>
  · intro i acc
    simp only [rollbackColumnStep, rollbackColumnRule]
    split
    · split <;> rfl
    · rfl

variable (dbRoot : DBRootsStruct) (partitionNum : Nat)

lemma rollbackDict_loop (segNums hwms : List Nat) :
    VerdictLoop (rollbackDictRule oid dbRoot partitionNum segNums hwms) Prod.fst Prod.snd
      (rollbackDictStep oid dbRoot partitionNum segNums hwms) := by
  constructor <;>
  · intro i acc
    simp only [rollbackDictStep, rollbackDictRule]
    split
    · split <;> rfl
    · rfl

variable (extentsInfo : List (Int × ExtentInfo))

lemma deleteEmptyCol_loop :
    VerdictLoop (emptyExtentRule emptyColVerdict extentsInfo) Prod.fst Prod.snd
      (deleteEmptyColStep extentsInfo) := by
  constructor <;>
  · intro i acc
    cases hf : lookupKey (fExtentMap acc.2 i).fileID extentsInfo with
    | none => simp [deleteEmptyColStep, emptyExtentRule, hf, applyVerdict]
    | some info =>
      simp only [deleteEmptyColStep, emptyExtentRule, emptyColVerdict, hf]
      split <;> rfl

lemma deleteEmptyDict_loop :
    VerdictLoop (emptyExtentRule oldFileVerdict extentsInfo) Prod.fst Prod.snd
      (deleteEmptyDictStep extentsInfo) := by
  constructor <;>
  · intro i acc
    cases hf : lookupKey (fExtentMap acc.2 i).fileID extentsInfo with
    | none => simp [deleteEmptyDictStep, emptyExtentRule, hf, applyVerdict]
    | some info =>
      simp only [deleteEmptyDictStep, emptyExtentRule, hf]
      split <;> rfl

lemma newFiles_loop : VerdictLoop (newFileRule extentsInfo) (fun _ : Map => ()) id (fun i s =>
      applyVerdict (newFileVerdict extentsInfo (fExtentMap s i)) i s) :=
  ⟨fun _ _ => rfl, fun _ _ => rfl⟩

lemma deleteDBRoot_counts (dbr : Nat) :
    Counts (Nat.count (fun i => onlyRoot dbr (fExtentMap s i)) (emEntries s)) s
      (deleteDBRoot dbr s) := by
  refine (forEach_invariant (fun k t => Counts (Nat.count (fun i => onlyRoot dbr
    (fExtentMap s i)) k) s t ∧ Ahead k s t) ⟨Counts.refl s, fun _ _ => rfl⟩ ?_).1
  rintro k t - ⟨counts, ahead⟩
  have hh := ahead k le_rfl
  have later : ∀ j, k + 1 ≤ j → j ≠ k := fun j above => by omega
  rw [Nat.count_succ]
  simp only [hh]
  by_cases hu : (fExtentMap s k).range.size ≠ 0
  · by_cases only : (fExtentMap s k).dbRoots.get 0 = dbr ∧ (fExtentMap s k).dbRoots.get 1 = 0
    · have root : onlyRoot dbr (fExtentMap s k) := ⟨hu, only⟩
      rw [if_pos hu, if_pos only, if_pos root]
      refine ⟨counts.trans (deleteExtent_counts k t), fun j above => ?_⟩
      rw [fExtentMap_deleteExtent, if_neg (later j above), ahead j (by omega)]
    · have root : ¬ onlyRoot dbr (fExtentMap s k) := fun both => only both.2
      rw [if_pos hu, if_neg only, if_neg root]
      refine ⟨counts.trans ⟨by simp, by simp, by simp, by simp⟩, fun j above => ?_⟩
      rw [fExtentMap_putExtent, if_neg (later j above), ahead j (by omega)]
  · have root : ¬ onlyRoot dbr (fExtentMap s k) := fun both => hu both.1
    rw [if_neg hu, if_neg root]
    exact ⟨counts, fun j above => ahead j (by omega)⟩

def withoutRoot (dbr : Nat) (e : EMEntry) : EMEntry :=
  if e.range.size ≠ 0 then { e with dbRoots := e.dbRoots.remove dbr } else e

lemma withoutRoot_eq_self_iff (dbr : Nat) (e : EMEntry) : withoutRoot dbr e = e ↔
    (e.range.size ≠ 0 → e.dbRoots.getDbrIndex dbr = none) := by
  unfold withoutRoot
  split
  · rename_i hu
    rw [← DBRootsStruct.remove_eq_self_iff]
    exact ⟨fun he _ => congrArg EMEntry.dbRoots he, fun he => by rw [he hu]⟩
  · rename_i hun
    simp [hun]

lemma deleteDBRoot_restoresTo_iff {s : Map} (hq : Quiet s) (dbr : Nat) :
    RestoresTo s (deleteDBRoot dbr s) ↔ undoExact s (.deleteDBRoot dbr) := by
  by_cases hspa : ∀ i, i < emEntries s → ¬ onlyRoot dbr (fExtentMap s i)
  · refine (rewriteLoop_restoresTo_iff (withoutRoot dbr) hq ?_).trans ?_
    · intro i t bound he
      have root := hspa i bound
      rw [← he] at root
      simp only [withoutRoot]
      split
      · rename_i hu
        rw [if_neg (fun both => root ⟨hu, both⟩)]
      · rename_i hu
        rw [putExtent_same]
    · simp only [withoutRoot_eq_self_iff, undoExact]
      exact ⟨fun missing i bound hu => ⟨hspa i bound, missing i bound hu⟩,
        fun both i bound hu => (both i bound hu).2⟩
  · refine iff_of_false (fun restores => ?_) (fun undoable => ?_)
    · exact hspa (Nat.count_iff_forall_not.mp
        ((deleteDBRoot_counts s dbr).none_of_restoresTo hq restores))
    · exact hspa (fun i bound root => (undoable i bound root.1).1 root)

def withRoots (args : List BulkUpdateDBRootArg) (e : EMEntry) : EMEntry :=
  match args.find? (fun arg => decide (arg.startLBID = e.range.start)) with
  | some arg => { e with dbRoots := arg.dbRoot }
  | none => e

lemma bulkUpdateDBRoot_restoresTo_iff {s : Map} (hq : Quiet s) (args : List BulkUpdateDBRootArg) :
    RestoresTo s (bulkUpdateDBRoot args s) ↔ undoExact s (.bulkUpdateDBRoot args) := by
  refine (rewriteLoop_restoresTo_iff (withRoots args) hq ?_).trans ?_
  · intro i t _ _
    cases hf : args.find? (fun arg => decide (arg.startLBID = (fExtentMap t i).range.start)) with
    | none => simp only [withRoots, hf, putExtent_same]
    | some arg => simp only [withRoots, hf]
  simp only [undoExact]
  refine forall_congr' fun i => forall_congr' fun _ => ?_
  cases hf : args.find? (fun arg => decide (arg.startLBID = (fExtentMap s i).range.start)) with
  | none => simp [withRoots, hf]
  | some arg =>
    simp only [withRoots, hf, Option.some.injEq, forall_eq']
    exact ⟨fun he => congrArg EMEntry.dbRoots he, fun he => by rw [he]⟩

end Loops

/-- Undoing a call right after it, with no segment grown, restores the entries of both
tables and both counters exactly in the states `undoExact` describes. -/
theorem restoresTo_iff_undoExact {cfg : Config} {s : Map} (c : Call) (quiet : Quiet s)
    (still : NotGrown s (c.run cfg s).2) :
    RestoresTo s (c.run cfg s).2 ↔ undoExact s c := by
  cases c with
  | createColumnExtentDBroot oid colWidth dbRoot colDataType partitionNum =>
    refine iff_of_true (Keeps.restoresTo ?_ quiet still) trivial
    simpa [Call.run] using
      createColumnExtentDBroot_keeps cfg oid colWidth dbRoot colDataType partitionNum s
  | createColumnExtentExactFile oid colWidth dbRoot partitionNum segmentNum colDataType =>
    refine iff_of_true (Keeps.restoresTo ?_ quiet still) trivial
    simp only [Call.run, discard_map, createColumnExtentExactFile, created_map]
    exact allocateExtent_keeps _ _ s
  | createStripeColumnExtents cols dbRoot partitionNum =>
    refine iff_of_true (Keeps.restoresTo ?_ quiet still) trivial
    simp only [Call.run, discard_map]
    exact createStripeFrom_rule cfg (P := Keeps s) (Q := fun _ _ _ => True)
      (fun n col _ t kept _ =>
        ⟨kept.trans (createColumnExtentDBroot_keeps cfg col.oid col.width dbRoot
        col.colDataType n t), fun _ _ _ => trivial⟩) (.refl s) trivial
  | createDictStoreExtent oid dbRoot partitionNum segmentNum =>
    refine iff_of_true (Keeps.restoresTo ?_ quiet still) trivial
    simp only [Call.run, discard_map, createDictStoreExtent, created_map]
    exact allocateExtent_keeps _ _ s
  | rollbackColumnExtentsDBroot oid bDeleteAll dbRoot partitionNum segmentNum hwm =>
    exact (rollbackColumn_loop oid bDeleteAll dbRoot partitionNum segmentNum hwm).restoresTo_iff
      (noStripe, s) quiet still
  | rollbackDictStoreExtentsDBroot oid dbRoot partitionNum segNums hwms =>
    exact (rollbackDict_loop oid dbRoot partitionNum segNums hwms).restoresTo_iff
      ([], s) quiet still
  | deleteEmptyColExtents extentsInfo =>
    exact (deleteEmptyCol_loop extentsInfo).restoresTo_iff (noStripe, s) quiet still
  | deleteEmptyDictStoreExtents extentsInfo =>
    simp only [Call.run, ExtentUpdates.deleteEmptyDictStoreExtents, undoExact] at still ⊢
    split_ifs at still ⊢
    · exact (newFiles_loop extentsInfo).restoresTo_iff s quiet still
    · exact (deleteEmptyDict_loop extentsInfo).restoresTo_iff (noStripe, s) quiet still
  | deleteOID oid =>
    refine ((deleteWhere_loop fun e => decide (e.fileID = oid)).restoresTo_iff s quiet
      still).trans ?_
    simp [spares, Doomed, deleteWhereRule, undoExact]
  | deleteOIDs oids =>
    refine ((deleteWhere_loop fun e => decide (e.fileID ∈ oids)).restoresTo_iff s quiet
      still).trans ?_
    simp [spares, Doomed, deleteWhereRule, undoExact]
  | deletePartition oids partitionNums =>
    simp only [Call.run, ExtentUpdates.deletePartition, undoExact] at still ⊢
    by_cases noOids : oids = ∅
    · rw [if_pos noOids]
      exact iff_of_true quiet.restoresTo_self (Or.inl noOids)
    · rw [if_neg noOids] at still ⊢
      refine ((deleteAll_frees (partitionExtents oids partitionNums s) s).restoresTo_iff quiet
        still).trans ?_
      simp [noOids]
  | bulkUpdateDBRoot args => exact bulkUpdateDBRoot_restoresTo_iff quiet args
  | deleteDBRoot dbr => exact deleteDBRoot_restoresTo_iff quiet dbr
  | _ =>
    exact iff_of_true ((keeps_of_modifies (run_modifies s rfl)).restoresTo quiet still) trivial

/-- One column extent, created and confirmed. -/
def oneColumn : Map := (LbidSpace.firstColumn.run LbidSpace.exampleConfig fresh).2.confirmChanges

lemma oneColumn_reachable : Reachable LbidSpace.exampleConfig oneColumn :=
  .step firstColumn .fresh
    (by simp [firstColumn, Call.widthsValid, columnWidths]) (by decide +kernel)

theorem restoresTo_iff_undoExact_setLocalHWM :
    RestoresTo oneColumn ((Call.setLocalHWM 3000 0 0 5).run exampleConfig oneColumn).2 :=
  (restoresTo_iff_undoExact _ (reachable_quiet oneColumn_reachable)
    ⟨by decide +kernel, by decide +kernel⟩).mpr trivial

/-- The logical partition of that extent, given to `deletePartition`. -/
def dropColumn : Call := .deletePartition {3000} {(0, 0, 1)}

/-- Deleting the only extent and undoing that leaves the table counted as empty. -/
theorem deletePartition_not_restored : Reachable LbidSpace.exampleConfig oneColumn ∧
    NotGrown oneColumn (dropColumn.run exampleConfig oneColumn).2 ∧
    ¬ RestoresTo oneColumn (dropColumn.run exampleConfig oneColumn).2 := by
  refine ⟨oneColumn_reachable, ⟨by decide +kernel, by decide +kernel⟩, ?_⟩
  rintro ⟨u, undone, -, -, current, -⟩
  have emptied : (dropColumn.run exampleConfig oneColumn).2.undoChanges.map
      (fun u => (fEMShminfo u).currentSize) = some 0 := by decide +kernel
  have before : (fEMShminfo oneColumn).currentSize = 72 := by decide +kernel
  rw [undone, Option.map_some, current, before] at emptied
  simp at emptied

end ExtentUndo
