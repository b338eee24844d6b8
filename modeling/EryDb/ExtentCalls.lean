import EryDb.ExtentCreation
import EryDb.CasualPartitions

/-!
# The mutating calls of the extent map as one type

One constructor for each call, with its arguments. `run` is the call as a slave
node makes it: the exception it throws, if any, and the map it leaves behind. A
call that throws leaves whatever it had already changed.
-/

namespace ExtentCalls

open ImageUndo SlotScan BrmTypes ExtentMap ExtentCreation ExtentUpdates CasualPartitions

inductive Call where
  | createColumnExtentDBroot (oid : Int) (colWidth : Nat) (dbRoot : DBRootsStruct)
      (colDataType : ColDataType) (partitionNum : Nat)
  | createColumnExtentExactFile (oid : Int) (colWidth : Nat) (dbRoot : DBRootsStruct)
      (partitionNum segmentNum : Nat) (colDataType : ColDataType)
  | createStripeColumnExtents (cols : List CreateStripeColumnExtentsArgIn)
      (dbRoot : DBRootsStruct) (partitionNum : Nat)
  | createDictStoreExtent (oid : Int) (dbRoot : DBRootsStruct) (partitionNum segmentNum : Nat)
  | rollbackColumnExtentsDBroot (oid : Int) (bDeleteAll : Bool) (dbRoot : DBRootsStruct)
      (partitionNum segmentNum hwm : Nat)
  | rollbackDictStoreExtentsDBroot (oid : Int) (dbRoot : DBRootsStruct) (partitionNum : Nat)
      (segNums hwms : List Nat)
  | deleteEmptyColExtents (extentsInfo : List (Int × ExtentInfo))
  | deleteEmptyDictStoreExtents (extentsInfo : List (Int × ExtentInfo))
  | deleteOID (oid : Int)
  | deleteOIDs (oids : Finset Int)
  | deletePartition (oids : Finset Int) (partitionNums : Finset LogicalPartition)
  | markPartitionForDeletion (oids : Finset Int) (partitionNums : Finset LogicalPartition)
  | restorePartition (oids : Finset Int) (partitionNums : Finset LogicalPartition)
  | setLocalHWM (oid : Int) (partitionNum segmentNum newHWM : Nat)
  | bulkUpdateDBRoot (args : List BulkUpdateDBRootArg)
  | deleteDBRoot (dbr : Nat)
  | setExtentsMaxMin (cpMap : List (Int × CPMaxMin))
  | mergeExtentsMaxMin (cpMap : List (Int × CPMaxMinMerge))
  | markInvalid (lbid : Int) (colDataType : ColDataType)
  | markInvalidAll (lbids : List (Int × ColDataType))

def discard {Result : Type} : Outcome Result → Outcome Unit
  | (.error e, s) => (.error e, s)
  | (.ok _, s) => (.ok (), s)

@[simp] lemma discard_map {Result : Type} (answer : Outcome Result) :
    (discard answer).2 = answer.2 := by
  rcases answer with ⟨_ | _, _⟩ <;> rfl

def Call.run (cfg : Config) : Call → Map → Outcome Unit
  | .createColumnExtentDBroot oid colWidth dbRoot colDataType partitionNum, s =>
    discard (ExtentCreation.createColumnExtentDBroot cfg oid colWidth dbRoot colDataType
      partitionNum s)
  | .createColumnExtentExactFile oid colWidth dbRoot partitionNum segmentNum colDataType, s =>
    discard (ExtentCreation.createColumnExtentExactFile oid colWidth dbRoot partitionNum
      segmentNum colDataType s)
  | .createStripeColumnExtents cols dbRoot partitionNum, s =>
    discard (ExtentCreation.createStripeColumnExtents cfg cols dbRoot partitionNum s)
  | .createDictStoreExtent oid dbRoot partitionNum segmentNum, s =>
    discard (ExtentCreation.createDictStoreExtent oid dbRoot partitionNum segmentNum s)
  | .rollbackColumnExtentsDBroot oid bDeleteAll dbRoot partitionNum segmentNum hwm, s =>
    (.ok (), ExtentUpdates.rollbackColumnExtentsDBroot oid bDeleteAll dbRoot partitionNum
      segmentNum hwm s)
  | .rollbackDictStoreExtentsDBroot oid dbRoot partitionNum segNums hwms, s =>
    (.ok (), ExtentUpdates.rollbackDictStoreExtentsDBroot oid dbRoot partitionNum segNums hwms s)
  | .deleteEmptyColExtents extentsInfo, s =>
    (.ok (), ExtentUpdates.deleteEmptyColExtents extentsInfo s)
  | .deleteEmptyDictStoreExtents extentsInfo, s =>
    (.ok (), ExtentUpdates.deleteEmptyDictStoreExtents extentsInfo s)
  | .deleteOID oid, s => ExtentUpdates.deleteOID oid s
  | .deleteOIDs oids, s => (.ok (), ExtentUpdates.deleteOIDs oids s)
  | .deletePartition oids partitionNums, s => ExtentUpdates.deletePartition oids partitionNums s
  | .markPartitionForDeletion oids partitionNums, s =>
    ExtentUpdates.markPartitionForDeletion oids partitionNums s
  | .restorePartition oids partitionNums, s =>
    ExtentUpdates.restorePartition oids partitionNums s
  | .setLocalHWM oid partitionNum segmentNum newHWM, s =>
    ExtentUpdates.setLocalHWM oid partitionNum segmentNum newHWM s
  | .bulkUpdateDBRoot args, s => (.ok (), ExtentUpdates.bulkUpdateDBRoot args s)
  | .deleteDBRoot dbr, s => (.ok (), ExtentUpdates.deleteDBRoot dbr s)
  | .setExtentsMaxMin cpMap, s => CasualPartitions.setExtentsMaxMin cpMap s
  | .mergeExtentsMaxMin cpMap, s => CasualPartitions.mergeExtentsMaxMin cpMap s
  | .markInvalid lbid colDataType, s => CasualPartitions.markInvalid lbid colDataType s
  | .markInvalidAll lbids, s => (.ok (), CasualPartitions.markInvalidAll lbids s)

/-- A call succeeds when it throws nothing, or throws one of the partition warnings under
which the changes are confirmed all the same. -/
def succeeds : Except BrmExcept Unit → Bool
  | .ok _ => true
  | .error .errPartitionNotExist => true
  | .error .errPartitionAlreadyDisabled => true
  | .error .errPartitionAlreadyEnabled => true
  | .error .warnNoPartitionPerformed => true
  | .error _ => false

def columnWidths : List Nat := [1, 2, 4, 8]

/-- The column widths a call asks for are among those a column can have. -/
def Call.widthsValid : Call → Prop
  | .createColumnExtentDBroot _ colWidth _ _ _ => colWidth ∈ columnWidths
  | .createColumnExtentExactFile _ colWidth _ _ _ _ => colWidth ∈ columnWidths
  | .createStripeColumnExtents cols _ _ => ∀ col ∈ cols, col.width ∈ columnWidths
  | _ => True

/-- The maps successful calls lead to, each confirmed before the next. -/
inductive Reachable (cfg : Config) : Map → Prop where
  | fresh : Reachable cfg ExtentMap.fresh
  | step {s : Map} (c : Call) (reached : Reachable cfg s) (widths : c.widthsValid)
      (success : succeeds (c.run cfg s).1 = true) :
      Reachable cfg (c.run cfg s).2.confirmChanges

/-- A series of recorded rewrites of entries that leave the LBID ranges alone. -/
inductive Modifies (s : Map) : Map → Prop where
  | refl : Modifies s s
  | step {t : Map} {i : Nat} {change : EMEntry → EMEntry} (before : Modifies s t)
      (range : ∀ e, (change e).range = e.range) : Modifies s (modifyExtent i change t)

lemma Modifies.trans {s t u : Map} (first : Modifies s t) (second : Modifies t u) :
    Modifies s u := by
  induction second with
  | refl => exact first
  | step _ range ih => exact ih.step range

lemma modifyExtent_modifies (i : Nat) {change : EMEntry → EMEntry} (s : Map)
    (range : ∀ e, (change e).range = e.range) : Modifies s (modifyExtent i change s) :=
  Modifies.refl.step range

lemma setCPRange_modifies (change : CPRange → CPRange) (i : Nat) (s : Map) :
    Modifies s (setCPRange change i s) :=
  modifyExtent_modifies i s (fun _ => rfl)

lemma resetHwm_modifies (i hwm : Nat) (s : Map) : Modifies s (resetHwm i hwm s) := by
  unfold resetHwm
  split
  · exact modifyExtent_modifies i s (fun _ => rfl)
  · exact .refl

lemma setStatus_modifies (status : ExtentStatus) (extents : List Nat) (s : Map) :
    Modifies s (setStatus status extents s) := by
  induction extents generalizing s with
  | nil => exact .refl
  | cons i extents ih =>
    have first : Modifies s (modifyExtent i (fun e => { e with status := status }) s) :=
      modifyExtent_modifies i s (fun _ => rfl)
    exact first.trans (ih _)

lemma markPartitionForDeletion_modifies (oids : Finset Int)
    (partitionNums : Finset LogicalPartition) (s : Map) :
    Modifies s (ExtentUpdates.markPartitionForDeletion oids partitionNums s).2 := by
  unfold ExtentUpdates.markPartitionForDeletion
  split
  · exact .refl
  · exact setStatus_modifies _ _ s

lemma restorePartition_modifies (oids : Finset Int) (partitionNums : Finset LogicalPartition)
    (s : Map) : Modifies s (ExtentUpdates.restorePartition oids partitionNums s).2 := by
  unfold ExtentUpdates.restorePartition
  split
  · exact .refl
  · simp only
    split
    · exact .refl
    · exact setStatus_modifies _ _ s

lemma setLocalHWM_modifies (oid : Int) (partitionNum segmentNum newHWM : Nat) (s : Map) :
    Modifies s (ExtentUpdates.setLocalHWM oid partitionNum segmentNum newHWM s).2 := by
  have raised : ∀ last, Modifies s (modifyExtent last
      (fun e => { e with hwm := newHWM, status := .available }) s) :=
    fun last => modifyExtent_modifies last s (fun _ => rfl)
  have lowered : ∀ last old, Modifies s (modifyExtent old (fun e => { e with hwm := 0 })
      (modifyExtent last (fun e => { e with hwm := newHWM, status := .available }) s)) :=
    fun last _ => (raised last).step (fun _ => rfl)
  simp only [ExtentUpdates.setLocalHWM]
  split
  · exact .refl
  split
  · exact .refl
  split
  · split
    · exact lowered _ _
    · exact raised _
  · exact raised _

lemma setMaxMinStep_modifies (cpMap : List (Int × CPMaxMin)) (i : Nat) (p : Progress Unit) :
    Modifies p.map (setMaxMinStep cpMap i p).map := by
  simp only [setMaxMinStep]
  split
  · exact .refl
  split
  · exact .refl
  split
  · split
    · simpa using setCPRange_modifies _ i p.map
    · exact .refl
  · exact .refl

lemma mergeStep_modifies (total i : Nat) (p : Progress (List (Int × CPMaxMinMerge))) :
    Modifies p.map (mergeStep total i p).map := by
  simp only [mergeStep]
  split
  · exact .refl
  split
  · exact .refl
  split
  · split <;> dsimp only <;> split
    · exact setCPRange_modifies _ i p.map
    · exact .refl
    · exact setCPRange_modifies _ i p.map
    · exact .refl
  · exact .refl

lemma markInvalid_modifies (lbid : Int) (colDataType : ColDataType) (s : Map) :
    Modifies s (CasualPartitions.markInvalid lbid colDataType s).2 := by
  unfold CasualPartitions.markInvalid
  split
  · exact setCPRange_modifies _ _ s
  · exact .refl

lemma markInvalidAll_modifies (lbids : List (Int × ColDataType)) (s : Map) :
    Modifies s (CasualPartitions.markInvalidAll lbids s) := by
  induction lbids generalizing s with
  | nil => exact .refl
  | cons entry lbids ih => exact (markInvalid_modifies entry.1 entry.2 s).trans (ih _)

/-- The calls that write nothing but recorded fields of entries. -/
def Call.modifiesOnly : Call → Bool
  | .markPartitionForDeletion .. | .restorePartition .. | .setLocalHWM .. => true
  | .setExtentsMaxMin .. | .mergeExtentsMaxMin .. | .markInvalid .. | .markInvalidAll .. => true
  | _ => false

lemma run_modifies {cfg : Config} {c : Call} (s : Map) (only : c.modifiesOnly = true) :
    Modifies s (c.run cfg s).2 := by
  cases c with
  | markPartitionForDeletion oids partitionNums =>
    exact markPartitionForDeletion_modifies oids partitionNums s
  | restorePartition oids partitionNums => exact restorePartition_modifies oids partitionNums s
  | setLocalHWM oid partitionNum segmentNum newHWM =>
    exact setLocalHWM_modifies oid partitionNum segmentNum newHWM s
  | setExtentsMaxMin cpMap =>
    exact forEach_preserves (fun p : Progress Unit => Modifies s p.map) .refl
      (fun i p _ hb => hb.trans (setMaxMinStep_modifies cpMap i p))
  | mergeExtentsMaxMin cpMap =>
    exact forEach_preserves
      (fun p : Progress (List (Int × CPMaxMinMerge)) => Modifies s p.map) .refl
      (fun i p _ hb => hb.trans (mergeStep_modifies cpMap.length i p))
  | markInvalid lbid colDataType => exact markInvalid_modifies lbid colDataType s
  | markInvalidAll lbids => exact markInvalidAll_modifies lbids s
  | _ => simp [Call.modifiesOnly] at only

end ExtentCalls
