import EryDb.ExtentMap

/-!
# Deleting and updating extents

The calls of the extent map that delete extents or change fields of existing ones.
All of them scan the whole extent table; those that delete return the LBID range
of each deleted extent to the free list at once.

`bulkUpdateDBRoot` and `deleteDBRoot` write replica roots without an undo record.
An unordered map argument is a list of its entries in iteration order.
-/

namespace ExtentUpdates

open ImageUndo SlotScan BrmTypes ExtentMap

def lookupKey {Key Value : Type} [DecidableEq Key] (key : Key) (entries : List (Key × Value)) :
    Option Value :=
  (entries.find? (fun entry => decide (entry.1 = key))).map Prod.snd

lemma mem_of_lookupKey {Key Value : Type} [DecidableEq Key] {key : Key} {value : Value}
    {entries : List (Key × Value)} (hf : lookupKey key entries = some value) :
    (key, value) ∈ entries := by
  obtain ⟨⟨k, v⟩, first, rfl⟩ := Option.map_eq_some_iff.mp hf
  have he : k = key := by simpa using List.find?_some first
  exact he ▸ List.mem_of_find?_eq_some first

lemma lookupKey_mem {Key Value : Type} [DecidableEq Key] {key : Key} {value : Value}
    {entries : List (Key × Value)} (hf : lookupKey key entries = some value) :
    key ∈ entries.map Prod.fst :=
  List.mem_map.mpr ⟨_, mem_of_lookupKey hf, rfl⟩

lemma not_mem_of_lookupKey {Key Value : Type} [DecidableEq Key] {key : Key}
    {entries : List (Key × Value)} (missing : lookupKey key entries = none) (value : Value) :
    (key, value) ∉ entries := by
  intro hm
  have none : entries.find? (fun entry => decide (entry.1 = key)) = none :=
    Option.map_eq_none_iff.mp missing
  simpa using List.find?_eq_none.mp none (key, value) hm

/-- Record an extent entry and rewrite it. -/
def modifyExtent (i : Nat) (change : EMEntry → EMEntry) (s : Map) : Map :=
  putExtent (s.makeUndoRecord (.extent i)) i (change (fExtentMap s i))

def resetHwm (i : Nat) (hwm : Nat) (s : Map) : Map :=
  if (fExtentMap s i).hwm ≠ hwm then
    modifyExtent i (fun e => { e with hwm := hwm, status := .available }) s
  else s

/-- Block offsets of the stripe a high water mark lies in; zero until it is known. -/
structure Stripe where
  fboLo : Nat
  fboHi : Nat
  fboLoPreviousStripe : Nat

def noStripe : Stripe := ⟨0, 0, 0⟩

def stripeOf (st : Stripe) (hwm : Nat) (size : Nat) : Stripe :=
  if st.fboHi = 0 then
    let range := u32 (size * 1024)
    let fboLo := hwm - hwm % range
    ⟨fboLo, u32 (fboLo + range - 1), if 0 < fboLo then fboLo - range else st.fboLoPreviousStripe⟩
  else st

inductive Verdict where
  | delete
  | reset (hwm : Nat)
  | keep
  deriving DecidableEq

def applyVerdict (v : Verdict) (i : Nat) (s : Map) : Map :=
  match v with
  | .delete => deleteExtent i s
  | .reset hwm => resetHwm i hwm s
  | .keep => s

/-- Cases 1 to 5 of the column rollback: what happens to an extent when everything behind
the given partition, segment and high water mark goes. -/
def columnVerdict (st : Stripe) (partitionNum segmentNum : Nat) (hwm : Nat) (e : EMEntry) :
    Verdict :=
  if partitionNum < e.partitionNum then .delete
  else if e.partitionNum = partitionNum then
    if st.fboHi < e.blockOffset then .delete
    else if e.blockOffset < st.fboLo then
      if st.fboLoPreviousStripe ≤ e.blockOffset ∧ segmentNum < e.segmentNum then
        .reset (st.fboLo - 1)
      else .keep
    else if segmentNum < e.segmentNum then .delete
    else if e.segmentNum < segmentNum then .reset st.fboHi
    else .reset hwm
  else .keep

def rollbackColumnStep (oid : Int) (bDeleteAll : Bool) (dbRoot : DBRootsStruct)
    (partitionNum segmentNum : Nat) (hwm : Nat) (i : Nat) (acc : Stripe × Map) : Stripe × Map :=
  let e := fExtentMap acc.2 i
  if e.range.size ≠ 0 ∧ e.fileID = oid ∧ e.dbRoots = dbRoot ∧ e.status ≠ .outOfService then
    if bDeleteAll then (acc.1, deleteExtent i acc.2)
    else
      let st := stripeOf acc.1 hwm e.range.size
      (st, applyVerdict (columnVerdict st partitionNum segmentNum hwm e) i acc.2)
  else acc

def rollbackColumnExtentsDBroot (oid : Int) (bDeleteAll : Bool) (dbRoot : DBRootsStruct)
    (partitionNum segmentNum : Nat) (hwm : Nat) (s : Map) : Map :=
  (forEach (rollbackColumnStep oid bDeleteAll dbRoot partitionNum segmentNum hwm)
    (emEntries s) (noStripe, s)).2

/-- Segment number to high water mark and start of its stripe; a later pair replaces an
earlier one of the same segment. -/
def segToHwmMap (segNums : List Nat) (hwms : List Nat) (size : Nat) : List (Nat × Nat × Nat) :=
  let range := u32 (size * 1024)
  (hwms.zipIdx.map (fun p => (segNums.getD p.2 0, p.1, p.1 - p.1 % range))).reverse

def dictVerdict (segs : List (Nat × Nat × Nat)) (partitionNum : Nat) (e : EMEntry) : Verdict :=
  if partitionNum < e.partitionNum then .delete
  else if e.partitionNum = partitionNum then
    match lookupKey e.segmentNum segs with
    | none => .delete
    | some (hwm, fboLo) =>
      if e.blockOffset < fboLo then .keep
      else if e.blockOffset = fboLo then .reset hwm
      else .delete
  else .keep

def rollbackDictStep (oid : Int) (dbRoot : DBRootsStruct) (partitionNum : Nat)
    (segNums : List Nat) (hwms : List Nat) (i : Nat) (acc : List (Nat × Nat × Nat) × Map) :
    List (Nat × Nat × Nat) × Map :=
  let e := fExtentMap acc.2 i
  if e.range.size ≠ 0 ∧ e.fileID = oid ∧ e.dbRoots = dbRoot ∧ e.status ≠ .outOfService then
    if hwms.length = 0 then (acc.1, deleteExtent i acc.2)
    else
      let segs := if acc.1.length = 0 then segToHwmMap segNums hwms e.range.size else acc.1
      (segs, applyVerdict (dictVerdict segs partitionNum e) i acc.2)
  else acc

def rollbackDictStoreExtentsDBroot (oid : Int) (dbRoot : DBRootsStruct) (partitionNum : Nat)
    (segNums : List Nat) (hwms : List Nat) (s : Map) : Map :=
  (forEach (rollbackDictStep oid dbRoot partitionNum segNums hwms) (emEntries s) ([], s)).2

/-- One stripe serves all objects of the map: it is computed from the first extent met. -/
def deleteEmptyColStep (extentsInfo : List (Int × ExtentInfo)) (i : Nat) (acc : Stripe × Map) :
    Stripe × Map :=
  let e := fExtentMap acc.2 i
  match lookupKey e.fileID extentsInfo with
  | none => acc
  | some info =>
    if e.range.size ≠ 0 ∧ e.status ≠ .outOfService then
      let st := stripeOf acc.1 info.hwm e.range.size
      (st, applyVerdict (columnVerdict st info.partitionNum info.segmentNum info.hwm e) i acc.2)
    else acc

def deleteEmptyColExtents (extentsInfo : List (Int × ExtentInfo)) (s : Map) : Map :=
  (forEach (deleteEmptyColStep extentsInfo) (emEntries s) (noStripe, s)).2

def newFileVerdict (extentsInfo : List (Int × ExtentInfo)) (e : EMEntry) : Verdict :=
  match lookupKey e.fileID extentsInfo with
  | none => .keep
  | some info =>
    if e.range.size ≠ 0 ∧ e.partitionNum = info.partitionNum ∧
        e.segmentNum = info.segmentNum ∧ e.dbRoots = info.dbRoot then .delete
    else .keep

def oldFileVerdict (st : Stripe) (info : ExtentInfo) (e : EMEntry) : Verdict :=
  if info.partitionNum < e.partitionNum then .delete
  else if e.partitionNum = info.partitionNum ∧ e.segmentNum = info.segmentNum then
    if e.blockOffset < st.fboLo then .keep
    else if e.blockOffset = st.fboLo then .reset info.hwm
    else .delete
  else .keep

def deleteEmptyDictStep (extentsInfo : List (Int × ExtentInfo)) (i : Nat) (acc : Stripe × Map) :
    Stripe × Map :=
  let e := fExtentMap acc.2 i
  match lookupKey e.fileID extentsInfo with
  | none => acc
  | some info =>
    if e.range.size ≠ 0 ∧ e.status ≠ .outOfService then
      let st := stripeOf acc.1 info.hwm e.range.size
      (st, applyVerdict (oldFileVerdict st info e) i acc.2)
    else acc

/-- The first entry of the map decides for all whether the extents are new files. -/
def deleteEmptyDictStoreExtents (extentsInfo : List (Int × ExtentInfo)) (s : Map) : Map :=
  if (extentsInfo.head?.map (fun entry => entry.2.newFile)).getD false then
    forEach (fun i s => applyVerdict (newFileVerdict extentsInfo (fExtentMap s i)) i s)
      (emEntries s) s
  else (forEach (deleteEmptyDictStep extentsInfo) (emEntries s) (noStripe, s)).2

/-- Delete every used extent that passes a test of its entry. -/
def deleteWhere (doomed : EMEntry → Bool) (s : Map) : Map := forEach (fun i s =>
    if (fExtentMap s i).range.size ≠ 0 ∧ doomed (fExtentMap s i) = true then deleteExtent i s
    else s) (emEntries s) s

def deleteOID (oid : Int) (s : Map) : Outcome Unit :=
  let found := firstIndex (fun i => decide ((fExtentMap s i).range.size ≠ 0 ∧
    (fExtentMap s i).fileID = oid)) (emEntries s)
  let s := deleteWhere (fun e => decide (e.fileID = oid)) s
  (if found = none then .error .invalidArgument else .ok (), s)

def deleteOIDs (oids : Finset Int) (s : Map) : Map :=
  deleteWhere (fun e => decide (e.fileID ∈ oids)) s

/-- Indices of the used extents of some objects in some logical partitions. -/
def partitionExtents (oids : Finset Int) (partitionNums : Finset LogicalPartition) (s : Map) :
    List Nat :=
  (List.range (emEntries s)).filter (fun i => decide ((fExtentMap s i).range.size ≠ 0 ∧
    (fExtentMap s i).logicalPartition ∈ partitionNums ∧ (fExtentMap s i).fileID ∈ oids))

def foundPartitions (extents : List Nat) (s : Map) : Finset LogicalPartition :=
  (extents.map (fun i => (fExtentMap s i).logicalPartition)).toFinset

def throwIf (rc : Option BrmExcept) : Except BrmExcept Unit :=
  match rc with
  | some e => .error e
  | none => .ok ()

def deletePartition (oids : Finset Int) (partitionNums : Finset LogicalPartition) (s : Map) :
    Outcome Unit :=
  if oids = ∅ then (.ok (), s)
  else
    let extents := partitionExtents oids partitionNums s
    let found := foundPartitions extents s
    let rc :=
      if found = ∅ then some .warnNoPartitionPerformed
      else if found.card ≠ partitionNums.card then some .errPartitionNotExist
      else none
    (throwIf rc, extents.foldl (fun s i => deleteExtent i s) s)

def setStatus (status : ExtentStatus) (extents : List Nat) (s : Map) : Map :=
  extents.foldl (fun s i => modifyExtent i (fun e => { e with status := status }) s) s

def markPartitionForDeletion (oids : Finset Int) (partitionNums : Finset LogicalPartition)
    (s : Map) : Outcome Unit :=
  if oids = ∅ then (.ok (), s)
  else
    let extents := partitionExtents oids partitionNums s
    let found := foundPartitions extents s
    let rc :=
      if found = ∅ then some .warnNoPartitionPerformed
      else if extents.any (fun i => decide ((fExtentMap s i).status = .outOfService)) then
        some .errPartitionAlreadyDisabled
      else if found.card ≠ partitionNums.card then some .errPartitionNotExist
      else none
    (throwIf rc, setStatus .outOfService extents s)

def restorePartition (oids : Finset Int) (partitionNums : Finset LogicalPartition) (s : Map) :
    Outcome Unit :=
  if oids = ∅ then (.ok (), s)
  else
    let extents := partitionExtents oids partitionNums s
    if (foundPartitions extents s).card ≠ partitionNums.card then
      (.error .errPartitionNotExist, s)
    else
      let rc :=
        if extents.any (fun i => decide ((fExtentMap s i).status = .available)) then
          some .errPartitionAlreadyEnabled
        else none
      (throwIf rc, setStatus .available extents s)

structure HwmExtents where
  highestOffset : Nat
  lastExtentIndex : Option Nat
  oldHWMExtentIndex : Option Nat

def hwmExtentStep (em : Nat → EMEntry) (oid : Int) (partitionNum segmentNum i : Nat)
    (found : HwmExtents) : HwmExtents :=
  let e := em i
  if e.range.size ≠ 0 ∧ e.fileID = oid ∧ e.partitionNum = partitionNum ∧
      e.segmentNum = segmentNum then
    let found :=
      if found.highestOffset ≤ e.blockOffset then
        { found with highestOffset := e.blockOffset, lastExtentIndex := some i }
      else found
    if e.hwm ≠ 0 then { found with oldHWMExtentIndex := some i } else found
  else found

def setLocalHWM (oid : Int) (partitionNum segmentNum : Nat) (newHWM : Nat) (s : Map) :
    Outcome Unit :=
  let found := forEach (hwmExtentStep (fExtentMap s) oid partitionNum segmentNum) (emEntries s)
    ⟨0, none, none⟩
  match found.lastExtentIndex with
  | none => (.error .invalidArgument, s)
  | some last =>
    let e := fExtentMap s last
    if u32 (e.blockOffset + u32 (e.range.size * 1024)) ≤ newHWM then
      (.error .invalidArgument, s)
    else
      let s := modifyExtent last (fun e => { e with hwm := newHWM, status := .available }) s
      match found.oldHWMExtentIndex with
      | some old =>
        if old ≠ last then (.ok (), modifyExtent old (fun e => { e with hwm := 0 }) s)
        else (.ok (), s)
      | none => (.ok (), s)

/-- The set of arguments is keyed by start LBID, and the first of two equal keys stays. -/
def bulkUpdateDBRoot (args : List BulkUpdateDBRootArg) (s : Map) : Map := forEach (fun i s =>
    match args.find? (fun arg => decide (arg.startLBID = (fExtentMap s i).range.start)) with
    | some arg => putExtent s i { fExtentMap s i with dbRoots := arg.dbRoot }
    | none => s) (emEntries s) s

def deleteDBRoot (dbr : Nat) (s : Map) : Map := forEach (fun i s =>
    let e := fExtentMap s i
    if e.range.size ≠ 0 then
      if e.dbRoots.get 0 = dbr ∧ e.dbRoots.get 1 = 0 then deleteExtent i s
      else putExtent s i { e with dbRoots := e.dbRoots.remove dbr }
    else s) (emEntries s) s

end ExtentUpdates
