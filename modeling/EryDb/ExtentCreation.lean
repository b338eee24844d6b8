import EryDb.ExtentMap

/-!
# Creating extents

Every creation takes its LBIDs from the free list first and only then looks for an
unused extent slot, so a full table is noticed after the free list has changed.
The choice of partition, segment and block offset reads the extent table only.

The configuration (files per partition, extents per segment file, DBRoot count) comes
from outside the block resolution manager and is a parameter. The hash map of segment
files is an association list; the loops over it compute minima and maxima, so its
order does not matter.
-/

namespace ExtentCreation

open ImageUndo SlotScan BrmTypes ExtentMap

structure CreatedExtent where
  lbid : Int
  allocdSize : Nat
  partitionNum : Nat
  segmentNum : Nat
  startBlockOffset : Nat
  deriving DecidableEq

/-- What the first pass over the extent table remembers. -/
structure HwmScan where
  lastExtentIndex : Option Nat
  highestOffset : Nat
  highestPartNum : Nat
  highestSegNum : Nat
  highEmptySegNum : Option Nat

def hwmStep (em : Nat → EMEntry) (oid : Int) (dbRoot : DBRootsStruct) (partitionNum i : Nat)
    (scan : HwmScan) : HwmScan :=
  let e := em i
  if e.range.size ≠ 0 ∧ e.fileID = oid then
    let scan :=
      if e.dbRoots = dbRoot ∧ (scan.highestPartNum < e.partitionNum ∨
          (e.partitionNum = scan.highestPartNum ∧ scan.highestOffset < e.blockOffset) ∨
          (e.partitionNum = scan.highestPartNum ∧ e.blockOffset = scan.highestOffset ∧
            scan.highestSegNum ≤ e.segmentNum)) then
        { scan with
          lastExtentIndex := some i
          highestPartNum := e.partitionNum
          highestSegNum := e.segmentNum
          highestOffset := e.blockOffset }
      else scan
    if scan.lastExtentIndex = none ∧ e.partitionNum = partitionNum then
      match scan.highEmptySegNum with
      | none => { scan with highEmptySegNum := some e.segmentNum }
      | some high =>
        if high < e.segmentNum then { scan with highEmptySegNum := some e.segmentNum }
        else scan
    else scan
  else scan

variable (cfg : Config) (s : Map)

def hwmScan (oid : Int) (dbRoot : DBRootsStruct) (partitionNum : Nat) : HwmScan :=
  forEach (hwmStep (fExtentMap s) oid dbRoot partitionNum) (emEntries s) ⟨none, 0, 0, 0, none⟩

/-- What the second pass collects about the partition of the last extent and the next one;
`segs` maps a segment number to the highest block offset in that segment file. -/
structure TargetScan where
  segsOutOfService : Bool
  partHighSeg : Nat
  partHighSegNext : Option Nat
  segs : List (Nat × Nat)

def raiseSeg (seg offset : Nat) : List (Nat × Nat) → List (Nat × Nat)
  | [] => [(seg, offset)]
  | (k, high) :: rest =>
    if k = seg then (k, max high offset) :: rest else (k, high) :: raiseSeg seg offset rest

def targetStep (em : Nat → EMEntry) (oid : Int) (dbRoot : DBRootsStruct) (part i : Nat)
    (scan : TargetScan) : TargetScan :=
  let e := em i
  if e.range.size ≠ 0 ∧ e.fileID = oid then
    if e.partitionNum = u32 (part + 1) then
      match scan.partHighSegNext with
      | none => { scan with partHighSegNext := some e.segmentNum }
      | some high => { scan with partHighSegNext := some (max high e.segmentNum) }
    else if e.partitionNum = part then
      let scan := { scan with partHighSeg := max scan.partHighSeg e.segmentNum }
      if e.dbRoots = dbRoot then
        { scan with
          segsOutOfService := scan.segsOutOfService || decide (e.status = .outOfService)
          segs := raiseSeg e.segmentNum e.blockOffset scan.segs }
      else scan
    else scan
  else scan

def targetScan (oid : Int) (dbRoot : DBRootsStruct) (last : EMEntry) : TargetScan :=
  forEach (targetStep (fExtentMap s) oid dbRoot last.partitionNum) (emEntries s)
    ⟨false, last.segmentNum, none, [(last.segmentNum, last.blockOffset)]⟩

/-- Partition, segment and block offset of the extent behind `last`. -/
def nextPosition (colWidth : Nat) (last : EMEntry) (scan : TargetScan) : Nat × Nat × Nat :=
  let filesPerDBRootPerPartition := cfg.filesPerColumnPartition / cfg.dbRootCount
  let segNums := scan.segs.map Prod.fst
  let firstTargetSeg := segNums.foldl min last.segmentNum
  let lastTargetSeg := segNums.foldl max last.segmentNum
  let nextTargetSeg := ((segNums.filter (fun k => last.segmentNum < k)).min?).getD last.segmentNum
  let incompleteLayer := decide (scan.segs.length < filesPerDBRootPerPartition) &&
    scan.segs.any (fun entry => decide (0 < entry.2))
  let lastFile := decide (filesPerDBRootPerPartition ≤ scan.segs.length) &&
    decide (last.segmentNum = lastTargetSeg)
  let fileFull := decide (last.blockOffset =
    u32 (cfg.extentsPerSegmentFile + (2 ^ 32 - 1)) * extentSize colWidth)
  let startNewPartition := scan.segsOutOfService || incompleteLayer || (lastFile && fileFull)
  if startNewPartition then
    (u32 (last.partitionNum + 1), (scan.partHighSegNext.elim 0 (fun k => u16 (k + 1))), 0)
  else
    let startNewStripeInSegFile := lastFile
    let newSegmentNum :=
      if lastFile then firstTargetSeg
      else if filesPerDBRootPerPartition ≤ scan.segs.length then nextTargetSeg
      else u16 (scan.partHighSeg + 1)
    let newBlockOffset :=
      if last.blockOffset = 0 ∧ firstTargetSeg < newSegmentNum then 0
      else if startNewStripeInSegFile then u32 (last.range.size * 1024 + last.blockOffset)
      else last.blockOffset
    (last.partitionNum, newSegmentNum, newBlockOffset)

def choosePosition (oid : Int) (colWidth : Nat) (dbRoot : DBRootsStruct) (partitionNum : Nat) :
    Nat × Nat × Nat :=
  let scan := hwmScan s oid dbRoot partitionNum
  match scan.lastExtentIndex with
  | some i =>
    nextPosition cfg colWidth (fExtentMap s i) (targetScan s oid dbRoot (fExtentMap s i))
  | none => (partitionNum, scan.highEmptySegNum.elim 0 (fun k => u16 (k + 1)), 0)

def emptyCPRange (colDataType : ColDataType) (isValid : CPState) : CPRange :=
  if isUnsigned colDataType then ⟨0, toI64 (2 ^ 64 - 1), 0, isValid⟩
  else ⟨int64Min, int64Max, 0, isValid⟩

/-- A new column extent; the very first one of a column starts with a valid range. -/
def columnEntry (range : InlineLBIDRange) (oid : Int) (colWidth : Nat) (dbRoot : DBRootsStruct)
    (colDataType : ColDataType) (partitionNum segmentNum blockOffset : Nat) : EMEntry where
  range := range
  fileID := oid
  blockOffset := blockOffset
  dbRoots := dbRoot
  hwm := 0
  partitionNum := partitionNum
  segmentNum := segmentNum
  colWid := u16 colWidth
  status := .unavailable
  cprange := emptyCPRange colDataType
    (if partitionNum = 0 ∧ segmentNum = 0 ∧ blockOffset = 0 then .valid else .invalid)

def emptyEMEntry : Option Nat :=
  firstIndex (fun i => decide ((fExtentMap s i).range.size = 0)) (emEntries s)

def makeRoom : Map :=
  if (fEMShminfo s).currentSize = (fEMShminfo s).allocdSize then growEMShmseg 0 s else s

/-- Take LBIDs, find an unused slot, write the entry chosen from the extent table. -/
def allocateExtent (size : Nat) (entry : Map → InlineLBIDRange → EMEntry) (s : Map) :
    Outcome (Int × EMEntry) :=
  match getLBIDsFromFreeList size (makeRoom s) with
  | (.error e, s) => (.error e, s)
  | (.ok startLBID, s) =>
    match emptyEMEntry s with
    | none => (.error .logicError, s)
    | some i =>
      let e := entry s ⟨startLBID, size⟩
      let s := putExtent (s.makeUndoRecord (.extent i)) i e
      (.ok (startLBID, e), addEMSize (s.makeUndoRecord .emShminfo) sizeofEMEntry)

def created (colWidth : Nat) : Outcome (Int × EMEntry) → Outcome CreatedExtent
  | (.error e, s) => (.error e, s)
  | (.ok (lbid, e), s) =>
    (.ok ⟨lbid, extentSize colWidth, e.partitionNum, e.segmentNum, e.blockOffset⟩, s)

@[simp] lemma created_map (colWidth : Nat) (answer : Outcome (Int × EMEntry)) :
    (created colWidth answer).2 = answer.2 := by
  rcases answer with ⟨_ | _, _⟩ <;> rfl

def createColumnExtentDBroot (oid : Int) (colWidth : Nat) (dbRoot : DBRootsStruct)
    (colDataType : ColDataType) (partitionNum : Nat) (s : Map) : Outcome CreatedExtent :=
  created colWidth <| allocateExtent (extentSize colWidth / 1024) (fun s range =>
    let (part, seg, offset) := choosePosition cfg s oid colWidth dbRoot partitionNum
    columnEntry range oid colWidth dbRoot colDataType part seg offset) s

/-- The last extent of a segment file, as both exact-file creations look for it. -/
def lastExtentStep (em : Nat → EMEntry) (wanted : EMEntry → Bool) (i : Nat)
    (best : Option Nat × Nat) : Option Nat × Nat :=
  if (em i).range.size ≠ 0 ∧ wanted (em i) = true ∧ best.2 ≤ (em i).blockOffset then
    (some i, (em i).blockOffset)
  else best

def lastExtent (wanted : EMEntry → Bool) : Option EMEntry :=
  (forEach (lastExtentStep (fExtentMap s) wanted) (emEntries s) (none, 0)).1.map (fExtentMap s)

def offsetBehind (last : Option EMEntry) : Nat :=
  last.elim 0 (fun e => u32 (e.range.size * 1024 + e.blockOffset))

def createColumnExtentExactFile (oid : Int) (colWidth : Nat) (dbRoot : DBRootsStruct)
    (partitionNum segmentNum : Nat) (colDataType : ColDataType) (s : Map) :
    Outcome CreatedExtent :=
  created colWidth <| allocateExtent (extentSize colWidth / 1024) (fun s range =>
    let last := lastExtent s (fun e => decide (e.fileID = oid ∧
      e.dbRoots.get 0 = dbRoot.get 0 ∧ e.partitionNum = partitionNum ∧
      e.segmentNum = segmentNum))
    columnEntry range oid colWidth dbRoot colDataType partitionNum segmentNum (offsetBehind last)) s

/-- Behind an existing extent only the first DBRoot is copied: the other replica roots are
whatever the reused slot held. -/
def dictEntry (old : EMEntry) (range : InlineLBIDRange) (oid : Int) (dbRoot : DBRootsStruct)
    (partitionNum segmentNum : Nat) (last : Option EMEntry) : EMEntry where
  range := range
  fileID := oid
  blockOffset := offsetBehind last
  dbRoots := last.elim dbRoot (fun e => old.dbRoots.set 0 (e.dbRoots.get 0))
  hwm := 0
  partitionNum := last.elim partitionNum EMEntry.partitionNum
  segmentNum := last.elim segmentNum EMEntry.segmentNum
  colWid := last.elim 0 EMEntry.colWid
  status := .unavailable
  cprange := ⟨int64Min, int64Max, 0, .invalid⟩

def createDictStoreExtent (oid : Int) (dbRoot : DBRootsStruct) (partitionNum segmentNum : Nat)
    (s : Map) : Outcome CreatedExtent :=
  created dictColWidth <| allocateExtent (extentSize dictColWidth / 1024) (fun s range =>
    let last := lastExtent s (fun e => decide (e.fileID = oid ∧
      e.partitionNum = partitionNum ∧ e.segmentNum = segmentNum))
    let old := (emptyEMEntry s).elim zeroEntry (fExtentMap s)
    dictEntry old range oid dbRoot partitionNum segmentNum last) s

/-- The columns of a stripe must all land in the partition and segment of the first;
`partitionNum` is an in-out argument, so each column starts from the last answer. -/
def createStripeFrom (cfg : Config) (dbRoot : DBRootsStruct) :
    Option (Nat × Nat) → Nat → List CreateStripeColumnExtentsArgIn → List CreatedExtent →
      Map → Outcome (List CreatedExtent)
  | _, _, [], extents, s => (.ok extents, s)
  | baseline, partitionNum, col :: cols, extents, s =>
    match createColumnExtentDBroot cfg col.oid col.width dbRoot col.colDataType partitionNum s with
    | (.error e, s) => (.error e, s)
    | (.ok c, s) =>
      let base := baseline.getD (c.partitionNum, c.segmentNum)
      if (c.partitionNum, c.segmentNum) = base then
        createStripeFrom cfg dbRoot (some base) c.partitionNum cols (extents ++ [c]) s
      else (.error .invalidArgument, s)

def createStripeColumnExtents (cols : List CreateStripeColumnExtentsArgIn)
    (dbRoot : DBRootsStruct) (partitionNum : Nat) (s : Map) : Outcome (List CreatedExtent) :=
  createStripeFrom cfg dbRoot none partitionNum cols [] s

/-- The rule of the loop over the columns of a stripe: `Q` says what the columns still to come
need of the partition and of the table. -/
lemma createStripeFrom_rule {dbRoot : DBRootsStruct} {P : Map → Prop}
    {Q : Nat → List CreateStripeColumnExtentsArgIn → Map → Prop}
    (step : ∀ n col cols s, P s → Q n (col :: cols) s →
      P (createColumnExtentDBroot cfg col.oid col.width dbRoot col.colDataType n s).2 ∧
        ∀ c t, createColumnExtentDBroot cfg col.oid col.width dbRoot col.colDataType n s =
          (.ok c, t) → Q c.partitionNum cols t)
    {baseline : Option (Nat × Nat)} {n : Nat} {cols : List CreateStripeColumnExtentsArgIn}
    {extents : List CreatedExtent} {s : Map} (hp : P s) (hq : Q n cols s) :
    P (createStripeFrom cfg dbRoot baseline n cols extents s).2 := by
  induction cols generalizing baseline n extents s with
  | nil => exact hp
  | cons col cols ih =>
    obtain ⟨next, rest⟩ := step n col cols s hp hq
    simp only [createStripeFrom]
    split
    · rename_i answer
      simpa [answer] using next
    rename_i c t answer
    rw [answer] at next
    split
    · exact ih next (rest c t answer)
    · exact next

end ExtentCreation
