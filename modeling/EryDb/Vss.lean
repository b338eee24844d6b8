import EryDb.SlotTable

/-!
# The version substitution structure

For every version of a block that a reader may have to see there is an entry with the
block's LBID, the version, whether that version lies in the version buffer, and whether
an open transaction wrote it. The table is hashed by LBID alone.

The hash function is a parameter. The list of LBIDs a removal returns for flushing a
block cache is left out: nothing in the table depends on it.
-/

namespace Vss

open ImageUndo ImageUndo.Undoable SlotScan HashChains SlotTable

structure VssData where
  vbFlag : Bool
  locked : Bool
  deriving DecidableEq, Inhabited

abbrev VSSEntry := Slot VssData
abbrev VSS := Memory VssData Unit

def storageIncrementCount : Nat := 20000
def tableIncrementCount : Nat := 5000
def storageInitialCount : Nat := 200000
def tableInitialCount : Nat := 50000

def vssLayout (hasher : Int → Nat) : Layout where
  hasher := fun lbid _ => hasher lbid
  lwmStep := 1
  storageIncrement := storageIncrementCount
  tableIncrement := tableIncrementCount

def initShmseg : VSS := clean fun
    | .field .capacity => storageInitialCount
    | .field .numHashBuckets => tableInitialCount
    | .field _ => (0 : Nat)
    | .bucket _ => (none : Option Nat)
    | .slot _ => ⟨-1, 0, default, none⟩
    | .file _ => ()

variable (hasher : Int → Nat)

variable (s : VSS)

/-- The old segment is unmapped, and the undo records keep pointing into it. -/
def growVSS : VSS := s.moveSegment (fun _ => true) (grown (vssLayout hasher) s)

def checkResize : VSS :=
  if field s .currentSize = field s .capacity then growVSS hasher s else s

def insert (lbid verID : Int) (vbFlag locked loading : Bool) (s : VSS) : VSS :=
  let s := checkResize hasher s
  let s := insertEntry (vssLayout hasher) loading ⟨lbid, verID, ⟨vbFlag, locked⟩, none⟩ s
  let s := if loading then s else s.makeUndoRecord (.field .currentSize)
  let s := putField s .currentSize (field s .currentSize + 1)
  if locked then putField s .ownCount (field s .ownCount + 1) else s

def bucket (lbid : Int) : Nat := hasher lbid % field s .numHashBuckets

/-- The entries of the chain an LBID hashes to, in chain order. -/
def chainEntries (lbid : Int) : List VSSEntry :=
  (chainOf s (bucket hasher s lbid)).map (storage s)

structure QueryContext where
  currentScn : Int
  txns : Finset Int

inductive LookupCode where
  | found
  | errSnapshotTooOld
  | notFound
  deriving DecidableEq

structure LookupAnswer where
  code : LookupCode
  outVer : Int
  vbFlag : Bool
  deriving DecidableEq

/-- The loop of `lookup` with its running minimum and maximum. -/
def lookupLoop (lbid : Int) (verInfo : QueryContext) (txnID : Int) (vbOnly : Bool) :
    List VSSEntry → Int → Int → Option VSSEntry → LookupAnswer
  | [], minVersion, maxVersion, maxEntry =>
    match maxEntry with
    | some e => ⟨.found, maxVersion, e.data.vbFlag⟩
    | none =>
      if verInfo.currentScn < minVersion then ⟨.errSnapshotTooOld, 0, false⟩
      else ⟨.notFound, 0, false⟩
  | e :: rest, minVersion, maxVersion, maxEntry =>
    if e.lbid = lbid then
      if vbOnly = true ∧ e.data.vbFlag = false then
        lookupLoop lbid verInfo txnID vbOnly rest minVersion maxVersion maxEntry
      else if txnID ≠ e.verID ∧ e.verID ∈ verInfo.txns then
        lookupLoop lbid verInfo txnID vbOnly rest minVersion maxVersion maxEntry
      else if verInfo.currentScn = e.verID then ⟨.found, e.verID, e.data.vbFlag⟩
      else
        let minVersion := if e.verID < minVersion ∨ minVersion = -1 then e.verID else minVersion
        if e.verID < verInfo.currentScn ∧ maxVersion < e.verID then
          lookupLoop lbid verInfo txnID vbOnly rest minVersion e.verID (some e)
        else lookupLoop lbid verInfo txnID vbOnly rest minVersion maxVersion maxEntry
    else lookupLoop lbid verInfo txnID vbOnly rest minVersion maxVersion maxEntry

def lookup (lbid : Int) (verInfo : QueryContext) (txnID : Int) (vbOnly : Bool) : LookupAnswer :=
  lookupLoop lbid verInfo txnID vbOnly (chainEntries hasher s lbid) (-1) (-1) none

def getCurrentVersion (lbid : Int) : Int :=
  (((chainEntries hasher s lbid).find?
    (fun e => decide (e.lbid = lbid ∧ e.data.vbFlag = false))).map
    Slot.verID).getD 0

def getHighestVerInVB (lbid max : Int) : Int :=
  (chainEntries hasher s lbid).foldl (fun ret e =>
    if (e.lbid = lbid ∧ e.data.vbFlag = true) ∧ (e.verID ≤ max ∧ ret < e.verID) then e.verID
    else ret) (-1)

structure LBIDRange where
  start : Int
  size : Nat

/-- The blocks of a range in the order the loops visit them. -/
def LBIDRange.lbids (r : LBIDRange) : List Int := (List.range r.size).map (fun k => r.start + k)

/-- The first locked entry of the first block that has one decides. -/
def isLocked (range : LBIDRange) (transID : Int) : Bool :=
  match range.lbids.findSome? (fun lbid => (chainEntries hasher s lbid).find?
    (fun e => decide (e.lbid = lbid ∧ e.data.locked = true))) with
  | some e => decide (e.verID ≠ transID)
  | none => false

/-- The running minimum starts at version 0. -/
def isTooOld (lbid verID : Int) : Bool :=
  let minVer := (chainEntries hasher s lbid).foldl (fun minVer e =>
    if e.lbid = lbid ∧ e.verID < minVer then e.verID else minVer) 0
  decide (verID < minVer)

def isEntryLocked (lbid verID : Int) : Bool :=
  if lbid = -1 then false
  else
    let entries := (chainEntries hasher s lbid).filter (fun e => decide (e.lbid = lbid))
    let hasALockedEntry := entries.any (fun e => e.data.locked)
    let rollbackVersion := entries.foldl (fun v e =>
      if e.data.locked = false ∧ v < e.verID then e.verID else v) 0
    hasALockedEntry && decide (verID = rollbackVersion)

/-- Walk a chain and remove every entry of an LBID; `onRemove` is what happens to another
table before an entry goes. The next slot is read after the current one was taken out. -/
def sweep {Other : Type} (onRemove : VSSEntry → Other → Other) (lbid : Int) (bucket : Nat) :
    Nat → Option Nat → Option Nat → VSS × Other → VSS × Other
  | 0, _, _, acc => acc
  | _ + 1, _, none, acc => acc
  | fuel + 1, prev, some index, (s, other) =>
    let e := storage s index
    if e.lbid = lbid then
      let other := onRemove e other
      let s := discount e.data.locked index (unlink prev index bucket s)
      sweep onRemove lbid bucket fuel prev (storage s index).next (s, other)
    else sweep onRemove lbid bucket fuel (some index) (storage s index).next (s, other)

/-- Besides the entry itself, all entries of the LBID go once none is locked or in the
version buffer. -/
def removeEntry (lbid verID : Int) (s : VSS) : VSS :=
  match getIndex (vssLayout hasher) s lbid verID with
  | none => s
  | some (prev, index) =>
    let locked := (storage s index).data.locked
    let b := bucket hasher s lbid
    let s := discount locked index (recordHeader (unlink prev index b s))
    if ((chainOf s b).map (storage s)).any
        (fun e => decide (e.lbid = lbid ∧ (e.data.vbFlag = true ∨ e.data.locked = true))) then s
    else (sweep (fun _ _ => ()) lbid b (field s .capacity) none (hashBuckets s b) (s, ())).1

def setVBFlag (lbid verID : Int) (vbFlag : Bool) (s : VSS) : Option VSS :=
  match getIndex (vssLayout hasher) s lbid verID with
  | none => none
  | some (_, index) =>
    let e := storage s index
    some (putSlot (s.makeUndoRecord (.slot index)) index
      { e with data := { e.data with vbFlag := vbFlag } })

def unlockEntry (e : VSSEntry) : VSSEntry := { e with data := { e.data with locked := false } }

/-- The counter in the header changes with no record of it. -/
def uncountLocked : VSS :=
  if 0 < field s .ownCount then putField s .ownCount (field s .ownCount - 1) else s

def commitStep (txnID : Int) (i : Nat) (s : VSS) : VSS :=
  if (storage s i).lbid ≠ -1 ∧ (storage s i).verID = txnID then
    uncountLocked (putSlot (s.makeUndoRecord (.slot i)) i (unlockEntry (storage s i)))
  else s

def commit (txnID : Int) (s : VSS) : VSS := forEach (commitStep txnID) (field s .capacity) s

def getUncommittedLBIDs (txnID : Int) (s : VSS) : List Int :=
  ((List.range (field s .capacity)).filter (fun i =>
    decide ((storage s i).lbid ≠ -1 ∧ (storage s i).verID = txnID))).map
      (fun i => (storage s i).lbid)

/-- Remove every entry of a block; `removeFromVB` takes a version out of the version buffer
map. -/
def sweepBlock {Other : Type} (removeFromVB : Int → Int → Other → Other) (acc : VSS × Other)
    (lbid : Int) : VSS × Other :=
  let b := bucket hasher acc.1 lbid
  sweep (fun e other => if e.data.vbFlag then removeFromVB e.lbid e.verID other else other)
    lbid b (field acc.1 .capacity) none (hashBuckets acc.1 b) acc

def removeEntriesFromDB {Other : Type} (removeFromVB : Int → Int → Other → Other)
    (range : LBIDRange) (s : VSS) (other : Other) : VSS × Other :=
  range.lbids.foldl (sweepBlock hasher removeFromVB) (recordHeader s, other)

end Vss
