import EryDb.BrmTypes
import EryDb.Vss

/-!
# The version buffer block map

For every version that was copied out of the way the map says in which version buffer
files, one per replica, and at which block the copy lies. Blocks of a version buffer file
are handed out as a ring: `getBlocks` takes the next ones and ages out what a previous
round left there, one chunk of blocks at a time.

The hash function, the size of a version buffer file and the number of replicas come from
outside and are parameters. Files are smaller than 2^31 blocks, where the signed and the
unsigned readings of a block number agree. A search for file 0 would look in front of the
file table; `getBlocks` has no result there, as for the assertion that follows it.
-/

namespace Vbbm

open ImageUndo ImageUndo.Undoable SlotScan HashChains SlotTable BrmTypes

structure FBOStruct where
  fbos : Fin 4 → Nat
  deriving DecidableEq

namespace FBOStruct

def zero : FBOStruct := ⟨fun _ => 0⟩

def get (f : FBOStruct) (i : Nat) : Nat := if bound : i < 4 then f.fbos ⟨i, bound⟩ else 0

def set (f : FBOStruct) (i : Nat) (fbo : Nat) : FBOStruct :=
  ⟨fun j => if (j : Nat) = i then fbo else f.fbos j⟩

end FBOStruct

structure VbbmData where
  vbOids : DBRootsStruct
  vbFbo : FBOStruct
  deriving DecidableEq

instance : Inhabited VbbmData := ⟨⟨.zero, .zero⟩⟩

def VbbmData.setReplica (d : VbbmData) (dbrIdx : Fin 4) (vbOID vbFBO : Nat) : VbbmData :=
  ⟨d.vbOids.set dbrIdx (u16 vbOID), d.vbFbo.set dbrIdx vbFBO⟩

structure VBFileMetadata where
  oid : Nat
  fileSize : Nat
  nextOffset : Nat
  deriving DecidableEq

abbrev VBBMEntry := Slot VbbmData
abbrev VBBM := Memory VbbmData VBFileMetadata

def storageIncrementCount : Nat := 10000
def tableIncrementCount : Nat := 2500
def storageInitialCount : Nat := 100000
def tableInitialCount : Nat := 25000
def chunkSize : Nat := 100

def vbbmLayout (hasher : Int → Int → Nat) : Layout where
  hasher := hasher
  lwmStep := 0
  storageIncrement := storageIncrementCount
  tableIncrement := tableIncrementCount

/-- The segment changes only in its number of files. -/
def fileLayout (hasher : Int → Int → Nat) : Layout :=
  { vbbmLayout hasher with storageIncrement := 0, tableIncrement := 0 }

def initShmseg : VBBM := clean fun
    | .field .capacity => storageInitialCount
    | .field .numHashBuckets => tableInitialCount
    | .field _ => (0 : Nat)
    | .bucket _ => (none : Option Nat)
    | .slot _ => ⟨-1, 0, default, none⟩
    | .file _ => ⟨0, 0, 0⟩

variable (hasher : Int → Int → Nat)

/-- Growing forgets the undo records. -/
def growVBBM (s : VBBM) : VBBM := clean (grown (vbbmLayout hasher) s)

def growVBBMByFiles (addAFile : Nat) (s : VBBM) : VBBM :=
  putField (clean (grown (fileLayout hasher) s)) .ownCount (field s .ownCount + addAFile)

/-- Describe `count` new files behind the first `len`. -/
def initFiles (fileBlocks len count : Nat) (s : VBBM) : VBBM :=
  forEach (fun k s => putFile s (len + k) ⟨len + k + 1, fileBlocks, 0⟩) count s

def addVBFileIfNotExists (fileBlocks vbOID : Nat) (s : VBBM) : VBBM :=
  let len := field s .ownCount
  if len < vbOID then
    initFiles fileBlocks len (vbOID - len) (growVBBMByFiles hasher (vbOID - len) s)
  else s

def checkResize (s : VBBM) : VBBM :=
  if field s .currentSize = field s .capacity then growVBBM hasher s else s

def insert (lbid verID : Int) (data : VbbmData) (loading : Bool) (s : VBBM) : VBBM :=
  let s := checkResize hasher s
  let s := insertEntry (vbbmLayout hasher) loading ⟨lbid, verID, data, none⟩ s
  let s := if loading then s else s.makeUndoRecord (.field .currentSize)
  putField s .currentSize (field s .currentSize + 1)

/-- The slot of a version, or an exception when the key is negative. -/
def lookup (s : VBBM) (lbid verID : Int) : Except BrmExcept (Option Nat) :=
  if lbid < 0 ∨ verID < 0 then .error .invalidArgument
  else .ok ((getIndex (vbbmLayout hasher) s lbid verID).map Prod.snd)

/-- The overload that answers the replicas of a version. -/
def lookupReplicas (s : VBBM) (lbid verID : Int) : Except BrmExcept (Option VbbmData) :=
  (lookup hasher s lbid verID).map (Option.map fun index => (storage s index).data)

def removeEntry (lbid verID : Int) (s : VBBM) : VBBM :=
  match getIndex (vbbmLayout hasher) s lbid verID with
  | none => s
  | some (prev, index) =>
    discount false index (recordHeader
      (unlink prev index (bucketOf (vbbmLayout hasher) s lbid verID) s))

/-- Grow until `num` more entries fit. -/
def growFor (num : Nat) : Nat → VBBM → VBBM
  | 0, s => s
  | fuel + 1, s =>
    if field s .capacity < field s .currentSize + num then growFor num fuel (growVBBM hasher s)
    else s

structure VBRange where
  vbOID : Nat
  vbFBO : Nat
  size : Nat
  deriving DecidableEq

/-- Take the next range of a file, at most up to its end. -/
def takeRange (fileIndex blocksLeft : Nat) (s : VBBM) : VBRange × VBBM :=
  let f := files s fileIndex
  let blocksLeftInFile := f.fileSize - f.nextOffset
  let size := if blocksLeft ≤ blocksLeftInFile then blocksLeft else blocksLeftInFile
  let nextOffset := if size = blocksLeftInFile then 0 else f.nextOffset + size
  (⟨f.oid, f.nextOffset, size⟩,
    putFile (s.makeUndoRecord (.file fileIndex)) fileIndex { f with nextOffset := nextOffset })

def gather (fileIndex : Nat) : Nat → Nat → VBBM → List VBRange × VBBM
  | 0, _, s => ([], s)
  | fuel + 1, blocksLeft, s =>
    if blocksLeft = 0 then ([], s)
    else
      let taken := takeRange fileIndex blocksLeft s
      let rest := gather fileIndex fuel (blocksLeft - taken.1.size) taken.2
      (taken.1 :: rest.1, rest.2)

/-- The blocks to age out for a range: none inside a chunk that counts as cleared, else whole
chunks up to the end of the file. -/
def agedBlocks (fileSize : Nat) (r : VBRange) : Option (Nat × Nat) :=
  let firstFBO := r.vbFBO
  let firstChunk := firstFBO / chunkSize
  let lastChunk := (r.vbFBO + r.size - 1) / chunkSize
  if firstFBO % chunkSize ≠ 0 ∧ firstChunk = lastChunk then none
  else
    let lastFBO := (lastChunk + 1) * chunkSize - 1
    some (if firstFBO % chunkSize ≠ 0 then (firstChunk + 1) * chunkSize else firstFBO,
      if fileSize < lastFBO then fileSize else lastFBO)

/-- The first replica of an entry in a version buffer file. -/
def replicaIn (repSize dbr : Nat) (d : VbbmData) : Option Nat :=
  firstIndex (fun oi => decide (d.vbOids.get oi = dbr)) repSize

/-- Both tables while blocks are aged out; `overflow` is the exception. -/
structure Aging where
  overflow : Bool
  vss : Vss.VSS
  vbbm : VBBM

def ageSlot (vssHasher : Int → Nat) (repSize dbr firstFBO lastFBO i : Nat) (a : Aging) : Aging :=
  if a.overflow then a
  else
    let e := storage a.vbbm i
    match replicaIn repSize dbr e.data with
    | none => a
    | some oi =>
      if e.lbid ≠ -1 ∧ firstFBO ≤ e.data.vbFbo.get oi ∧ e.data.vbFbo.get oi ≤ lastFBO then
        if Vss.isEntryLocked vssHasher a.vss e.lbid e.verID then { a with overflow := true }
        else ⟨false, Vss.removeEntry vssHasher e.lbid e.verID a.vss,
          removeEntry hasher e.lbid e.verID a.vbbm⟩
      else a

def ageRange (vssHasher : Int → Nat) (repSize dbr fileSize : Nat) (a : Aging) (r : VBRange) :
    Aging :=
  match agedBlocks fileSize r with
  | none => a
  | some (firstFBO, lastFBO) =>
    forEach (ageSlot hasher vssHasher repSize dbr firstFBO lastFBO) (field a.vbbm .capacity) a

/-- Take the next `num` blocks of a file and age out what lies there. -/
def handOut (vssHasher : Int → Nat) (repSize num dbr fileSize : Nat) (vss : Vss.VSS)
    (vbbm : VBBM) : List VBRange × Aging :=
  let vbbm := growFor hasher num (field vbbm .currentSize + num) vbbm
  let gathered := gather (dbr - 1) num num vbbm
  (gathered.1, gathered.1.foldl (ageRange hasher vssHasher repSize dbr fileSize)
    ⟨false, vss, gathered.2⟩)

/-- The ranges handed out, or the overflow, with both tables afterwards. -/
def getBlocks (vssHasher : Int → Nat) (repSize fileBlocks num dbr : Nat) (vss : Vss.VSS)
    (vbbm : VBBM) : Option (Except BrmExcept (List VBRange) × Vss.VSS × VBBM) :=
  let vbbm := addVBFileIfNotExists hasher fileBlocks dbr vbbm
  let fileSize := (files vbbm (dbr - 1)).fileSize
  if dbr = 0 ∨ (files vbbm (dbr - 1)).oid ≠ dbr then none
  else if fileSize < num then some (.error .vbbmBufferOverFlow, vss, vbbm)
  else
    let (freeRanges, aged) := handOut hasher vssHasher repSize num dbr fileSize vss vbbm
    some (if aged.overflow then .error .vbbmBufferOverFlow else .ok freeRanges, aged.vss, aged.vbbm)

end Vbbm
