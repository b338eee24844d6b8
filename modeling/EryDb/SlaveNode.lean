import EryDb.Vbbm

/-!
# The version buffer commands of a slave node

`SlaveDBRMNode` runs one command at a time over the version substitution structure and the
version buffer block map, and then either confirms or undoes what the command recorded. It
does so only for the tables the command locked: `beginVBCopy` for a replica other than the
first locks neither, so its records stay and meet the next confirmation or undo.

The extent map answers `deleteOID` with the ranges of an object, which are a parameter of
the command here; its own state is modelled with its calls. Copy locks delay a command and
are left out, and so is the flushing of the block caches.
-/

namespace SlaveNode

open SlotTable BrmTypes Vss Vbbm

structure NodeConfig where
  vssHasher : Int → Nat
  vbbmHasher : Int → Int → Nat
  fileBlocks : Nat
  repSize : Nat

structure SlaveDBRMNode where
  vss : VSS
  vbbm : VBBM

inductive Command where
  | beginVBCopy (transID : Int) (vbOID : DBRootsStruct) (dbrIndex : Fin 4)
      (ranges : List LBIDRange)
  | writeVBEntry (transID lbid : Int) (dbrIdx : Fin 4) (vbOID vbFBO : Nat)
  | vbCommit (transID : Int)
  | vbRollback (transID : Int) (lbidList : List LBIDRange)
  | vbRollbackBlocks (transID : Int) (lbidList : List Int)
  | deleteOID (lbids : List LBIDRange)

inductive ReturnCode where
  | ok
  | failed
  | oldTxnOverwritingNewTxn
  | vbbmOverflow
  deriving DecidableEq

/-- What a command answers: the return code and, from `beginVBCopy`, the blocks. -/
structure Reply where
  code : ReturnCode
  freeList : List VBRange
  deriving DecidableEq

variable (cfg : NodeConfig)

/-- The first replica of a version and the new version of the block. -/
def copyOut (transID lbid oldVerID : Int) (dbrIdx : Fin 4) (vbOID vbFBO : Nat)
    (n : SlaveDBRMNode) : ReturnCode × SlaveDBRMNode :=
  let vbbm := Vbbm.insert cfg.vbbmHasher lbid oldVerID
    ((default : VbbmData).setReplica dbrIdx vbOID vbFBO) false n.vbbm
  if 0 < oldVerID then
    match setVBFlag cfg.vssHasher lbid oldVerID true n.vss with
    | none => (.failed, ⟨n.vss, vbbm⟩)
    | some vss => (.ok, ⟨Vss.insert cfg.vssHasher lbid transID false true false vss, vbbm⟩)
  else
    (.ok, ⟨Vss.insert cfg.vssHasher lbid transID false true false
      (Vss.insert cfg.vssHasher lbid oldVerID true false false n.vss), vbbm⟩)

/-- A further replica is written into the entry in place. -/
def addReplica (lbid oldVerID : Int) (dbrIdx : Fin 4) (vbOID vbFBO : Nat) (n : SlaveDBRMNode) :
    Option (ReturnCode × SlaveDBRMNode) :=
  match Vbbm.lookup cfg.vbbmHasher n.vbbm lbid oldVerID with
  | .error _ => some (.failed, n)
  | .ok none => none
  | .ok (some index) =>
    let vbe := storage n.vbbm index
    let vbbm := putSlot n.vbbm index { vbe with data := vbe.data.setReplica dbrIdx vbOID vbFBO }
    some (.ok, ⟨n.vss, vbbm⟩)

def writeVBEntry (transID lbid : Int) (dbrIdx : Fin 4) (vbOID vbFBO : Nat) (n : SlaveDBRMNode) :
    Option (ReturnCode × SlaveDBRMNode) :=
  let oldVerID := getCurrentVersion cfg.vssHasher n.vss lbid
  if oldVerID = transID then
    addReplica cfg lbid (getHighestVerInVB cfg.vssHasher n.vss lbid transID) dbrIdx vbOID vbFBO n
  else if transID < oldVerID then some (.oldTxnOverwritingNewTxn, n)
  else some (copyOut cfg transID lbid oldVerID dbrIdx vbOID vbFBO n)

/-- Only the first replica checks for blocks another transaction holds. -/
def beginVBCopy (transID : Int) (vbOID : DBRootsStruct) (dbrIndex : Fin 4)
    (ranges : List LBIDRange) (n : SlaveDBRMNode) : Option (Reply × SlaveDBRMNode) :=
  if dbrIndex = 0 ∧ ranges.any (fun r => isLocked cfg.vssHasher n.vss r transID) then
    some (⟨.failed, []⟩, n)
  else
    match getBlocks cfg.vbbmHasher cfg.vssHasher cfg.repSize cfg.fileBlocks
      (u32 (ranges.map LBIDRange.size).sum) (vbOID.get dbrIndex) n.vss n.vbbm with
    | none => none
    | some (.error _, vss, vbbm) => some (⟨.vbbmOverflow, []⟩, ⟨vss, vbbm⟩)
    | some (.ok freeList, vss, vbbm) => some (⟨.ok, freeList⟩, ⟨vss, vbbm⟩)

/-- One block of a rollback; an exception leaves the state it was thrown in. -/
def rollbackBlock (transID : Int) (n : SlaveDBRMNode) (lbid : Int) :
    Except SlaveDBRMNode SlaveDBRMNode :=
  let oldVerID := getHighestVerInVB cfg.vssHasher n.vss lbid transID
  if oldVerID ≠ -1 then
    let vbbm := Vbbm.removeEntry cfg.vbbmHasher lbid oldVerID n.vbbm
    match setVBFlag cfg.vssHasher lbid oldVerID false n.vss with
    | none => .error ⟨n.vss, vbbm⟩
    | some vss => .ok ⟨Vss.removeEntry cfg.vssHasher lbid transID vss, vbbm⟩
  else .ok { n with vss := Vss.removeEntry cfg.vssHasher lbid transID n.vss }

def vbRollbackBlocks (transID : Int) (lbidList : List Int) (n : SlaveDBRMNode) :
    ReturnCode × SlaveDBRMNode :=
  match lbidList.foldlM (rollbackBlock cfg transID) n with
  | .ok n => (.ok, n)
  | .error n => (.failed, n)

/-- The range form visits the blocks of the ranges one after the other. -/
def vbRollback (transID : Int) (lbidList : List LBIDRange) (n : SlaveDBRMNode) :
    ReturnCode × SlaveDBRMNode :=
  vbRollbackBlocks cfg transID (lbidList.flatMap LBIDRange.lbids) n

def removeRange (n : SlaveDBRMNode) (range : LBIDRange) : SlaveDBRMNode :=
  let r := removeEntriesFromDB cfg.vssHasher (Vbbm.removeEntry cfg.vbbmHasher) range n.vss n.vbbm
  ⟨r.1, r.2⟩

def deleteOID (lbids : List LBIDRange) (n : SlaveDBRMNode) : ReturnCode × SlaveDBRMNode :=
  if lbids = [] then (.failed, n) else (.ok, lbids.foldl (removeRange cfg) n)

/-- A command runs to a reply, or ends in a failed assertion. -/
def Command.run : Command → SlaveDBRMNode → Option (Reply × SlaveDBRMNode)
  | .beginVBCopy transID vbOID dbrIndex ranges, n =>
    SlaveNode.beginVBCopy cfg transID vbOID dbrIndex ranges n
  | .writeVBEntry transID lbid dbrIdx vbOID vbFBO, n =>
    (SlaveNode.writeVBEntry cfg transID lbid dbrIdx vbOID vbFBO n).map (fun r => (⟨r.1, []⟩, r.2))
  | .vbCommit transID, n => some (⟨.ok, []⟩, { n with vss := commit transID n.vss })
  | .vbRollback transID lbidList, n =>
    let r := SlaveNode.vbRollback cfg transID lbidList n
    some (⟨r.1, []⟩, r.2)
  | .vbRollbackBlocks transID lbidList, n =>
    let r := SlaveNode.vbRollbackBlocks cfg transID lbidList n
    some (⟨r.1, []⟩, r.2)
  | .deleteOID lbids, n =>
    let r := SlaveNode.deleteOID cfg lbids n
    some (⟨r.1, []⟩, r.2)

/-- Which of the two tables a command locks. -/
def Command.locksVBBM : Command → Bool
  | .beginVBCopy _ _ dbrIndex _ => decide (dbrIndex = 0)
  | .vbCommit _ => false
  | _ => true

def Command.locksVSS : Command → Bool
  | .beginVBCopy _ _ dbrIndex _ => decide (dbrIndex = 0)
  | _ => true

def confirmChanges (c : Command) (n : SlaveDBRMNode) : SlaveDBRMNode where
  vss := if c.locksVSS then n.vss.confirmChanges else n.vss
  vbbm := if c.locksVBBM then n.vbbm.confirmChanges else n.vbbm

/-- There is no state after an undo that writes to a segment that moved. -/
def undoChanges (c : Command) (n : SlaveDBRMNode) : Option SlaveDBRMNode :=
  match if c.locksVBBM then n.vbbm.undoChanges else some n.vbbm,
    if c.locksVSS then n.vss.undoChanges else some n.vss with
  | some vbbm, some vss => some ⟨vss, vbbm⟩
  | _, _ => none

def initial : SlaveDBRMNode := ⟨Vss.initShmseg, Vbbm.initShmseg⟩

/-- The block a command names is not the mark of an unused slot. -/
def Command.real : Command → Prop
  | .writeVBEntry _ lbid _ _ _ => lbid ≠ -1
  | _ => True

/-- A command and what the master answered to it: a successful one is confirmed or undone,
a failed one undone. -/
inductive Step (n : SlaveDBRMNode) (c : Command) : SlaveDBRMNode → Prop where
  | confirmed {r : Reply} {t : SlaveDBRMNode} (ran : c.run cfg n = some (r, t))
      (ok : r.code = .ok) : Step n c (confirmChanges c t)
  | undone {r : Reply} {t u : SlaveDBRMNode} (ran : c.run cfg n = some (r, t))
      (undo : undoChanges c t = some u) : Step n c u

inductive Reachable : SlaveDBRMNode → Prop where
  | initial : Reachable initial
  | step {n t : SlaveDBRMNode} {c : Command} (before : Reachable n) (real : c.real)
      (next : Step cfg n c t) : Reachable t

end SlaveNode
