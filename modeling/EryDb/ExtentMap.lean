import EryDb.ImageUndo
import EryDb.SlotScan
import EryDb.BrmTypes

/-!
# The extent map and its free list

Two tables in shared memory: the extent entries and the free LBID ranges. A slot
whose `size` is zero is unused. `currentSize` and `allocdSize` of a table stand in
the master segment table and are byte counts, kept here as unbounded numbers.

The undo records of the C++ object hold raw addresses, so the address type also
has the two pointer variables `fEMShminfo` and `fFLShminfo` themselves: a record
made of the variable instead of the entry it points to restores nothing of use.
-/

namespace ExtentMap

open ImageUndo SlotScan BrmTypes

inductive Addr where
  | extent (i : Nat)
  | free (i : Nat)
  | emShminfo
  | flShminfo
  | emShminfoPointer
  | flShminfoPointer
  deriving DecidableEq

abbrev Val : Addr → Type
  | .extent _ => EMEntry
  | .free _ => InlineLBIDRange
  | .emShminfo | .flShminfo => MSTEntry
  | .emShminfoPointer | .flShminfoPointer => Unit

abbrev Map := Undoable Val

abbrev Outcome (Result : Type) := Except BrmExcept Result × Map

def fExtentMap (s : Map) (i : Nat) : EMEntry := s.image (.extent i)
def fFreeList (s : Map) (i : Nat) : InlineLBIDRange := s.image (.free i)
def fEMShminfo (s : Map) : MSTEntry := s.image .emShminfo
def fFLShminfo (s : Map) : MSTEntry := s.image .flShminfo

def emEntries (s : Map) : Nat := (fEMShminfo s).allocdSize / sizeofEMEntry
def flEntries (s : Map) : Nat := (fFLShminfo s).allocdSize / sizeofInlineLBIDRange

def emIncrement : Nat := 100 * sizeofEMEntry
def emInitialSize : Nat := 100 * 10 * sizeofEMEntry
def flIncrement : Nat := 50 * sizeofInlineLBIDRange
def flInitialSize : Nat := 50 * sizeofInlineLBIDRange

/-- Both segments as their first `grab` leaves them. -/
def freshImage : (a : Addr) → Val a
  | .extent _ => zeroEntry
  | .free i => if i = 0 then ⟨0, maxLBIDSize⟩ else zeroRange
  | .emShminfo => (⟨emInitialSize, 0⟩ : MSTEntry)
  | .flShminfo => (⟨flInitialSize, sizeofInlineLBIDRange⟩ : MSTEntry)
  | .emShminfoPointer => ()
  | .flShminfoPointer => ()

def fresh : Map := clean freshImage

/-- The given extents and no other slot. -/
def tableOf (extents : List EMEntry) : Map := clean fun
  | .extent i => extents.getD i zeroEntry
  | .emShminfo => (⟨extents.length * sizeofEMEntry, 0⟩ : MSTEntry)
  | a => freshImage a

def putExtent (s : Map) (i : Nat) (e : EMEntry) : Map := s.store (.extent i) e
def putFree (s : Map) (i : Nat) (r : InlineLBIDRange) : Map := s.store (.free i) r

def addEMSize (s : Map) (delta : Int) : Map := s.store .emShminfo
    ({ fEMShminfo s with currentSize := (fEMShminfo s).currentSize + delta } : MSTEntry)

def addFLSize (s : Map) (delta : Int) : Map := s.store .flShminfo
    ({ fFLShminfo s with currentSize := (fFLShminfo s).currentSize + delta } : MSTEntry)

def inExtentSegment : Addr → Bool
  | .extent _ => true
  | _ => false

def inFreeSegment : Addr → Bool
  | .free _ => true
  | _ => false

/-- A segment of `emEntries`/`flEntries` slots copied in front of zeroed memory. -/
def widened (s : Map) : (a : Addr) → Val a
  | .extent i => if i < emEntries s then fExtentMap s i else zeroEntry
  | .free i => if i < flEntries s then fFreeList s i else zeroRange
  | .emShminfo => fEMShminfo s
  | .flShminfo => fFLShminfo s
  | .emShminfoPointer => ()
  | .flShminfoPointer => ()

def growEMShmseg (nrows : Nat) (s : Map) : Map :=
  (s.moveSegment inExtentSegment (widened s)).store .emShminfo ({ fEMShminfo s with
        allocdSize := max ((fEMShminfo s).allocdSize + emIncrement) (nrows * sizeofEMEntry) } :
      MSTEntry)

def growFLShmseg (s : Map) : Map := (s.moveSegment inFreeSegment (widened s)).store .flShminfo
    ({ fFLShminfo s with allocdSize := (fFLShminfo s).allocdSize + flIncrement } : MSTEntry)

def getLBIDsFromFreeList (size : Nat) (s : Map) : Outcome Int :=
  match firstIndex (fun i => decide (size ≤ (fFreeList s i).size)) (flEntries s) with
  | none => (.error .runtimeError, s)
  | some i =>
    let r := fFreeList s i
    let s := putFree (s.makeUndoRecord (.free i)) i
      ⟨r.start + (u32 (size * 1024) : Nat), r.size - size⟩
    if r.size - size = 0 then
      (.ok r.start, addFLSize (s.makeUndoRecord .flShminfo) (-sizeofInlineLBIDRange))
    else (.ok r.start, s)

/-- Where a freed range fits: indices of the neighbours and of an unused slot. -/
structure FreeListFit where
  preceeding : Option Nat
  succeeding : Option Nat
  freeIndex : Option Nat

def fitStep (fl : Nat → InlineLBIDRange) (r : InlineLBIDRange) (i : Nat) (fit : FreeListFit) :
    FreeListFit :=
  if (fl i).size = 0 then { fit with freeIndex := some i }
  else if r.blockEnd = (fl i).start then { fit with succeeding := some i }
  else if (fl i).blockEnd = r.start then { fit with preceeding := some i }
  else fit

def findFit (fl : Nat → InlineLBIDRange) (r : InlineLBIDRange) (n : Nat) : FreeListFit :=
  forEach (fitStep fl r) n ⟨none, none, none⟩

/-- Migrate the free-list entry at `index` to a lower unused slot if there is one. -/
def migrateUpward (s : Map) (index : Nat) (freeIndex : Option Nat) : Nat × Map :=
  match freeIndex with
  | some k =>
    if k < index then
      let s := putFree (s.makeUndoRecord (.free k)) k (fFreeList s index)
      (k, putFree s index { fFreeList s index with size := 0 })
    else (index, s)
  | none => (index, s)

/-- Return a range to the free list. -/
def releaseRange (r : InlineLBIDRange) (s : Map) : Map :=
  let fit := findFit (fFreeList s) r (flEntries s)
  match fit.preceeding, fit.succeeding with
  | some p, some n =>
    let (p, s) := migrateUpward (s.makeUndoRecord (.free p)) p fit.freeIndex
    let s := putFree s p
      { fFreeList s p with size := u32 ((fFreeList s p).size + ((fFreeList s n).size + r.size)) }
    let s := s.makeUndoRecord (.free n)
    let s := putFree s n { fFreeList s n with size := 0 }
    addFLSize (s.makeUndoRecord .flShminfo) (-sizeofInlineLBIDRange)
  | none, some n =>
    let (n, s) := migrateUpward (s.makeUndoRecord (.free n)) n fit.freeIndex
    putFree s n ⟨r.start, u32 ((fFreeList s n).size + r.size)⟩
  | some p, none =>
    let (p, s) := migrateUpward (s.makeUndoRecord (.free p)) p fit.freeIndex
    putFree s p { fFreeList s p with size := u32 ((fFreeList s p).size + r.size) }
  | none, none =>
    let (k, s) :=
      if (fFLShminfo s).currentSize = (fFLShminfo s).allocdSize then
        (flEntries s, growFLShmseg s)
      else (fit.freeIndex.getD 0, s)
    let s := putFree (s.makeUndoRecord (.free k)) k r
    addFLSize (s.makeUndoRecord .flShminfoPointer) sizeofInlineLBIDRange

/-- The records made of `&fEMShminfo` and `&fFLShminfo` are of the pointer variables. -/
def deleteExtent (emIndex : Nat) (s : Map) : Map :=
  let r := (fExtentMap s emIndex).range
  let s := releaseRange r s
  let s := s.makeUndoRecord (.extent emIndex)
  let s := putExtent s emIndex { fExtentMap s emIndex with range := ⟨r.start, 0⟩ }
  addEMSize (s.makeUndoRecord .emShminfoPointer) (-sizeofEMEntry)

section Accessors

variable (s : Map) (a : Addr) (i j : Nat) (e : EMEntry) (r : InlineLBIDRange) (d : Int)

@[simp] lemma fExtentMap_makeUndoRecord : fExtentMap (s.makeUndoRecord a) i = fExtentMap s i := rfl

@[simp] lemma fFreeList_makeUndoRecord : fFreeList (s.makeUndoRecord a) i = fFreeList s i := rfl

@[simp] lemma fEMShminfo_makeUndoRecord : fEMShminfo (s.makeUndoRecord a) = fEMShminfo s := rfl

@[simp] lemma fFLShminfo_makeUndoRecord : fFLShminfo (s.makeUndoRecord a) = fFLShminfo s := rfl

@[simp] lemma fExtentMap_putExtent :
    fExtentMap (putExtent s j e) i = if i = j then e else fExtentMap s i := by
  obtain rfl | he := eq_or_ne i j <;> simp [fExtentMap, putExtent, *]

@[simp] lemma fFreeList_putExtent : fFreeList (putExtent s j e) i = fFreeList s i := by
  simp [fFreeList, putExtent]

@[simp] lemma fEMShminfo_putExtent : fEMShminfo (putExtent s j e) = fEMShminfo s := by
  simp [fEMShminfo, putExtent]

@[simp] lemma fFLShminfo_putExtent : fFLShminfo (putExtent s j e) = fFLShminfo s := by
  simp [fFLShminfo, putExtent]

@[simp] lemma fFreeList_putFree :
    fFreeList (putFree s j r) i = if i = j then r else fFreeList s i := by
  obtain rfl | he := eq_or_ne i j <;> simp [fFreeList, putFree, *]

@[simp] lemma fExtentMap_putFree : fExtentMap (putFree s j r) i = fExtentMap s i := by
  simp [fExtentMap, putFree]

@[simp] lemma fEMShminfo_putFree : fEMShminfo (putFree s j r) = fEMShminfo s := by
  simp [fEMShminfo, putFree]

@[simp] lemma fFLShminfo_putFree : fFLShminfo (putFree s j r) = fFLShminfo s := by
  simp [fFLShminfo, putFree]

@[simp] lemma fExtentMap_addEMSize : fExtentMap (addEMSize s d) i = fExtentMap s i := by
  simp [fExtentMap, addEMSize]

@[simp] lemma fFreeList_addEMSize : fFreeList (addEMSize s d) i = fFreeList s i := by
  simp [fFreeList, addEMSize]

@[simp] lemma fEMShminfo_addEMSize : fEMShminfo (addEMSize s d) =
    { fEMShminfo s with currentSize := (fEMShminfo s).currentSize + d } := by
  simp [fEMShminfo, addEMSize]

@[simp] lemma fFLShminfo_addEMSize : fFLShminfo (addEMSize s d) = fFLShminfo s := by
  simp [fFLShminfo, addEMSize]

@[simp] lemma fExtentMap_addFLSize : fExtentMap (addFLSize s d) i = fExtentMap s i := by
  simp [fExtentMap, addFLSize]

@[simp] lemma fFreeList_addFLSize : fFreeList (addFLSize s d) i = fFreeList s i := by
  simp [fFreeList, addFLSize]

@[simp] lemma fEMShminfo_addFLSize : fEMShminfo (addFLSize s d) = fEMShminfo s := by
  simp [fEMShminfo, addFLSize]

@[simp] lemma fFLShminfo_addFLSize : fFLShminfo (addFLSize s d) =
    { fFLShminfo s with currentSize := (fFLShminfo s).currentSize + d } := by
  simp [fFLShminfo, addFLSize]

variable (nrows : Nat)

@[simp] lemma fExtentMap_growEMShmseg : fExtentMap (growEMShmseg nrows s) i =
    if i < emEntries s then fExtentMap s i else zeroEntry := by
  simp [fExtentMap, growEMShmseg, Undoable.moveSegment, inExtentSegment, widened]

@[simp] lemma fFreeList_growEMShmseg : fFreeList (growEMShmseg nrows s) i = fFreeList s i := by
  simp [fFreeList, growEMShmseg, Undoable.moveSegment, inExtentSegment]

@[simp] lemma fEMShminfo_growEMShmseg : fEMShminfo (growEMShmseg nrows s) =
    { fEMShminfo s with
      allocdSize := max ((fEMShminfo s).allocdSize + emIncrement) (nrows * sizeofEMEntry) } := by
  simp [fEMShminfo, growEMShmseg]

@[simp] lemma fFLShminfo_growEMShmseg : fFLShminfo (growEMShmseg nrows s) = fFLShminfo s := by
  simp [fFLShminfo, growEMShmseg, Undoable.moveSegment, inExtentSegment]

@[simp] lemma fExtentMap_growFLShmseg : fExtentMap (growFLShmseg s) i = fExtentMap s i := by
  simp [fExtentMap, growFLShmseg, Undoable.moveSegment, inFreeSegment]

@[simp] lemma fFreeList_growFLShmseg : fFreeList (growFLShmseg s) i =
    if i < flEntries s then fFreeList s i else zeroRange := by
  simp [fFreeList, growFLShmseg, Undoable.moveSegment, inFreeSegment, widened]

@[simp] lemma fEMShminfo_growFLShmseg : fEMShminfo (growFLShmseg s) = fEMShminfo s := by
  simp [fEMShminfo, growFLShmseg, Undoable.moveSegment, inFreeSegment]

@[simp] lemma fFLShminfo_growFLShmseg : fFLShminfo (growFLShmseg s) =
    { fFLShminfo s with allocdSize := (fFLShminfo s).allocdSize + flIncrement } := by
  simp [fFLShminfo, growFLShmseg]

@[simp] lemma fExtentMap_migrateUpward (k : Option Nat) :
    fExtentMap (migrateUpward s j k).2 i = fExtentMap s i := by
  unfold migrateUpward
  split
  · split <;> simp
  · rfl

@[simp] lemma fEMShminfo_migrateUpward (k : Option Nat) :
    fEMShminfo (migrateUpward s j k).2 = fEMShminfo s := by
  unfold migrateUpward
  split
  · split <;> simp
  · rfl

@[simp] lemma fExtentMap_releaseRange : fExtentMap (releaseRange r s) i = fExtentMap s i := by
  simp only [releaseRange]
  split
  · simp
  · simp
  · simp
  · split <;> simp

@[simp] lemma fEMShminfo_releaseRange : fEMShminfo (releaseRange r s) = fEMShminfo s := by
  simp only [releaseRange]
  split
  · simp
  · simp
  · simp
  · split <;> simp

@[simp] lemma fExtentMap_deleteExtent : fExtentMap (deleteExtent j s) i =
    if i = j then { fExtentMap s j with range := ⟨(fExtentMap s j).range.start, 0⟩ }
    else fExtentMap s i := by
  simp [deleteExtent]

@[simp] lemma fFreeList_deleteExtent : fFreeList (deleteExtent j s) i =
    fFreeList (releaseRange (fExtentMap s j).range s) i := by
  simp [deleteExtent]

@[simp] lemma fEMShminfo_deleteExtent : fEMShminfo (deleteExtent j s) =
    { fEMShminfo s with currentSize := (fEMShminfo s).currentSize + -sizeofEMEntry } := by
  simp [deleteExtent]

@[simp] lemma fFLShminfo_deleteExtent : fFLShminfo (deleteExtent j s) =
    fFLShminfo (releaseRange (fExtentMap s j).range s) := by
  simp [deleteExtent]

end Accessors

end ExtentMap
