import EryDb.ImageUndo
import EryDb.SlotScan
import EryDb.HashChains

/-!
# The layout the VSS and the VBBM share

Both tables are one shared-memory segment: a header, hash buckets and an array of
slots chained per bucket, an unused slot being one with LBID -1. The functions both
classes have are written once here, over what differs: the data of a slot, the hash,
what the low water mark becomes after an insertion, and one header field (the number
of locked entries in the VSS, the number of files in the VBBM). The VBBM also keeps
its file descriptions in the segment.

A search for an unused slot that finds none runs past the end of the array; here it
then answers the index behind the last slot. The search of a chain stops after as many
steps as there are slots.
-/

namespace SlotTable

open ImageUndo ImageUndo.Undoable SlotScan HashChains

variable {Data File : Type}

structure Slot (Data : Type) where
  lbid : Int
  verID : Int
  data : Data
  next : Option Nat

inductive Field where
  | capacity | currentSize | lwm | numHashBuckets | ownCount
  deriving DecidableEq

inductive Addr where
  | field (f : Field)
  | bucket (b : Nat)
  | slot (i : Nat)
  | file (k : Nat)
  deriving DecidableEq

abbrev Val (Data File : Type) : Addr → Type
  | .field _ => Nat
  | .bucket _ => Option Nat
  | .slot _ => Slot Data
  | .file _ => File

abbrev Memory (Data File : Type) := Undoable (Val Data File)

def field (s : Memory Data File) (f : Field) : Nat := s.image (.field f)
def hashBuckets (s : Memory Data File) (b : Nat) : Option Nat := s.image (.bucket b)
def storage (s : Memory Data File) (i : Nat) : Slot Data := s.image (.slot i)
def files (s : Memory Data File) (k : Nat) : File := s.image (.file k)

def putField (s : Memory Data File) (f : Field) (v : Nat) : Memory Data File := s.store (.field f) v
def putBucket (s : Memory Data File) (b : Nat) (v : Option Nat) : Memory Data File :=
  s.store (.bucket b) v
def putSlot (s : Memory Data File) (i : Nat) (e : Slot Data) : Memory Data File :=
  s.store (.slot i) e
def putFile (s : Memory Data File) (k : Nat) (v : File) : Memory Data File := s.store (.file k) v

/-- The record of a whole header. -/
def recordHeader (s : Memory Data File) : Memory Data File :=
  ((((s.makeUndoRecord (.field .capacity)).makeUndoRecord (.field .currentSize)).makeUndoRecord
    (.field .lwm)).makeUndoRecord (.field .numHashBuckets)).makeUndoRecord (.field .ownCount)

section Accessors

variable (s : Memory Data File) (a : Addr) (f g : Field) (i j b c k l v : Nat) (o : Option Nat)
  (e : Slot Data) (w : File)

@[simp] lemma field_makeUndoRecord : field (s.makeUndoRecord a) f = field s f := rfl
@[simp] lemma hashBuckets_makeUndoRecord :
    hashBuckets (s.makeUndoRecord a) b = hashBuckets s b := rfl
@[simp] lemma storage_makeUndoRecord : storage (s.makeUndoRecord a) i = storage s i := rfl
@[simp] lemma files_makeUndoRecord : files (s.makeUndoRecord a) k = files s k := rfl

@[simp] lemma field_recordHeader : field (recordHeader s) f = field s f := rfl
@[simp] lemma hashBuckets_recordHeader : hashBuckets (recordHeader s) b = hashBuckets s b := rfl
@[simp] lemma storage_recordHeader : storage (recordHeader s) i = storage s i := rfl
@[simp] lemma files_recordHeader : files (recordHeader s) k = files s k := rfl

@[simp] lemma field_putField : field (putField s g v) f = if f = g then v else field s f := by
  obtain rfl | he := eq_or_ne f g <;> simp [field, putField, *]

@[simp] lemma hashBuckets_putField : hashBuckets (putField s g v) b = hashBuckets s b := by
  simp [hashBuckets, putField]
@[simp] lemma storage_putField : storage (putField s g v) i = storage s i := by
  simp [storage, putField]
@[simp] lemma files_putField : files (putField s g v) k = files s k := by
  simp [files, putField]

@[simp] lemma hashBuckets_putBucket :
    hashBuckets (putBucket s c o) b = if b = c then o else hashBuckets s b := by
  obtain rfl | he := eq_or_ne b c <;> simp [hashBuckets, putBucket, *]

@[simp] lemma field_putBucket : field (putBucket s c o) f = field s f := by
  simp [field, putBucket]
@[simp] lemma storage_putBucket : storage (putBucket s c o) i = storage s i := by
  simp [storage, putBucket]
@[simp] lemma files_putBucket : files (putBucket s c o) k = files s k := by
  simp [files, putBucket]

@[simp] lemma storage_putSlot : storage (putSlot s j e) i = if i = j then e else storage s i := by
  obtain rfl | he := eq_or_ne i j <;> simp [storage, putSlot, *]

@[simp] lemma field_putSlot : field (putSlot s j e) f = field s f := by
  simp [field, putSlot]
@[simp] lemma hashBuckets_putSlot : hashBuckets (putSlot s j e) b = hashBuckets s b := by
  simp [hashBuckets, putSlot]
@[simp] lemma files_putSlot : files (putSlot s j e) k = files s k := by
  simp [files, putSlot]

@[simp] lemma files_putFile : files (putFile s l w) k = if k = l then w else files s k := by
  obtain rfl | he := eq_or_ne k l <;> simp [files, putFile, *]

@[simp] lemma field_putFile : field (putFile s l w) f = field s f := by
  simp [field, putFile]
@[simp] lemma hashBuckets_putFile : hashBuckets (putFile s l w) b = hashBuckets s b := by
  simp [hashBuckets, putFile]
@[simp] lemma storage_putFile : storage (putFile s l w) i = storage s i := by
  simp [storage, putFile]

end Accessors

/-- What the two classes do differently with the same layout. -/
structure Layout where
  hasher : Int → Int → Nat
  lwmStep : Nat
  storageIncrement : Nat
  tableIncrement : Nat

variable (layout : Layout)

def bucketOf (s : Memory Data File) (lbid verID : Int) : Nat :=
  layout.hasher lbid verID % field s .numHashBuckets

def chainOf (s : Memory Data File) (b : Nat) : List Nat :=
  walk (fun i => (storage s i).next) (field s .capacity) (hashBuckets s b)

/-- The slot of an entry and the slot in front of it in the chain. -/
def getIndex (s : Memory Data File) (lbid verID : Int) : Option (Option Nat × Nat) :=
  findWithPrev (fun i => decide ((storage s i).lbid = lbid ∧ (storage s i).verID = verID)) none
    (chainOf s (bucketOf layout s lbid verID))

def insertIndex (s : Memory Data File) : Nat :=
  (firstIndex (fun i => decide (field s .lwm ≤ i ∧ (storage s i).lbid = -1))
    (field s .capacity)).getD (field s .capacity)

/-- The function named `_insert`. -/
def insertEntry (loading : Bool) (e : Slot Data) (s : Memory Data File) : Memory Data File :=
  let b := bucketOf layout s e.lbid e.verID
  let i := insertIndex s
  let s := if loading then s else recordHeader s
  let s := putField s .lwm (i + layout.lwmStep)
  let s := if loading then s else (s.makeUndoRecord (.slot i)).makeUndoRecord (.bucket b)
  putBucket (putSlot s i { e with next := hashBuckets s b }) b (some i)

/-- A new segment with every slot unused; the two counters and the files are copied. -/
def newSegment [Inhabited Data] (s : Memory Data File) : Memory Data File :=
  clean fun
    | .field .capacity => field s .capacity + layout.storageIncrement
    | .field .numHashBuckets => field s .numHashBuckets + layout.tableIncrement
    | .field .lwm => (0 : Nat)
    | .field f => field s f
    | .bucket _ => (none : Option Nat)
    | .slot _ => ⟨-1, 0, default, none⟩
    | .file k => files s k

/-- Only the slots below the recorded size are copied. -/
def copyTable (s dest : Memory Data File) : Memory Data File :=
  forEach (fun i t => if (storage s i).lbid ≠ -1 then insertEntry layout true (storage s i) t
    else t) (field s .currentSize) dest

def grown [Inhabited Data] (s : Memory Data File) : (a : Addr) → Val Data File a :=
  (copyTable layout s (newSegment layout s)).image

/-- Mark a slot as unused and take it out of its chain. -/
def unlink (prev : Option Nat) (index bucket : Nat) (s : Memory Data File) : Memory Data File :=
  let s := putSlot (s.makeUndoRecord (.slot index)) index { storage s index with lbid := -1 }
  match prev with
  | some p => putSlot (s.makeUndoRecord (.slot p)) p
      { storage s p with next := (storage s index).next }
  | none => putBucket (s.makeUndoRecord (.bucket bucket)) bucket (storage s index).next

/-- The header after the entry of a slot is gone. -/
def discount (counted : Bool) (index : Nat) (s : Memory Data File) : Memory Data File :=
  let s := putField s .currentSize (field s .currentSize - 1)
  let s := if counted = true ∧ 0 < field s .ownCount then
    putField s .ownCount (field s .ownCount - 1) else s
  if index < field s .lwm then putField s .lwm index else s

section Log

variable {s t : Memory Data File} {a : Addr} {f g : Field} {i b k v : Nat}

@[simp] lemma recorded_putField : (putField t f v).Recorded a ↔ t.Recorded a := Iff.rfl
@[simp] lemma recorded_putBucket {o : Option Nat} :
    (putBucket t b o).Recorded a ↔ t.Recorded a := Iff.rfl
@[simp] lemma recorded_putSlot {e : Slot Data} :
    (putSlot t i e).Recorded a ↔ t.Recorded a := Iff.rfl
@[simp] lemma recorded_recordHeader : (recordHeader t).Recorded (.field f) := by
  cases f <;> simp [recordHeader]

variable (hlg : Logged s t)
include hlg

lemma record_logged (a : Addr) : Logged s (t.makeUndoRecord a) :=
  hlg.trans (logged_makeUndoRecord t a)

lemma header_logged : Logged s (recordHeader t) :=
  record_logged (record_logged (record_logged (record_logged (record_logged hlg _) _) _) _) _

lemma putField_logged (hrec : t.Recorded (.field f)) (v : Nat) : Logged s (putField t f v) := by
  rw [putField]
  exact hlg.trans (logged_store _ hrec)

lemma putBucket_logged (hrec : t.Recorded (.bucket b)) (o : Option Nat) :
    Logged s (putBucket t b o) := by
  rw [putBucket]
  exact hlg.trans (logged_store _ hrec)

lemma putSlot_logged (hrec : t.Recorded (.slot i)) (e : Slot Data) : Logged s (putSlot t i e) := by
  rw [putSlot]
  exact hlg.trans (logged_store _ hrec)

lemma putFile_logged (hrec : t.Recorded (.file k)) (w : File) : Logged s (putFile t k w) := by
  rw [putFile]
  exact hlg.trans (logged_store _ hrec)

omit hlg

lemma logged_insertEntry (layout : Layout) (e : Slot Data) (s : Memory Data File) :
    Logged s (insertEntry layout false e s) := by
  simp only [insertEntry, Bool.false_eq_true, if_false]
  refine putBucket_logged (putSlot_logged (record_logged (record_logged ?_ _) _) ?_ _) ?_ _
  · exact putField_logged (header_logged (Logged.refl s)) (by simp) _
  · simp
  · simp

lemma logged_unlink (prev : Option Nat) (index bucket : Nat) (s : Memory Data File) :
    Logged s (unlink prev index bucket s) := by
  simp only [unlink]
  have marked : Logged s (putSlot (s.makeUndoRecord (.slot index)) index
      { storage s index with lbid := -1 }) :=
    putSlot_logged (record_logged (Logged.refl s) _) (by simp) _
  cases prev with
  | none => exact putBucket_logged (record_logged marked _) (by simp) _
  | some p => exact putSlot_logged (record_logged marked _) (by simp) _

lemma logged_discount (counted : Bool) (index : Nat) (header : ∀ f, t.Recorded (.field f)) :
    Logged t (discount counted index t) := by
  have size : Logged t (putField t .currentSize (field t .currentSize - 1)) :=
    putField_logged (Logged.refl t) (header _) _
  have own := putField_logged (f := .ownCount) size (by simpa using header _)
  simp only [discount]
  split
  · split
    · exact putField_logged (own _) (by simpa using header _) _
    · exact own _
  · split
    · exact putField_logged size (by simpa using header _) _
    · exact size

end Log

end SlotTable
