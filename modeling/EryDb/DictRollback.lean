import EryDb.LiveExtents

/-!
# Rolling back a dictionary store

A load on a dictionary store appends extents and moves high water marks; the
rollback is told the partition and the marks from before the load. It recognises the
extents of the store by their whole array of replica DBRoots. An extent appended to
an existing segment file copies only the first DBRoot of the file and keeps the
others its slot held before, so the rollback finds it only when these happen to be
the right ones.
-/

namespace DictRollback

open Option (bind_eq_some_iff bind_some map_eq_some_iff)
open List ImageUndo SlotScan BrmTypes ExtentMap ExtentCreation ExtentUpdates ExtentCalls LbidTiling
  LbidSpace ExtentUndo LiveExtents

/-- Blocks of a dictionary extent. -/
def dictBlocks : Nat := extentSize dictColWidth

lemma dictBlocks_eq : dictBlocks = 8192 := rfl

/-- The live extents of one object, slot by slot. -/
def extentsOf (oid : Int) (s : Map) (i : Nat) : Option EMEntry :=
  (live s i).filter (fun e => decide (e.fileID = oid))

variable {oid : Int} {s : Map} {i : Nat} {e : EMEntry}

lemma extentsOf_eq_some : extentsOf oid s i = some e ↔ live s i = some e ∧ e.fileID = oid := by
  simp [extentsOf, Option.filter_eq_some_iff]

lemma extentsOf_of_live (hun : live s i = none) : extentsOf oid s i = none := by
  simp [extentsOf, hun]

@[simp] lemma extentsOf_confirmChanges (oid : Int) (s : Map) (i : Nat) :
    extentsOf oid s.confirmChanges i = extentsOf oid s i := rfl

def SameSegment (e e' : EMEntry) : Prop :=
  e.partitionNum = e'.partitionNum ∧ e.segmentNum = e'.segmentNum

variable {l : Nat} {last : EMEntry}

section Store

variable (oid : Int) (dbRoot : DBRootsStruct)

/-- The last extent of a segment file of the store, which holds the mark of the file. -/
structure LastOf (s : Map) (l : Nat) (last : EMEntry) : Prop where
  here : extentsOf oid s l = some last
  root : last.dbRoots = dbRoot
  before : ∀ j e, extentsOf oid s j = some e → e.dbRoots = dbRoot → SameSegment e last → j ≠ l →
    e.blockOffset < last.blockOffset ∧ e.hwm = 0
  marked : last.blockOffset ≤ last.hwm ∧ last.hwm < last.blockOffset + dictBlocks

variable {oid dbRoot} in
lemma LastOf.unique {l' : Nat} {last' : EMEntry} (isLast : LastOf oid dbRoot s l last)
    (second : LastOf oid dbRoot s l' last') (he : SameSegment last last') : last = last' := by
  by_cases heq : l = l'
  · subst heq
    exact Option.some.inj (isLast.here.symm.trans second.here)
  · have left := (second.before l last isLast.here isLast.root he heq).1
    have right :=
      (isLast.before l' last' second.here second.root ⟨he.1.symm, he.2.symm⟩ (Ne.symm heq)).1
    omega

/-- A dictionary object whose extents on one set of DBRoots are available and have the mark
of each segment file in its last extent. -/
structure DictionaryStore (s : Map) : Prop where
  sized : ∀ i e, extentsOf oid s i = some e → e.range.size = dictBlocks / 1024
  aligned : ∀ i e, extentsOf oid s i = some e → dictBlocks ∣ e.blockOffset
  offset : ∀ i e, extentsOf oid s i = some e → e.blockOffset < 2 ^ 32
  available : ∀ i e, extentsOf oid s i = some e → e.dbRoots = dbRoot → e.status = .available
  marked : ∀ i e, extentsOf oid s i = some e → e.dbRoots = dbRoot →
    ∃ l last, LastOf oid dbRoot s l last ∧ SameSegment e last

/-- The segment files of the store in one partition, each with its mark. -/
structure OriginalPairs (s : Map) (partitionNum : Nat) (segNums hwms : List Nat) : Prop where
  length : segNums.length = hwms.length
  pairs : ∀ seg hwm, (seg, hwm) ∈ segNums.zip hwms ↔
    ∃ l last, LastOf oid dbRoot s l last ∧ last.partitionNum = partitionNum ∧
      last.segmentNum = seg ∧ last.hwm = hwm

end Store

/-- The calls of a load on a dictionary store. -/
inductive DictCall where
  | create (partitionNum segmentNum : Nat)
  | setHWM (partitionNum segmentNum newHWM : Nat)

namespace DictCall

def call (oid : Int) (dbRoot : DBRootsStruct) : DictCall → Call
  | .create partitionNum segmentNum => .createDictStoreExtent oid dbRoot partitionNum segmentNum
  | .setHWM partitionNum segmentNum newHWM => .setLocalHWM oid partitionNum segmentNum newHWM

def partitionNum : DictCall → Nat
  | .create partitionNum _ => partitionNum
  | .setHWM partitionNum _ _ => partitionNum

def segmentNum : DictCall → Nat
  | .create _ segmentNum => segmentNum
  | .setHWM _ segmentNum _ => segmentNum

/-- The call is on a segment file of the store, or a new one, in partition `P` or later. -/
structure Targets (oid : Int) (dbRoot : DBRootsStruct) (P : Nat) (s : Map) (c : DictCall) :
    Prop where
  later : P ≤ c.partitionNum
  own : ∀ i e, extentsOf oid s i = some e → InFile oid c.partitionNum c.segmentNum e →
    e.dbRoots = dbRoot

/-- The map a successful call leaves behind once it is confirmed. -/
def next (cfg : Config) (oid : Int) (dbRoot : DBRootsStruct) (c : DictCall) (s : Map) :
    Option Map :=
  match (c.call oid dbRoot).run cfg s with
  | (.ok _, t) => some t.confirmChanges
  | (.error _, _) => none

end DictCall

def follow (cfg : Config) (oid : Int) (dbRoot : DBRootsStruct) : List DictCall → Map → Option Map
  | [], s => some s
  | c :: calls, s => (c.next cfg oid dbRoot s).bind (follow cfg oid dbRoot calls)

/-- The entry a creation is about to overwrite. -/
def reusedSlot (s : Map) : EMEntry :=
  (emptyEMEntry (makeRoom s)).elim zeroEntry (fExtentMap (makeRoom s))

/-- The last extent of a segment file before a creation. -/
def lastInFile (oid : Int) (partitionNum segmentNum : Nat) (s : Map) : Option EMEntry :=
  lastExtent (makeRoom s) (fun e => decide (e.fileID = oid ∧ e.partitionNum = partitionNum ∧
    e.segmentNum = segmentNum))

/-- An extent appended to an existing file takes a slot that holds the right replica DBRoots,
and the block offset of a file the rollback is told about does not wrap. -/
def Placed (oid : Int) (dbRoot : DBRootsStruct) (P : Nat) (s₀ s : Map) : DictCall → Prop
  | .create partitionNum segmentNum =>
    ∀ last, lastInFile oid partitionNum segmentNum s = some last →
      (reusedSlot s).dbRoots.set 0 (last.dbRoots.get 0) = dbRoot ∧
      ((∃ i e, extentsOf oid s₀ i = some e ∧ e.dbRoots = dbRoot ∧
          InFile oid partitionNum segmentNum e ∧ partitionNum = P) →
        last.blockOffset + dictBlocks < 2 ^ 32)
  | .setHWM .. => True

def AllPlaced (cfg : Config) (oid : Int) (dbRoot : DBRootsStruct) (P : Nat) (s₀ : Map) :
    List DictCall → Map → Prop
  | [], _ => True
  | c :: calls, s => Placed oid dbRoot P s₀ s c ∧
      ∀ t, c.next cfg oid dbRoot s = some t → AllPlaced cfg oid dbRoot P s₀ calls t

variable {e' : EMEntry}

section Load

variable {cfg : Config} {oid : Int} {dbRoot : DBRootsStruct} {P : Nat} {s m t : Map}

/-- The extents nothing of the load may change: those on other DBRoots, in earlier
partitions, or before the last extent of their file. -/
def Settled (oid : Int) (dbRoot : DBRootsStruct) (P : Nat) (s : Map) (e : EMEntry) : Prop :=
  e.dbRoots ≠ dbRoot ∨ e.partitionNum < P ∨
    ∃ l last, LastOf oid dbRoot s l last ∧ SameSegment e last ∧ e.blockOffset < last.blockOffset

/-- What holds of a map `m` reached from `s`, wherever the new extents were put. -/
structure LoadedFrom (oid : Int) (dbRoot : DBRootsStruct) (P : Nat) (s m : Map) : Prop where
  valid : Valid m
  sized : ∀ i e, extentsOf oid m i = some e → e.range.size = dictBlocks / 1024
  aligned : ∀ i e, extentsOf oid m i = some e → dictBlocks ∣ e.blockOffset
  offset : ∀ i e, extentsOf oid m i = some e → e.blockOffset < 2 ^ 32
  kept : ∀ i e, extentsOf oid s i = some e → ∃ e', extentsOf oid m i = some e' ∧
    Moved e e' ∧ (e.dbRoots = dbRoot → e'.status = .available) ∧ (Settled oid dbRoot P s e → e' = e)
  added : ∀ i e, extentsOf oid s i = none → extentsOf oid m i = some e →
    P ≤ e.partitionNum ∧ e.status ≠ .outOfService

lemma loadedFrom_self (valid : Valid s) (store : DictionaryStore oid dbRoot s) :
    LoadedFrom oid dbRoot P s s where
  valid := valid
  sized := store.sized
  aligned := store.aligned
  offset := store.offset
  kept i e here := ⟨e, here, rfl, store.available i e here, fun _ => rfl⟩
  added i e none here := by simp [none] at here

/-- An extent of a file from before the load is still in the table. -/
lemma LoadedFrom.still {partitionNum segmentNum : Nat} (fromLoad : LoadedFrom oid dbRoot P s m)
    (isLast : LastOf oid dbRoot s l last) (he : SameSegment e last)
    (hw : InFile oid partitionNum segmentNum e) : ∃ e', live m l = some e' ∧
      InFile oid partitionNum segmentNum e' ∧ e'.blockOffset = last.blockOffset := by
  obtain ⟨e', ht, hmo, -⟩ := fromLoad.kept l last isLast.here
  obtain ⟨lives, object⟩ := extentsOf_eq_some.mp ht
  refine ⟨e', lives, ⟨object, ?_, ?_⟩, by rw [hmo]⟩
  · rw [hmo]
    exact he.1.symm.trans hw.2.1
  · rw [hmo]
    exact he.2.symm.trans hw.2.2

/-- A settled extent of the file a call is on comes before another extent of the file. -/
lemma settled_in_file {c : DictCall} (fromLoad : LoadedFrom oid dbRoot P s m)
    (targets : c.Targets oid dbRoot P s) (hh : extentsOf oid s i = some e)
    (hw : InFile oid c.partitionNum c.segmentNum e) (hset : Settled oid dbRoot P s e) :
    e.hwm = 0 ∧ ∃ j e', live m j = some e' ∧ InFile oid c.partitionNum c.segmentNum e' ∧
      e.blockOffset < e'.blockOffset := by
  have root := targets.own i e hh hw
  rcases hset with ho | earlier | ⟨l, last, isLast, he, hb⟩
  · exact absurd root ho
  · have := targets.later
    have := hw.2.1
    omega
  have hap : i ≠ l := by
    rintro rfl
    cases hh.symm.trans isLast.here
    omega
  obtain ⟨e', lives, inFile, offset⟩ := fromLoad.still isLast he hw
  exact ⟨(isLast.before i e hh root he hap).2, l, e', lives, inFile, offset ▸ hb⟩

/-- The rollback will delete an extent: it is on the whole set of DBRoots and, in a file of
partition `P` that was there before, it lies behind the old last extent. -/
def Recognised (oid : Int) (dbRoot : DBRootsStruct) (P : Nat) (s : Map) (e : EMEntry) : Prop :=
  e.dbRoots = dbRoot ∧ ∀ l last, LastOf oid dbRoot s l last → last.partitionNum = P →
    SameSegment e last → last.blockOffset < e.blockOffset

def Clean (oid : Int) (dbRoot : DBRootsStruct) (P : Nat) (s m : Map) : Prop :=
  ∀ i e, extentsOf oid s i = none → extentsOf oid m i = some e → Recognised oid dbRoot P s e

lemma recognised_moved (hmo : Moved e e') :
    Recognised oid dbRoot P s e' ↔ Recognised oid dbRoot P s e := by
  rw [hmo]
  exact Iff.rfl

section Mark

variable {partitionNum segmentNum newHWM : Nat}
  (success : setLocalHWM oid partitionNum segmentNum newHWM m = (.ok (), t))
include success

lemma setHWM_back (hv : Valid m) (ha : extentsOf oid t i = some e') :
    ∃ e, extentsOf oid m i = some e ∧ Moved e e' ∧
      (e'.status = e.status ∨ e'.status = .available) := by
  obtain ⟨hh', object⟩ := extentsOf_eq_some.mp ha
  obtain ⟨e, hh, hmo, state⟩ := setLocalHWM_back hv success hh'
  rw [hmo] at object
  exact ⟨e, extentsOf_eq_some.mpr ⟨hh, object⟩, hmo, state⟩

/-- One call moves the mark of a file: nothing but marks and states of its extents change. -/
lemma loadedFrom_setHWM (fromLoad : LoadedFrom oid dbRoot P s m)
    (targets : (DictCall.setHWM partitionNum segmentNum newHWM).Targets oid dbRoot P s) :
    LoadedFrom oid dbRoot P s t.confirmChanges := by
  refine ⟨?_, fun i e' ha => ?_, fun i e' ha => ?_, fun i e' ha => ?_,
    fun i e hh => ?_, fun i e' none ha => ?_⟩
  · exact confirmChanges_valid (setLocalHWM_valid fromLoad.valid success)
  · obtain ⟨e, hb, hmo, -⟩ := setHWM_back success fromLoad.valid ha
    rw [hmo]
    exact fromLoad.sized i e hb
  · obtain ⟨e, hb, hmo, -⟩ := setHWM_back success fromLoad.valid ha
    rw [hmo]
    exact fromLoad.aligned i e hb
  · obtain ⟨e, hb, hmo, -⟩ := setHWM_back success fromLoad.valid ha
    rw [hmo]
    exact fromLoad.offset i e hb
  · obtain ⟨e₁, hb, hmo, state, still⟩ := fromLoad.kept i e hh
    obtain ⟨lives, object⟩ := extentsOf_eq_some.mp hb
    obtain ⟨e₂, ha, hmo', state', change⟩ := (setLocalHWM_moves fromLoad.valid success i).2 e₁ lives
    refine ⟨e₂, extentsOf_eq_some.mpr ⟨ha, ?_⟩, hmo.trans hmo', fun root => ?_, fun hset => ?_⟩
    · rw [hmo']
      exact object
    · rcases state' with he | available
      · rw [he]
        exact state root
      · exact available
    obtain rfl := still hset
    rcases change with he | ⟨hw, held | last⟩
    · exact he
    · exact absurd (settled_in_file fromLoad targets hh hw hset).1 held
    · obtain ⟨-, j, e', ht, inFile, hbe⟩ :=
        settled_in_file fromLoad targets hh hw hset
      exact absurd (last j e' ht inFile) (not_le.mpr hbe)
  · obtain ⟨e, hb, hmo, state⟩ := setHWM_back success fromLoad.valid ha
    obtain ⟨isLast, hser⟩ := fromLoad.added i e none hb
    refine ⟨by rw [hmo]; exact isLast, ?_⟩
    rcases state with he | available
    · rwa [he]
    · simp [available]

/-- Whether the rollback recognises the new extents does not depend on marks. -/
lemma clean_setHWM (hv : Valid m) :
    Clean oid dbRoot P s t.confirmChanges ↔ Clean oid dbRoot P s m := by
  constructor
  · intro clean i e none hb
    obtain ⟨lives, object⟩ := extentsOf_eq_some.mp hb
    obtain ⟨e', ha, hmo, -⟩ := (setLocalHWM_moves hv success i).2 e lives
    have hsto : extentsOf oid t i = some e' :=
      extentsOf_eq_some.mpr ⟨ha, by rw [hmo]; exact object⟩
    exact (recognised_moved hmo).mp (clean i e' none hsto)
  · intro clean i e' none ha
    obtain ⟨e, hb, hmo, -⟩ := setHWM_back success hv ha
    exact (recognised_moved hmo).mpr (clean i e none hb)

end Mark

section Creation

variable {partitionNum segmentNum : Nat} {answer : CreatedExtent}

lemma lastInFile_eq_none (hv : Valid m)
    (absent : lastInFile oid partitionNum segmentNum m = none) (hh : live m i = some e) :
    ¬ InFile oid partitionNum segmentNum e := by
  have := lastExtent_eq_none (fun i e => bound_of_live (makeRoom_valid hv)) absent i e
    (by rwa [live_makeRoom hv])
  simpa [InFile] using this

lemma lastInFile_eq_some (hv : Valid m)
    (hf : lastInFile oid partitionNum segmentNum m = some last) :
    InFile oid partitionNum segmentNum last ∧ (∃ i, live m i = some last) ∧
      ∀ j e, live m j = some e → InFile oid partitionNum segmentNum e →
        e.blockOffset ≤ last.blockOffset := by
  obtain ⟨i, hh, hw, hmax⟩ := lastExtent_eq_some (fun i e => bound_of_live (makeRoom_valid hv)) hf
  refine ⟨by simpa [InFile] using hw, ⟨i, by rwa [live_makeRoom hv] at hh⟩,
    fun j e ht inFile => hmax j e (by rwa [live_makeRoom hv]) ?_⟩
  simpa [InFile] using inFile

/-- A new dictionary extent: behind the last of its file, in the slot that is reused. -/
lemma createDictStoreExtent_ok (hv : Valid m)
    (hok : createDictStoreExtent oid dbRoot partitionNum segmentNum m = (.ok answer, t)) :
    ∃ i range, range.size = dictBlocks / 1024 ∧ live m i = none ∧
      ∀ j, live t j = if j = i then some (dictEntry (reusedSlot m) range oid dbRoot partitionNum
        segmentNum (lastInFile oid partitionNum segmentNum m)) else live m j := by
  unfold createDictStoreExtent created at hok
  split at hok
  · simp at hok
  rename_i lbid e t' hreq
  cases hok
  obtain ⟨r, i, ready, hf, hun, he, lives⟩ :=
    allocateExtent_ok hv (by decide) (by decide) (fun _ _ => rfl) hreq
  refine ⟨i, ⟨lbid, dictBlocks / 1024⟩, rfl, hun, fun j => ?_⟩
  rw [lives j, he, reusedSlot, lastInFile, ← ready.lastExtent_eq, ← ready.emptyEMEntry_eq,
    hf]
  simp [ready.extents, dictBlocks]

/-- A new extent of a dictionary store, and the slot it is put in. -/
structure Appended (oid : Int) (dbRoot : DBRootsStruct) (partitionNum segmentNum : Nat) (m : Map)
    (i : Nat) (e : EMEntry) : Prop where
  vacant : extentsOf oid m i = none
  inFile : InFile oid partitionNum segmentNum e
  sized : e.range.size = dictBlocks / 1024
  aligned : dictBlocks ∣ e.blockOffset
  offset : e.blockOffset < 2 ^ 32
  inService : e.status ≠ .outOfService
  roots : e.dbRoots = (lastInFile oid partitionNum segmentNum m).elim dbRoot
    (fun last => (reusedSlot m).dbRoots.set 0 (last.dbRoots.get 0))
  behind : e.blockOffset = (lastInFile oid partitionNum segmentNum m).elim 0
    (fun last => u32 (last.blockOffset + dictBlocks))

variable (success : createDictStoreExtent oid dbRoot partitionNum segmentNum m = (.ok answer, t))
include success

lemma create_appended (fromLoad : LoadedFrom oid dbRoot P s m) :
    ∃ i e, Appended oid dbRoot partitionNum segmentNum m i e ∧
      ∀ j, extentsOf oid t j = if j = i then some e else extentsOf oid m j := by
  obtain ⟨i, range, size, hun, lives⟩ := createDictStoreExtent_ok fromLoad.valid success
  have news : ∀ e, e.fileID = oid → (∀ j, live t j = if j = i then some e else live m j) →
      ∀ j, extentsOf oid t j = if j = i then some e else extentsOf oid m j := by
    intro e object lives j
    simp only [extentsOf, lives j]
    split <;> simp [object]
  refine ⟨i, _, ?_, news _ rfl lives⟩
  have vacant : extentsOf oid m i = none := extentsOf_of_live hun
  cases hf : lastInFile oid partitionNum segmentNum m with
  | none =>
    exact ⟨vacant, ⟨rfl, rfl, rfl⟩, size, by simp [dictEntry, offsetBehind],
      by simp [dictEntry, offsetBehind], by simp [dictEntry], by rw [hf]; rfl,
      by rw [hf]; rfl⟩
  | some last =>
    obtain ⟨hw, ⟨k, hh⟩, -⟩ := lastInFile_eq_some fromLoad.valid hf
    have hsto : extentsOf oid m k = some last := extentsOf_eq_some.mpr ⟨hh, hw.1⟩
    have hbe : (dictEntry (reusedSlot m) range oid dbRoot partitionNum segmentNum
        (some last)).blockOffset = u32 (last.blockOffset + dictBlocks) := by
      simp [dictEntry, offsetBehind, fromLoad.sized k last hsto, dictBlocks_eq, Nat.add_comm]
    have hal := fromLoad.aligned k last hsto
    refine ⟨vacant, ⟨rfl, hw.2.1, hw.2.2⟩, size, ?_, ?_, by simp [dictEntry],
      by rw [hf]; rfl, by rw [hf]; exact hbe⟩
    · rw [hbe]
      simp only [dictBlocks_eq, u32] at hal ⊢
      omega
    · rw [hbe]
      exact Nat.mod_lt _ (by decide)

lemma loadedFrom_create (fromLoad : LoadedFrom oid dbRoot P s m)
    (targets : (DictCall.create partitionNum segmentNum).Targets oid dbRoot P s) :
    LoadedFrom oid dbRoot P s t.confirmChanges := by
  obtain ⟨i, e, new, news⟩ := create_appended success fromLoad
  refine ⟨?_, forall_added news new.sized fromLoad.sized,
    forall_added news new.aligned fromLoad.aligned,
    forall_added news new.offset fromLoad.offset, fun j e₀ hh => ?_, fun j e' none ha => ?_⟩
  · have ha : Valid (createDictStoreExtent oid dbRoot partitionNum segmentNum m).2 :=
      createDictStoreExtent_valid fromLoad.valid
    rw [success] at ha
    exact confirmChanges_valid ha
  · obtain ⟨e₁, hb, rest⟩ := fromLoad.kept j e₀ hh
    have ho : j ≠ i := by
      rintro rfl
      simp [new.vacant] at hb
    refine ⟨e₁, ?_, rest⟩
    rw [extentsOf_confirmChanges, news j, if_neg ho]
    exact hb
  · rcases some_of_added news ha with ⟨rfl, rfl⟩ | hb
    · exact ⟨targets.later.trans new.inFile.2.1.ge, new.inService⟩
    · exact fromLoad.added j e' none hb

omit success in
/-- A new extent is recognised exactly if it was placed well. -/
lemma recognised_iff_placed (store : DictionaryStore oid dbRoot s)
    (fromLoad : LoadedFrom oid dbRoot P s m)
      (new : Appended oid dbRoot partitionNum segmentNum m i e) :
    Recognised oid dbRoot P s e ↔ Placed oid dbRoot P s m (.create partitionNum segmentNum) := by
  have root := new.roots
  have hbe := new.behind
  cases hf : lastInFile oid partitionNum segmentNum m with
  | none =>
    rw [hf] at root
    refine iff_of_true ⟨root, fun l last isLast _ he => ?_⟩ (by simp [Placed, hf])
    obtain ⟨e', lives, hw, -⟩ := fromLoad.still isLast he new.inFile
    exact absurd hw (lastInFile_eq_none fromLoad.valid hf lives)
  | some L =>
    obtain ⟨hw, ⟨k, hh⟩, hmax⟩ := lastInFile_eq_some fromLoad.valid hf
    have hsto : extentsOf oid m k = some L := extentsOf_eq_some.mpr ⟨hh, hw.1⟩
    have hal := fromLoad.aligned k L hsto
    have hbo := fromLoad.offset k L hsto
    simp only [hf, Option.elim_some] at root hbe
    simp only [Placed, hf, Option.some.injEq, forall_eq', Recognised, root, hbe]
    refine and_congr_right fun _ => ⟨fun recognised => ?_, fun room l last isLast inP he => ?_⟩
    · rintro ⟨i₀, e₀, hh₀, root₀, hw₀, rfl⟩
      obtain ⟨l, last, isLast, he⟩ := store.marked i₀ e₀ hh₀ root₀
      have := recognised l last isLast (he.1.symm.trans hw₀.2.1)
        ⟨new.inFile.2.1.trans (hw₀.2.1.symm.trans he.1),
          new.inFile.2.2.trans (hw₀.2.2.symm.trans he.2)⟩
      -- A wrapped offset would be zero.
      simp only [dictBlocks_eq, u32] at this hal hbo ⊢
      omega
    · obtain ⟨e', lives, hw', heq⟩ := fromLoad.still isLast he new.inFile
      have hl := hmax l e' lives hw'
      have object := (extentsOf_eq_some.mp isLast.here).2
      have := room ⟨l, last, isLast.here, isLast.root,
        ⟨object, he.1.symm.trans new.inFile.2.1, he.2.symm.trans new.inFile.2.2⟩,
        new.inFile.2.1.symm.trans (he.1.trans inP)⟩
      simp only [dictBlocks_eq, u32] at this ⊢
      omega

lemma clean_create (store : DictionaryStore oid dbRoot s) (fromLoad : LoadedFrom oid dbRoot P s m) :
    Clean oid dbRoot P s t.confirmChanges ↔
      Placed oid dbRoot P s m (.create partitionNum segmentNum) ∧ Clean oid dbRoot P s m := by
  obtain ⟨i, e, new, news⟩ := create_appended success fromLoad
  have fresh : extentsOf oid s i = none := by
    cases hh : extentsOf oid s i with
    | none => rfl
    | some e₀ =>
      obtain ⟨e₁, hb, -⟩ := fromLoad.kept i e₀ hh
      simp [new.vacant] at hb
  rw [← recognised_iff_placed store fromLoad new]
  constructor
  · refine fun clean => ⟨clean i e fresh (by simp [news i]), fun j e' none hb => ?_⟩
    have ho : j ≠ i := by
      rintro rfl
      simp [new.vacant] at hb
    refine clean j e' none ?_
    rw [extentsOf_confirmChanges, news j, if_neg ho]
    exact hb
  · rintro ⟨recognised, clean⟩ j e' none ha
    rcases some_of_added news ha with ⟨-, rfl⟩ | hb
    · exact recognised
    · exact clean j e' none hb

end Creation

lemma next_create {partitionNum segmentNum : Nat}
    (step : (DictCall.create partitionNum segmentNum).next cfg oid dbRoot m = some t) :
    ∃ answer r, createDictStoreExtent oid dbRoot partitionNum segmentNum m = (.ok answer, r) ∧
      r.confirmChanges = t := by
  cases made : createDictStoreExtent oid dbRoot partitionNum segmentNum m with
  | mk result r =>
    cases result with
    | error e =>
      simp [DictCall.next, DictCall.call, Call.run, ExtentCalls.discard, made] at step
    | ok answer =>
      refine ⟨answer, r, rfl, ?_⟩
      simpa [DictCall.next, DictCall.call, Call.run, ExtentCalls.discard, made] using step

lemma next_setHWM {partitionNum segmentNum newHWM : Nat}
    (step : (DictCall.setHWM partitionNum segmentNum newHWM).next cfg oid dbRoot m = some t) :
    ∃ r, setLocalHWM oid partitionNum segmentNum newHWM m = (.ok (), r) ∧ r.confirmChanges = t := by
  cases made : setLocalHWM oid partitionNum segmentNum newHWM m with
  | mk result r =>
    cases result with
    | error e => simp [DictCall.next, DictCall.call, Call.run, made] at step
    | ok _ =>
      refine ⟨r, rfl, ?_⟩
      simpa [DictCall.next, DictCall.call, Call.run, made] using step

/-- What one call of the load preserves, and when it keeps the new extents recognisable. -/
lemma next_loaded {c : DictCall} (store : DictionaryStore oid dbRoot s)
    (fromLoad : LoadedFrom oid dbRoot P s m) (targets : c.Targets oid dbRoot P s)
    (step : c.next cfg oid dbRoot m = some t) :
    LoadedFrom oid dbRoot P s t ∧
      (Clean oid dbRoot P s t ↔ Placed oid dbRoot P s m c ∧ Clean oid dbRoot P s m) := by
  cases c with
  | create partitionNum segmentNum =>
    obtain ⟨answer, r, hok, rfl⟩ := next_create step
    exact ⟨loadedFrom_create hok fromLoad targets, clean_create hok store fromLoad⟩
  | setHWM partitionNum segmentNum newHWM =>
    obtain ⟨r, hok, rfl⟩ := next_setHWM step
    refine ⟨loadedFrom_setHWM hok fromLoad targets, ?_⟩
    rw [clean_setHWM hok fromLoad.valid]
    simp [Placed]

lemma follow_loaded {calls : List DictCall} (store : DictionaryStore oid dbRoot s)
    (fromLoad : LoadedFrom oid dbRoot P s m) (targets : ∀ c ∈ calls, c.Targets oid dbRoot P s)
    (ran : follow cfg oid dbRoot calls m = some t) :
    LoadedFrom oid dbRoot P s t ∧
      (Clean oid dbRoot P s t ↔ AllPlaced cfg oid dbRoot P s calls m ∧ Clean oid dbRoot P s m) := by
  induction calls generalizing m with
  | nil =>
    cases ran
    exact ⟨fromLoad, by simp [AllPlaced]⟩
  | cons c calls ih =>
    obtain ⟨m', step, rest⟩ := bind_eq_some_iff.mp ran
    obtain ⟨fromLoad', clean'⟩ := next_loaded store fromLoad (targets c mem_cons_self) step
    obtain ⟨final, clean⟩ := ih fromLoad' (fun c hm => targets c (mem_cons_of_mem _ hm)) rest
    refine ⟨final, ?_⟩
    rw [clean, clean']
    simp only [AllPlaced, step, Option.some.injEq, forall_eq']
    tauto

end Load

variable {seg : Nat}

section Rollback

variable {oid : Int} {dbRoot : DBRootsStruct} {P : Nat} {segNums hwms : List Nat} {s t : Map}

/-- The fate of one extent under the rollback. -/
def rolledBack (oid : Int) (dbRoot : DBRootsStruct) (P : Nat) (segNums hwms : List Nat)
    (e : EMEntry) : Option EMEntry :=
  if e.fileID = oid ∧ e.dbRoots = dbRoot ∧ e.status ≠ .outOfService then
    if hwms.length = 0 then none
    else judge (dictVerdict (segToHwmMap segNums hwms (dictBlocks / 1024)) P e) e
  else some e

section Scan

variable (sized : ∀ i e, extentsOf oid t i = some e → e.range.size = dictBlocks / 1024)
include sized

/-- All extents of the store have one size, so the table of marks is computed once. -/
lemma scanAt_table (dbRoot : DBRootsStruct) (P : Nat) (segNums hwms : List Nat) (n : Nat) :
    scanAt (rollbackDictRule oid dbRoot P segNums hwms) (fExtentMap t) [] n = [] ∨
      scanAt (rollbackDictRule oid dbRoot P segNums hwms) (fExtentMap t) [] n =
        segToHwmMap segNums hwms (dictBlocks / 1024) := by
  refine forEach_preserves (fun hk => hk = [] ∨
    hk = segToHwmMap segNums hwms (dictBlocks / 1024)) (Or.inl rfl) fun i hk _ held => ?_
  unfold rollbackDictRule
  split
  · rename_i mine
    have size := sized i _ (extentsOf_eq_some.mpr ⟨live_of_used mine.1, mine.2.1⟩)
    split
    · exact held
    · dsimp only
      split
      · exact Or.inr (by rw [size])
      · exact held
  · exact held

lemma rollbackDictRule_judges (hh : live t i = some e) :
    judge (rollbackDictRule oid dbRoot P segNums hwms (scanAt (rollbackDictRule oid dbRoot P
      segNums hwms) (fExtentMap t) [] i) (fExtentMap t i)).2 e =
      rolledBack oid dbRoot P segNums hwms e := by
  have table := scanAt_table sized dbRoot P segNums hwms i
  generalize scanAt (rollbackDictRule oid dbRoot P segNums hwms) (fExtentMap t) [] i = known
    at table
  obtain ⟨rfl, hu⟩ := live_eq_some.mp hh
  unfold rollbackDictRule rolledBack
  by_cases mine : (fExtentMap t i).fileID = oid ∧ (fExtentMap t i).dbRoots = dbRoot ∧
      (fExtentMap t i).status ≠ .outOfService
  · have size := sized i _ (extentsOf_eq_some.mpr ⟨hh, mine.1⟩)
    rw [if_pos ⟨hu, mine⟩, if_pos mine]
    split
    · rfl
    split
    · rw [size]
    · rename_i hfil
      rcases table with rfl | rfl
      · simp at hfil
      · rfl
  · rw [if_neg fun both => mine both.2, if_neg mine]
    rfl

lemma rollbackDict_live (hv : Valid t) (i : Nat) :
    live (rollbackDictStoreExtentsDBroot oid dbRoot P segNums hwms t) i =
      (live t i).bind (rolledBack oid dbRoot P segNums hwms) := by
  have judged := live_verdictLoop (rollbackDict_loop oid dbRoot P segNums hwms) ([], t)
    (emEntries t) i
  refine judged.trans ?_
  cases hh : live t i with
  | none => simp
  | some e =>
    simp only [if_pos (bound_of_live hv hh), bind_some]
    exact rollbackDictRule_judges sized hh

end Scan

lemma rolledBack_object (left : rolledBack oid dbRoot P segNums hwms e = some e') :
    e'.fileID = e.fileID := by
  unfold rolledBack at left
  split at left
  · split at left
    · simp at left
    · rw [judge_moved left]
  · rw [Option.some.inj left]

lemma rollbackDict_extents
    (sized : ∀ i e, extentsOf oid t i = some e → e.range.size = dictBlocks / 1024)
    (hv : Valid t) (i : Nat) :
    extentsOf oid (rollbackDictStoreExtentsDBroot oid dbRoot P segNums hwms t) i =
      (extentsOf oid t i).bind (rolledBack oid dbRoot P segNums hwms) := by
  rw [extentsOf, extentsOf, rollbackDict_live sized hv]
  cases live t i with
  | none => rfl
  | some e =>
    by_cases object : e.fileID = oid
    · cases left : rolledBack oid dbRoot P segNums hwms e with
      | none => simp [Option.filter, object, left]
      | some e' => simp [Option.filter, object, left, rolledBack_object left]
    · simp [Option.filter, object, rolledBack]

lemma doomed_deleted (mine : e.fileID = oid ∧ e.dbRoots = dbRoot)
    (hser : e.status ≠ .outOfService) (doomed : hwms = [] ∨ P < e.partitionNum) :
    rolledBack oid dbRoot P segNums hwms e = none := by
  rw [rolledBack, if_pos ⟨mine.1, mine.2, hser⟩]
  split
  · rfl
  · rename_i told
    rcases doomed with rfl | hbe
    · simp at told
    · simp [dictVerdict, hbe, judge]

lemma mem_segToHwmMap (length : segNums.length = hwms.length) {size hwm fboLo : Nat} :
    (seg, hwm, fboLo) ∈ segToHwmMap segNums hwms size ↔
      (seg, hwm) ∈ segNums.zip hwms ∧ fboLo = hwm - hwm % u32 (size * 1024) := by
  have zipped : (seg, hwm) ∈ segNums.zip hwms ↔
      ∃ k : Nat, segNums[k]? = some seg ∧ hwms[k]? = some hwm := by
    simp [mem_iff_getElem?, getElem?_zip_eq_some]
  rw [zipped]
  simp only [segToHwmMap, mem_reverse, mem_map, Prod.exists, Prod.mk.injEq,
    List.mem_zipIdx_iff_getElem?]
  constructor
  · rintro ⟨h, k, at_k, rfl, rfl, rfl⟩
    obtain ⟨hl, rfl⟩ := List.getElem?_eq_some_iff.mp at_k
    have : k < segNums.length := length ▸ hl
    exact ⟨⟨k, by simp [this], by simp [hl]⟩, rfl⟩
  · rintro ⟨⟨k, left, right⟩, rfl⟩
    exact ⟨hwm, k, right, by simp [left], rfl, rfl⟩

section Marks

variable (store : DictionaryStore oid dbRoot s) (pairs : OriginalPairs oid dbRoot s P segNums hwms)
include store pairs

/-- The table of marks leads to the last extent of each file of the partition. -/
lemma lookup_mark {hwm fboLo : Nat}
    (hf : lookupKey seg (segToHwmMap segNums hwms (dictBlocks / 1024)) = some (hwm, fboLo)) :
    ∃ l last, LastOf oid dbRoot s l last ∧ last.partitionNum = P ∧ last.segmentNum = seg ∧
      last.hwm = hwm ∧ last.blockOffset = fboLo := by
  have hm := mem_of_lookupKey hf
  obtain ⟨pair, rfl⟩ := (mem_segToHwmMap pairs.length).mp hm
  obtain ⟨l, last, isLast, inP, isSeg, mark⟩ := (pairs.pairs seg hwm).mp pair
  refine ⟨l, last, isLast, inP, isSeg, mark, ?_⟩
  have hal := store.aligned l last isLast.here
  have marked := isLast.marked
  rw [mark] at marked
  rw [show u32 (dictBlocks / 1024 * 1024) = 8192 from rfl]
  simp only [dictBlocks_eq] at hal marked
  omega

omit store in
lemma lookup_missing (absent : lookupKey seg (segToHwmMap segNums hwms (dictBlocks / 1024)) = none)
    (isLast : LastOf oid dbRoot s l last) (inP : last.partitionNum = P) :
    last.segmentNum ≠ seg := by
  intro isSeg
  have pair := (pairs.pairs seg last.hwm).mpr ⟨l, last, isLast, inP, isSeg, rfl⟩
  exact not_mem_of_lookupKey absent _ ((mem_segToHwmMap pairs.length).mpr ⟨pair, rfl⟩)

end Marks

/-- The rollback leaves exactly the extents from before the load, unchanged. -/
def Restores (oid : Int) (dbRoot : DBRootsStruct) (P : Nat) (segNums hwms : List Nat)
    (s t : Map) : Prop :=
  ∀ i, extentsOf oid (rollbackDictStoreExtentsDBroot oid dbRoot P segNums hwms t) i =
    extentsOf oid s i

/-- The rollback is told about at least one file unless the store was empty, and the store
had no extent behind partition `P`. -/
structure Covers (oid : Int) (dbRoot : DBRootsStruct) (P : Nat) (hwms : List Nat) (s : Map) :
    Prop where
  told : hwms = [] → ∀ i e, extentsOf oid s i = some e → e.dbRoots ≠ dbRoot
  last : ∀ i e, extentsOf oid s i = some e → e.dbRoots = dbRoot → e.partitionNum ≤ P

section Verdicts

variable (store : DictionaryStore oid dbRoot s) (pairs : OriginalPairs oid dbRoot s P segNums hwms)
include store pairs

omit store in
lemma no_files (hem : hwms.length = 0) (isLast : LastOf oid dbRoot s l last) :
    last.partitionNum ≠ P := by
  intro inP
  have := (pairs.pairs last.segmentNum last.hwm).mpr ⟨l, last, isLast, inP, rfl, rfl⟩
  simp [length_eq_zero_iff.mp hem] at this

/-- A new extent is deleted if and only if it is recognised. -/
lemma added_deleted_iff (object : e.fileID = oid) (hlat : P ≤ e.partitionNum)
    (hser : e.status ≠ .outOfService) :
    rolledBack oid dbRoot P segNums hwms e = none ↔ Recognised oid dbRoot P s e := by
  unfold rolledBack
  by_cases root : e.dbRoots = dbRoot
  · rw [if_pos ⟨object, root, hser⟩]
    split
    · rename_i hem
      exact iff_of_true rfl ⟨root, fun l last isLast inP _ =>
        absurd inP (no_files pairs hem isLast)⟩
    rw [judge_eq_none]
    unfold dictVerdict
    split
    · rename_i hbe
      refine iff_of_true rfl ⟨root, fun l last isLast inP he => ?_⟩
      have := he.1
      omega
    rename_i hbe
    have inP : e.partitionNum = P := by omega
    rw [if_pos inP]
    cases hf : lookupKey e.segmentNum (segToHwmMap segNums hwms (dictBlocks / 1024)) with
    | none =>
      exact iff_of_true rfl ⟨root, fun l last isLast inP he =>
        absurd he.2.symm (lookup_missing pairs hf isLast inP)⟩
    | some mark =>
      obtain ⟨hwm, fboLo⟩ := mark
      obtain ⟨l, last, isLast, lastP, isSeg, -, rfl⟩ := lookup_mark store pairs hf
      have he : SameSegment e last := ⟨inP.trans lastP.symm, isSeg.symm⟩
      have only : Recognised oid dbRoot P s e ↔ last.blockOffset < e.blockOffset := by
        refine ⟨fun recognised => recognised.2 l last isLast lastP he,
          fun hbe => ⟨root, fun l' last' isLast' _ he' => ?_⟩⟩
        rw [isLast'.unique isLast ⟨he'.1.symm.trans he.1, he'.2.symm.trans he.2⟩]
        exact hbe
      rw [only]
      dsimp only
      split
      · simp only [reduceCtorEq, false_iff]
        omega
      split
      · simp only [reduceCtorEq, false_iff]
        omega
      · simp only [true_iff]
        omega
  · rw [if_neg fun all => root all.2.1]
    simp [Recognised, root]

/-- An extent from before the load comes back as it was. -/
lemma kept_restored (hcov : Covers oid dbRoot P hwms s) (hh : extentsOf oid s i = some e)
    (hmo : Moved e e') (state : e.dbRoots = dbRoot → e'.status = .available)
    (still : Settled oid dbRoot P s e → e' = e) :
    rolledBack oid dbRoot P segNums hwms e' = some e := by
  unfold rolledBack
  by_cases root : e.dbRoots = dbRoot
  · have mine : e'.fileID = oid ∧ e'.dbRoots = dbRoot ∧ e'.status ≠ .outOfService := by
      refine ⟨?_, ?_, by simp [state root]⟩
      · rw [hmo]
        exact (extentsOf_eq_some.mp hh).2
      · rw [hmo]
        exact root
    have told : ¬ hwms.length = 0 := fun hem =>
      hcov.told (length_eq_zero_iff.mp hem) i e hh root
    rw [if_pos mine, if_neg told]
    have hl := hcov.last i e hh root
    have part : e'.partitionNum = e.partitionNum := by rw [hmo]
    have seg : e'.segmentNum = e.segmentNum := by rw [hmo]
    have offset : e'.blockOffset = e.blockOffset := by rw [hmo]
    unfold dictVerdict
    rw [if_neg (by omega)]
    split_ifs with inP
    · rw [seg]
      obtain ⟨l, last, isLast, he⟩ := store.marked i e hh root
      have lastP : last.partitionNum = P := he.1.symm.trans (part.symm.trans inP)
      cases hf : lookupKey e.segmentNum (segToHwmMap segNums hwms (dictBlocks / 1024)) with
      | none => exact absurd he.2.symm (lookup_missing pairs hf isLast lastP)
      | some mark =>
        obtain ⟨hwm, fboLo⟩ := mark
        obtain ⟨l', last', isLast', lastP', isSeg, rfl, rfl⟩ := lookup_mark store pairs hf
        obtain rfl := isLast'.unique isLast ⟨lastP'.trans lastP.symm, isSeg.trans he.2⟩
        dsimp only
        rw [offset]
        by_cases isIt : i = l
        · -- The last extent of its file gets its mark back.
          obtain rfl : e = last' := Option.some.inj ((isIt ▸ hh).symm.trans isLast.here)
          have available := store.available i e hh root
          rw [if_neg (by omega), if_pos rfl]
          exact judge_reset hmo available (state root)
        · have hb := (isLast.before i e hh root he isIt).1
          rw [if_pos hb, still (Or.inr (Or.inr ⟨l, last', isLast, he, hb⟩))]
          rfl
    · rw [still (Or.inr (Or.inl (by omega)))]
      rfl
  · rw [still (Or.inl root), if_neg fun all => root all.2.1]

end Verdicts

/-- Undoing a load through the rollback: the extents of the object are what they were before
the load if and only if the rollback is told about the store and every extent of the load was
placed where the rollback recognises it. -/
theorem restores_iff {cfg : Config} {calls : List DictCall} (reached : Reachable cfg s)
    (store : DictionaryStore oid dbRoot s) (pairs : OriginalPairs oid dbRoot s P segNums hwms)
    (targets : ∀ c ∈ calls, c.Targets oid dbRoot P s)
    (ran : follow cfg oid dbRoot calls s = some t) :
    Restores oid dbRoot P segNums hwms s t ↔
      Covers oid dbRoot P hwms s ∧ AllPlaced cfg oid dbRoot P s calls s := by
  obtain ⟨loaded, clean⟩ :=
    follow_loaded store (loadedFrom_self (reachable_valid reached) store) targets ran
  have start : Clean oid dbRoot P s s := fun i e missing here => by simp [missing] at here
  rw [show AllPlaced cfg oid dbRoot P s calls s ↔ Clean oid dbRoot P s t by rw [clean]; tauto]
  have fate : ∀ i, extentsOf oid (rollbackDictStoreExtentsDBroot oid dbRoot P segNums hwms t) i =
      (extentsOf oid t i).bind (rolledBack oid dbRoot P segNums hwms) :=
    rollbackDict_extents loaded.sized loaded.valid
  constructor
  · intro restores
    have survives : ∀ i e, extentsOf oid s i = some e → e.dbRoots = dbRoot →
        ¬ (hwms = [] ∨ P < e.partitionNum) := by
      intro i e here root doomed
      obtain ⟨e', after, moved, state, -⟩ := loaded.kept i e here
      have gone : rolledBack oid dbRoot P segNums hwms e' = none := by
        refine doomed_deleted ⟨(extentsOf_eq_some.mp after).2, ?_⟩ (by simp [state root]) ?_
        · rw [moved]
          exact root
        · rw [moved]
          exact doomed
      have := restores i
      rw [fate i, after, bind_some, gone, here] at this
      simp at this
    refine ⟨⟨fun empty i e here root => survives i e here root (Or.inl empty), fun i e here root =>
      not_lt.mp fun behind => survives i e here root (Or.inr behind)⟩, fun i e missing here => ?_⟩
    · obtain ⟨later, inService⟩ := loaded.added i e missing here
      refine (added_deleted_iff store pairs (extentsOf_eq_some.mp here).2 later inService).mp ?_
      have := restores i
      rwa [fate i, here, missing] at this
  · rintro ⟨covers, clean⟩ i
    rw [fate i]
    cases before : extentsOf oid s i with
    | none =>
      cases after : extentsOf oid t i with
      | none => rfl
      | some e =>
        obtain ⟨later, inService⟩ := loaded.added i e before after
        exact (added_deleted_iff store pairs (extentsOf_eq_some.mp after).2 later
          inService).mpr (clean i e before after)
    | some e =>
      obtain ⟨e', after, moved, state, still⟩ := loaded.kept i e before
      rw [after]
      exact kept_restored store pairs covers before moved state still

end Rollback

variable {dbRoot : DBRootsStruct}

lemma follow_reachable {cfg : Config} {calls : List DictCall} {t : Map} (hr : Reachable cfg s)
    (ran : follow cfg oid dbRoot calls s = some t) : Reachable cfg t := by
  induction calls generalizing s with
  | nil => exact Option.some.inj ran ▸ hr
  | cons c calls ih =>
    obtain ⟨m, step, rest⟩ := bind_eq_some_iff.mp ran
    refine ih ?_ rest
    unfold DictCall.next at step
    split at step
    · rename_i m' answer
      cases step
      have next := Reachable.step (c.call oid dbRoot) hr (by cases c <;> trivial)
        (by rw [answer]; rfl)
      rwa [answer] at next
    · simp at step

/-- A dictionary store of one extent with five blocks in use. -/
def builtStore (dbRoot : DBRootsStruct) : Option Map :=
  follow LbidSpace.exampleConfig 3001 dbRoot [.create 0 0, .setHWM 0 0 5] fresh

/-- The extent of that store. -/
def storeExtent (dbRoot : DBRootsStruct) : EMEntry :=
  { zeroEntry with
    range := ⟨0, 8⟩, fileID := 3001, dbRoots := dbRoot, hwm := 5
    cprange := ⟨int64Min, int64Max, 0, .invalid⟩ }

/-- There is no other extent. -/
def onlyStore (dbRoot : DBRootsStruct) (s : Map) : Bool :=
  decide (live s 0 = some (storeExtent dbRoot)) &&
    (List.range (emEntries s)).all fun j => (live s j).all fun _ => j == 0

lemma onlyStore_extents (hv : Valid s) (only : onlyStore dbRoot s = true) (j : Nat) :
    extentsOf 3001 s j = if j = 0 then some (storeExtent dbRoot) else none := by
  obtain ⟨start, hall⟩ := Bool.and_eq_true_iff.mp only
  split_ifs with hj
  · rw [hj]
    exact extentsOf_eq_some.mpr ⟨of_decide_eq_true start, rfl⟩
  cases hh : extentsOf 3001 s j with
  | none => rfl
  | some e => exact absurd (by simpa using live_all _ hv hall (extentsOf_eq_some.mp hh).1) hj

lemma onlyStore_store (hv : Valid s) (only : onlyStore dbRoot s = true) :
    (DictionaryStore 3001 dbRoot s ∧ OriginalPairs 3001 dbRoot s 0 [0] [5]) ∧
      (∀ c : DictCall, c.Targets 3001 dbRoot 0 s) ∧
      ∀ j e, extentsOf 3001 s j = some e → j = 0 ∧ e = storeExtent dbRoot := by
  have he : ∀ j e, extentsOf 3001 s j = some e → j = 0 ∧ e = storeExtent dbRoot := by
    intro j e hh
    rw [onlyStore_extents hv only] at hh
    split_ifs at hh with hj
    exact ⟨hj, (Option.some.inj hh).symm⟩
  have last : LastOf 3001 dbRoot s 0 (storeExtent dbRoot) :=
    ⟨onlyStore_extents hv only 0, rfl, fun j e hh _ _ ho => absurd (he j e hh).1 ho,
      show 0 ≤ 5 ∧ 5 < 0 + dictBlocks by decide⟩
  refine ⟨⟨?_, ?_⟩, fun c => ⟨Nat.zero_le _, fun j e hh _ => (he j e hh).2 ▸ rfl⟩, he⟩
  · constructor <;> intro j e hh <;> obtain ⟨-, rfl⟩ := he j e hh
    · rfl
    · exact dvd_zero _
    · exact Nat.two_pow_pos 32
    · exact fun _ => rfl
    · exact fun _ => ⟨0, _, last, rfl, rfl⟩
  · refine ⟨rfl, fun seg hwm => ?_⟩
    simp only [zip_cons_cons, zip_nil_left, mem_singleton, Prod.mk.injEq]
    constructor
    · rintro ⟨rfl, rfl⟩
      exact ⟨0, _, last, rfl, rfl, rfl⟩
    · rintro ⟨l, e, isLast, -, rfl, rfl⟩
      obtain ⟨-, rfl⟩ := he l e isLast.here
      exact ⟨rfl, rfl⟩

def oneReplica : DBRootsStruct := DBRootsStruct.zero.set 0 1
def twoReplicas : DBRootsStruct := oneReplica.set 1 2

/-- With one replica the unused slots hold the right roots and the load is undone. -/
theorem restores_oneReplica : ∃ s t, builtStore oneReplica = some s ∧
    follow LbidSpace.exampleConfig 3001 oneReplica [.create 0 0, .setHWM 0 0 9000] s = some t ∧
    Restores 3001 oneReplica 0 [0] [5] s t := by
  have runs : ((builtStore oneReplica).bind (fun s => (follow LbidSpace.exampleConfig 3001
      oneReplica [.create 0 0, .setHWM 0 0 9000] s).map (fun _ =>
      ((reusedSlot s).dbRoots.set 0 1, onlyStore oneReplica s)))) = some (oneReplica, true) := by
    decide +kernel
  obtain ⟨s, built, rest⟩ := bind_eq_some_iff.mp runs
  obtain ⟨t, ran, shown⟩ := map_eq_some_iff.mp rest
  obtain ⟨roots, only⟩ := Prod.mk.inj shown
  have reached : Reachable LbidSpace.exampleConfig s := follow_reachable .fresh built
  obtain ⟨⟨store, pairs⟩, targets, only⟩ := onlyStore_store (reachable_valid reached) only
  refine ⟨s, t, built, ran, (restores_iff reached store pairs (fun c _ => targets c) ran).mpr
    ⟨⟨by simp, fun j e' here _ => (only j e' here).2 ▸ le_rfl⟩, ?_⟩⟩
  refine ⟨fun last found => ?_, fun t _ => ⟨trivial, fun t' _ => trivial⟩⟩
  obtain ⟨inFile, ⟨j, here⟩, -⟩ := lastInFile_eq_some (reachable_valid reached) found
  obtain ⟨-, rfl⟩ := only j last (extentsOf_eq_some.mpr ⟨here, inFile.1⟩)
  exact ⟨roots, fun _ => by decide⟩

/-- With two replicas an extent appended to the file is left behind by the rollback. -/
theorem appended_extent_left : ∃ s t, Reachable LbidSpace.exampleConfig s ∧
    DictionaryStore 3001 twoReplicas s ∧ OriginalPairs 3001 twoReplicas s 0 [0] [5] ∧
    (DictCall.create 0 0).Targets 3001 twoReplicas 0 s ∧
    follow LbidSpace.exampleConfig 3001 twoReplicas [.create 0 0] s = some t ∧
    ¬ Restores 3001 twoReplicas 0 [0] [5] s t := by
  have runs : ((builtStore twoReplicas).bind (fun s => (follow LbidSpace.exampleConfig 3001
      twoReplicas [.create 0 0] s).map (fun t =>
      ((extentsOf 3001 t 1).map EMEntry.dbRoots, onlyStore twoReplicas s)))) =
      some (some oneReplica, true) := by decide +kernel
  obtain ⟨s, built, rest⟩ := bind_eq_some_iff.mp runs
  obtain ⟨t, ran, shown⟩ := map_eq_some_iff.mp rest
  obtain ⟨after, only⟩ := Prod.mk.inj shown
  obtain ⟨e, here, root⟩ := map_eq_some_iff.mp after
  have reached : Reachable LbidSpace.exampleConfig s := follow_reachable .fresh built
  have extents := onlyStore_extents (reachable_valid reached) only
  obtain ⟨⟨store, pairs⟩, targets, -⟩ := onlyStore_store (reachable_valid reached) only
  have loaded := (follow_loaded store (loadedFrom_self (reachable_valid reached) store)
    (fun c _ => targets c) ran).1
  refine ⟨s, t, reached, store, pairs, targets _, ran, fun restores => ?_⟩
  have left := restores 1
  have other : e.dbRoots ≠ twoReplicas := root ▸ by decide
  rw [rollbackDict_extents loaded.sized loaded.valid, extents, here, bind_some, rolledBack,
    if_neg fun mine => other mine.2.1] at left
  simp at left

end DictRollback
