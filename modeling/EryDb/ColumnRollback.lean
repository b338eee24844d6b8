import EryDb.LayeredColumn
import EryDb.ExtentLayout

/-!
# Rolling back a column load

`rollbackColumnExtentsDBroot` is given the partition, segment and high water mark of
the last extent before a load and judges each extent of the column by its place
alone. It undoes the load because creations put extents strictly behind the last one
and marks that move forward stay in the extents the rollback resets; both rest on
partition numbers, segment numbers and block offsets that do not wrap.
-/

namespace ColumnRollback

open Option
open ImageUndo SlotScan BrmTypes ExtentMap ExtentCreation ExtentUpdates ExtentCalls LbidTiling
  LbidSpace ExtentUndo LiveExtents ColumnPlacement ExtentLayout LayeredColumn

/-- The extents of the column on the DBRoots. -/
def owned (oid : Int) (dbRoot : DBRootsStruct) (s : Map) (i : Nat) : Option EMEntry :=
  (live s i).filter (fun e => decide (Own oid dbRoot e))

variable {oid : Int} {dbRoot : DBRootsStruct} {s t : Map} {i j l : Nat} {e last : EMEntry}
  {colWidth : Nat}

lemma owned_eq_some : owned oid dbRoot s i = some e ↔ live s i = some e ∧ Own oid dbRoot e := by
  simp [owned, filter_eq_some_iff]

lemma owned_eq_none :
    owned oid dbRoot s i = none ↔ ∀ e, live s i = some e → ¬ Own oid dbRoot e := by
  simp [owned, filter_eq_none_iff]

lemma lastOwn_iff : LastOwn (live s) oid dbRoot l last ↔ IsLast (owned oid dbRoot s) l last := by
  constructor
  · rintro ⟨hh, own, hmax⟩
    refine ⟨owned_eq_some.mpr ⟨hh, own⟩, fun j e ht => ?_⟩
    obtain ⟨ht, own'⟩ := owned_eq_some.mp ht
    exact hmax j e ht own'
  · rintro ⟨hh, hmax⟩
    obtain ⟨hh, own⟩ := owned_eq_some.mp hh
    exact ⟨hh, own, fun j e ht own' => hmax j e (owned_eq_some.mpr ⟨ht, own'⟩)⟩

/-- A segment file with an extent of the column on the DBRoots holds no others. -/
def Alone (oid : Int) (dbRoot : DBRootsStruct) (s : Map) : Prop :=
  ∀ i j e e', owned oid dbRoot s i = some e → live s j = some e' → SameFile e e' →
    owned oid dbRoot s j = some e'

/-- What holds of the column in every state, besides the order of its extents. -/
structure Sound (oid : Int) (colWidth : Nat) (dbRoot : DBRootsStruct) (s : Map) : Prop where
  valid : Valid s
  width : colWidth ∈ columnWidths
  sized : ∀ i e, owned oid dbRoot s i = some e → e.range.size = extentSize colWidth / 1024
  bounded : ∀ i e, owned oid dbRoot s i = some e → e.blockOffset + extentBlocks colWidth ≤ 2 ^ 32
  alone : Alone oid dbRoot s

lemma extentBlocks_positive (width : colWidth ∈ columnWidths) : 0 < extentBlocks colWidth := by
  have := extentSize_positive width
  simp only [extentBlocks]
  omega

/-- Neither partition nor segment nor block offset of the next extent wraps. -/
structure NoWrap (oid : Int) (colWidth : Nat) (dbRoot : DBRootsStruct) (s : Map)
    (partitionNum : Nat) : Prop where
  first : (∀ i, owned oid dbRoot s i = none) → ∀ i e, live s i = some e → e.fileID = oid →
    e.partitionNum = partitionNum → e.segmentNum < 65535
  next : ∀ l last, IsLast (owned oid dbRoot s) l last →
    last.partitionNum + 1 < 2 ^ 32 ∧ last.blockOffset + extentBlocks colWidth < 2 ^ 32 ∧
      ∀ i e, live s i = some e → e.fileID = oid →
        e.partitionNum = last.partitionNum ∨ e.partitionNum = last.partitionNum + 1 →
        e.segmentNum < 65535

section Creation

variable {partitionNum : Nat} {new : EMEntry}

/-- The place chosen for a new extent, among the extents of the column. -/
lemma appends_of_place (sound : Sound oid colWidth dbRoot s)
    (hnw : NoWrap oid colWidth dbRoot s partitionNum) {place : Nat × Nat × Nat}
    (hpl : PlaceFor (live s) oid dbRoot partitionNum place) (inPart : new.partitionNum = place.1)
    (isSeg : new.segmentNum = place.2.1) (isOffset : new.blockOffset = place.2.2) :
    Appends (extentBlocks colWidth) (owned oid dbRoot s) new := by
  cases hpl with
  | first none highest same =>
    subst same
    exact .first (fun i => owned_eq_none.mpr (none i)) isOffset
  | @behind l last scan isLast files next =>
    have isLast' := lastOwn_iff.mp isLast
    obtain ⟨partition, room, small⟩ := hnw.next l last isLast'
    have file : ∀ seg, seg ∈ scan.segs.map Prod.fst ↔
        HasFile (owned oid dbRoot s) last.partitionNum seg := fun seg => by
      simp only [files.files seg, HasFile, owned_eq_some, and_assoc]
    have sized := sound.sized l last isLast'.here
    cases next with
    | partition =>
      refine .partition isLast' ?_ isOffset
      rw [inPart]
      simp only [u32]
      omega
    | @file seg member after nearest =>
      subst isSeg
      exact .file isLast' inPart ((file _).mp member) after
        (fun k isFile => nearest k ((file k).mpr isFile)) isOffset
    | @stripe seg full member first =>
      subst isSeg
      refine .stripe isLast' inPart ((file _).mp member)
        (fun k isFile => full k ((file k).mpr isFile))
        (fun k isFile => first k ((file k).mpr isFile)) ?_
      rw [isOffset, sized, Nat.add_comm]
      exact Nat.mod_eq_of_lt room
    | newFile flat =>
      have hnw : scan.partHighSeg + 1 < 65536 := by
        obtain ⟨k, e, here, object, inPart', same⟩ := files.this.reached _ rfl
        have := small k e here object (Or.inl inPart')
        omega
      refine .newFile isLast' inPart ?_ (fun i e here inPart' => ?_) isOffset
      · rintro seg ⟨i, e, here, inPart', rfl⟩
        obtain ⟨here, own⟩ := owned_eq_some.mp here
        have := files.this.above _ rfl i e here own.1 inPart'
        rw [isSeg]
        simp only [u16]
        omega
      · obtain ⟨here, own⟩ := owned_eq_some.mp here
        obtain ⟨high, member, below⟩ := files.covered i e here own inPart'
        have := flat _ member
        omega

/-- A new extent goes into a file of its own or one of the column on the DBRoots. -/
lemma alone_of_place (sound : Sound oid colWidth dbRoot s)
    (hnw : NoWrap oid colWidth dbRoot s partitionNum) {place : Nat × Nat × Nat}
    (hpl : PlaceFor (live s) oid dbRoot partitionNum place) (object : new.fileID = oid)
    (inPart : new.partitionNum = place.1) (isSeg : new.segmentNum = place.2.1)
    (here : live s j = some e) (same : SameFile new e) : owned oid dbRoot s j = some e := by
  cases hpl with
  | first none highest isPlace =>
    subst isPlace
    exact absurd same.symm (vacant_of_highSegment highest
      (hnw.first fun i => owned_eq_none.mpr (none i)) object inPart isSeg j e here)
  | @behind l last scan isLast files next =>
    obtain ⟨partition, -, small⟩ := hnw.next l last (lastOwn_iff.mp isLast)
    have known : ∀ seg, new.partitionNum = last.partitionNum → new.segmentNum = seg →
        seg ∈ scan.segs.map Prod.fst → owned oid dbRoot s j = some e := by
      intro seg inLast isSeg member
      obtain ⟨k, e₀, there, own, inPart₀, isSeg₀⟩ := (files.files seg).mp member
      refine sound.alone k j e₀ e (owned_eq_some.mpr ⟨there, own⟩) here ?_
      exact ⟨own.1.trans (object.symm.trans same.1),
        inPart₀.trans (inLast.symm.trans same.2.1), isSeg₀.trans (isSeg.symm.trans same.2.2)⟩
    cases next with
    | partition =>
      have hnw : u32 (last.partitionNum + 1) = last.partitionNum + 1 :=
        Nat.mod_eq_of_lt partition
      refine absurd same.symm (vacant_of_highSegment files.next
        (fun i e here object inPart => ?_) object inPart isSeg j e here)
      exact small i e here object (Or.inr (hnw ▸ inPart))
    | @file seg member | @stripe seg full member => exact known seg inPart isSeg member
    | newFile flat =>
      exact absurd same.symm (vacant_of_highSegment files.this
        (fun i e here object inPart => small i e here object (Or.inl inPart)) object inPart
        isSeg j e here)

lemma bounded_of_appends (hs : Sound oid colWidth dbRoot s)
    (hal : ∀ i e, owned oid dbRoot s i = some e → extentBlocks colWidth ∣ e.blockOffset)
    (hnw : NoWrap oid colWidth dbRoot s partitionNum)
    (happ : Appends (extentBlocks colWidth) (owned oid dbRoot s) new) :
    new.blockOffset + extentBlocks colWidth ≤ 2 ^ 32 := by
  cases happ with
  | first _ zero | partition _ _ zero | newFile _ _ _ _ zero =>
    rw [zero, Nat.zero_add]
    exact extentBlocks_le hs.width
  | @file l last later hpt hk ha nearest he =>
    rw [he]
    exact hs.bounded l last later.here
  | @stripe l last later hpt hk full lowest next =>
    rw [next]
    exact (extentBlocks_behind hs.width (hal l last later.here) (hnw.next l last later).2.1).2.2

/-- The extent a creation adds to the column. -/
structure Creates (oid : Int) (colWidth : Nat) (dbRoot : DBRootsStruct) (s t : Map) (i : Nat)
    (new : EMEntry) (place : Nat × Nat × Nat) : Prop where
  adds : Adds (owned oid dbRoot s) i new (owned oid dbRoot t)
  lives : ∀ j, live t j = if j = i then some new else live s j
  object : new.fileID = oid
  sized : new.range.size = extentSize colWidth / 1024
  status : new.status = .unavailable
  hwm : new.hwm = 0
  inPart : new.partitionNum = place.1
  isSeg : new.segmentNum = place.2.1
  isOffset : new.blockOffset = place.2.2

lemma create_creates {cfg : Config} {colDataType : ColDataType} {answer : CreatedExtent}
    (hv : Valid s) (width : colWidth ∈ columnWidths)
    (hok : createColumnExtentDBroot cfg oid colWidth dbRoot colDataType partitionNum s =
      (.ok answer, t)) :
    Valid t ∧ ∃ i new place, Creates oid colWidth dbRoot s t i new place ∧
      PlaceFor (live s) oid dbRoot partitionNum place := by
  constructor
  · have kept : Valid
        (createColumnExtentDBroot cfg oid colWidth dbRoot colDataType partitionNum s).2 :=
      createColumnExtentDBroot_valid hv width
    rwa [hok] at kept
  obtain ⟨i, range, place, hun, size, hpl, lives⟩ := createColumnExtentDBroot_ok hv width hok
  refine ⟨i, _, place, ⟨⟨owned_eq_none.mpr (by simp [hun]), fun j => ?_⟩, lives, rfl, size,
    rfl, rfl, rfl, rfl, rfl⟩, hpl⟩
  have own : Own oid dbRoot (columnEntry range oid colWidth dbRoot colDataType place.1 place.2.1
    place.2.2) := ⟨rfl, rfl⟩
  simp only [owned, lives j]
  split
  · simp [own]
  · rfl

/-- A creation that does not wrap appends an extent to the column. -/
lemma create_appends {cfg : Config} {colDataType : ColDataType} {answer : CreatedExtent}
    (hs : Sound oid colWidth dbRoot s)
    (hal : ∀ i e, owned oid dbRoot s i = some e → extentBlocks colWidth ∣ e.blockOffset)
    (hnw : NoWrap oid colWidth dbRoot s partitionNum)
    (hok : createColumnExtentDBroot cfg oid colWidth dbRoot colDataType partitionNum s =
      (.ok answer, t)) :
    ∃ i new, Adds (owned oid dbRoot s) i new (owned oid dbRoot t) ∧
      Appends (extentBlocks colWidth) (owned oid dbRoot s) new ∧ new.status = .unavailable ∧
      new.hwm = 0 ∧ Sound oid colWidth dbRoot t := by
  obtain ⟨hv, i, new, place, hcr, hpl⟩ := create_creates hs.valid hs.width hok
  have adds := hcr.adds
  have happ : Appends (extentBlocks colWidth) (owned oid dbRoot s) new :=
    appends_of_place hs hnw hpl hcr.inPart hcr.isSeg hcr.isOffset
  refine ⟨i, new, adds, happ, hcr.status, hcr.hwm, hv, hs.width,
    fun j e ht => ?_, fun j e ht => ?_, fun j k e e' ht hh he => ?_⟩
  · rcases adds.split ht with ⟨-, rfl⟩ | hb
    · exact hcr.sized
    · exact hs.sized j e hb
  · rcases adds.split ht with ⟨-, rfl⟩ | hb
    · exact bounded_of_appends hs hal hnw happ
    · exact hs.bounded j e hb
  rw [hcr.lives k] at hh
  split_ifs at hh with isSlot
  · rw [isSlot, ← Option.some.inj hh]
    exact adds.here
  refine adds.old ?_
  rcases adds.split ht with ⟨-, rfl⟩ | hb
  · exact alone_of_place hs hnw hpl hcr.object hcr.inPart hcr.isSeg hh he
  · exact hs.alone j k e e' hb hh he

end Creation

section HighWaterMark

variable {object : Int} {partitionNum segmentNum newHWM : Nat}

/-- A mark set in a file of the column. -/
lemma setLocalHWM_sets (hs : Sound oid colWidth dbRoot s)
    (hok : setLocalHWM oid partitionNum segmentNum newHWM s = (.ok (), t))
    (ht : owned oid dbRoot s i = some e) (inFile : InFile oid partitionNum segmentNum e) :
    ∃ f top, Sets (owned oid dbRoot s) f top newHWM (owned oid dbRoot t) ∧
      InFile oid partitionNum segmentNum top ∧
      newHWM < top.blockOffset + extentBlocks colWidth := by
  have mine : ∀ j e', live s j = some e' → InFile oid partitionNum segmentNum e' →
      owned oid dbRoot s j = some e' := fun j e' hh inFile' =>
    hs.alone i j e e' ht hh ((sameFile_iff_inFile inFile').mpr inFile)
  obtain ⟨f, top, old, hh, isTop, hmax, room, hd, lives⟩ :=
    setLocalHWM_ok hs.valid hok
  have owns := mine f top hh isTop
  have hw : ∀ e', Own oid dbRoot e' → Beside e' top →
      InFile oid partitionNum segmentNum e' := fun e' own hbs =>
    ⟨own.1, hbs.1.trans isTop.2.1, hbs.2.trans isTop.2.2⟩
  refine ⟨f, top, ⟨owns, fun j e' ht' hbs => ?_, old, fun k isOld => ?_,
    fun none k e' ht' hbs => ?_, fun j => ?_⟩, isTop, ?_⟩
  · obtain ⟨hh', own⟩ := owned_eq_some.mp ht'
    exact hmax j e' hh' (hw e' own hbs)
  · obtain ⟨-, hu, inFile', mark⟩ := hd.found k isOld
    exact ⟨_, mine k _ (live_of_used hu) inFile',
      ⟨inFile'.2.1.trans isTop.2.1.symm, inFile'.2.2.trans isTop.2.2.symm⟩, mark⟩
  · obtain ⟨hh', own⟩ := owned_eq_some.mp ht'
    have bound := bound_of_live hs.valid hh'
    have unmarked := hd.absent none k bound
    obtain ⟨rfl, hu⟩ := live_eq_some.mp hh'
    by_contra mark
    exact unmarked ⟨hu, hw _ own hbs, mark⟩
  · have own := (owned_eq_some.mp owns).2
    simp only [owned, lives j]
    split
    · have own' : Own oid dbRoot { top with hwm := newHWM, status := .available } := own
      simp [own']
    split
    · cases live s j with
      | none => rfl
      | some e' =>
        have he : Own oid dbRoot { e' with hwm := 0 } ↔ Own oid dbRoot e' := Iff.rfl
        by_cases own' : Own oid dbRoot e' <;> simp [Option.filter, he, own']
    · rfl
  · have size := hs.sized f top owns
    have hl : u32 (top.blockOffset + u32 (top.range.size * 1024)) ≤
        top.blockOffset + extentBlocks colWidth := by
      rw [size]
      exact (Nat.mod_le _ _).trans (Nat.add_le_add_left (Nat.mod_le _ _) _)
    omega

/-- A mark set elsewhere. -/
lemma setLocalHWM_elsewhere (hv : Valid s)
    (hok : setLocalHWM object partitionNum segmentNum newHWM s = (.ok (), t))
    (hout : ∀ i e, owned oid dbRoot s i = some e → ¬ InFile object partitionNum segmentNum e)
    (i : Nat) : owned oid dbRoot t i = owned oid dbRoot s i := by
  obtain ⟨hab, moves⟩ := setLocalHWM_moves hv hok i
  cases hb : live s i with
  | none => simp [owned, hb, hab hb]
  | some e =>
    obtain ⟨e', ha, hmo, -, he | ⟨inFile, -⟩⟩ := moves e hb
    · simp [owned, hb, ha, he]
    · have ho : ¬ Own oid dbRoot e := fun own =>
        hout i e (owned_eq_some.mpr ⟨hb, own⟩) inFile
      have ho' : ¬ Own oid dbRoot e' := by rwa [hmo]
      simp [owned, hb, ha, ho, ho', Option.filter]

lemma setLocalHWM_owned_back (hv : Valid s)
    (hok : setLocalHWM object partitionNum segmentNum newHWM s = (.ok (), t)) {e' : EMEntry}
    (ht : owned oid dbRoot t j = some e') : ∃ e, owned oid dbRoot s j = some e ∧ Moved e e' := by
  obtain ⟨ha, own⟩ := owned_eq_some.mp ht
  obtain ⟨e, hb, hmo, -⟩ := setLocalHWM_back hv hok ha
  rw [hmo] at own
  exact ⟨e, owned_eq_some.mpr ⟨hb, own⟩, hmo⟩

lemma Sound.setHWM (hs : Sound oid colWidth dbRoot s)
    (hok : setLocalHWM object partitionNum segmentNum newHWM s = (.ok (), t)) :
    Sound oid colWidth dbRoot t := by
  refine ⟨setLocalHWM_valid hs.valid hok, hs.width, fun j e' ht => ?_,
    fun j e' ht => ?_, fun j k e₁ e₂ ht hh he => ?_⟩
  · obtain ⟨e, hb, hmo⟩ := setLocalHWM_owned_back hs.valid hok ht
    rw [hmo]
    exact hs.sized j e hb
  · obtain ⟨e, hb, hmo⟩ := setLocalHWM_owned_back hs.valid hok ht
    rw [hmo]
    exact hs.bounded j e hb
  obtain ⟨e, hb, hmo⟩ := setLocalHWM_owned_back hs.valid hok ht
  obtain ⟨e', hb', hmo', -⟩ := setLocalHWM_back hs.valid hok hh
  rw [hmo, hmo'] at he
  have own := (owned_eq_some.mp (hs.alone j k e e' hb hb' he)).2
  exact owned_eq_some.mpr ⟨hh, by rw [hmo']; exact own⟩

end HighWaterMark

section Runs

variable {cfg : Config} {condition : Map → Nat → Prop}

/-- The columns built extent by extent: each is filled before the next is created. Other calls
may come in between if they neither touch the extents nor put extents into their files. -/
inductive Built (cfg : Config) (oid : Int) (colWidth : Nat) (dbRoot : DBRootsStruct)
    (condition : Map → Nat → Prop) : Map → Prop where
  | start {s : Map} (reached : Reachable cfg s) (none : ∀ i, owned oid dbRoot s i = none) :
      Built cfg oid colWidth dbRoot condition s
  | create {s t : Map} {colDataType : ColDataType} {partitionNum : Nat} {answer : CreatedExtent}
      (built : Built cfg oid colWidth dbRoot condition s)
      (filled : Filled (extentBlocks colWidth) (owned oid dbRoot s))
      (fits : condition s partitionNum)
      (success : createColumnExtentDBroot cfg oid colWidth dbRoot colDataType partitionNum s =
        (.ok answer, t)) : Built cfg oid colWidth dbRoot condition t.confirmChanges
  | setHWM {s t : Map} {l : Nat} {last : EMEntry} {newHWM : Nat}
      (built : Built cfg oid colWidth dbRoot condition s)
      (isLast : IsLast (owned oid dbRoot s) l last)
      (inside : last.blockOffset ≤ newHWM ∧ newHWM < last.blockOffset + extentBlocks colWidth)
      (success : setLocalHWM oid last.partitionNum last.segmentNum newHWM s = (.ok (), t)) :
      Built cfg oid colWidth dbRoot condition t.confirmChanges
  | other {s : Map} (c : Call) (built : Built cfg oid colWidth dbRoot condition s)
      (widths : c.widthsValid)
      (same : ∀ i, owned oid dbRoot (c.run cfg s).2 i = owned oid dbRoot s i)
      (alone : Alone oid dbRoot (c.run cfg s).2) :
      Built cfg oid colWidth dbRoot condition (c.run cfg s).2.confirmChanges

/-- What a load can make of a column: extents are created and marks move forward. -/
inductive LoadedFrom (cfg : Config) (oid : Int) (colWidth : Nat) (dbRoot : DBRootsStruct)
    (condition : Map → Nat → Prop) (start : Map) : Map → Prop where
  | start : LoadedFrom cfg oid colWidth dbRoot condition start start
  | create {s t : Map} {colDataType : ColDataType} {partitionNum : Nat} {answer : CreatedExtent}
      (loaded : LoadedFrom cfg oid colWidth dbRoot condition start s)
      (fits : condition s partitionNum)
      (success : createColumnExtentDBroot cfg oid colWidth dbRoot colDataType partitionNum s =
        (.ok answer, t)) : LoadedFrom cfg oid colWidth dbRoot condition start t.confirmChanges
  | setHWM {s t : Map} {object : Int} {partitionNum segmentNum newHWM : Nat}
      (loaded : LoadedFrom cfg oid colWidth dbRoot condition start s)
      (forward : ∀ i e, live s i = some e → InFile object partitionNum segmentNum e →
        e.hwm ≤ newHWM)
      (success : setLocalHWM object partitionNum segmentNum newHWM s = (.ok (), t)) :
      LoadedFrom cfg oid colWidth dbRoot condition start t.confirmChanges
  | other {s : Map} (c : Call) (loaded : LoadedFrom cfg oid colWidth dbRoot condition start s)
      (widths : c.widthsValid)
      (same : ∀ i, owned oid dbRoot (c.run cfg s).2 i = owned oid dbRoot s i)
      (alone : Alone oid dbRoot (c.run cfg s).2) :
      LoadedFrom cfg oid colWidth dbRoot condition start (c.run cfg s).2.confirmChanges

variable (hs : Sound oid colWidth dbRoot s)
include hs

lemma Sound.confirmChanges : Sound oid colWidth dbRoot s.confirmChanges :=
  ⟨confirmChanges_valid hs.valid, hs.width, hs.sized, hs.bounded, hs.alone⟩

lemma Sound.other {c : Call} (widths : c.widthsValid)
    (he : ∀ i, owned oid dbRoot (c.run cfg s).2 i = owned oid dbRoot s i)
    (hal : Alone oid dbRoot (c.run cfg s).2) : Sound oid colWidth dbRoot (c.run cfg s).2 := by
  refine ⟨run_valid c hs.valid widths, hs.width, fun i e ht => ?_, fun i e ht => ?_, hal⟩
  · exact hs.sized i e (he i ▸ ht)
  · exact hs.bounded i e (he i ▸ ht)

omit hs in
lemma built_layered (width : colWidth ∈ columnWidths)
    (built : Built cfg oid colWidth dbRoot (NoWrap oid colWidth dbRoot) s) :
    Sound oid colWidth dbRoot s ∧ Layered (extentBlocks colWidth) (owned oid dbRoot s) ∧
      Marked (extentBlocks colWidth) (owned oid dbRoot s) := by
  have hp := extentBlocks_positive width
  induction built with
  | start hr none =>
    refine ⟨⟨reachable_valid hr, width, ?_, ?_, ?_⟩, Layered.empty none, Marked.empty none⟩
    · simp [none]
    · simp [none]
    · intro i j e e' ht
      simp [none] at ht
  | create built hfil fits hok ih =>
    obtain ⟨hs, hlay, isMarked⟩ := ih
    obtain ⟨i, new, adds, happ, status, hwm, hs'⟩ := create_appends hs hlay.aligned fits hok
    exact ⟨hs'.confirmChanges, hlay.append happ adds hp,
      isMarked.append hfil happ adds hp status hwm⟩
  | @setHWM s t l last newHWM built later hi hok ih =>
    obtain ⟨hs, hlay, isMarked⟩ := ih
    have own := (owned_eq_some.mp later.here).2
    obtain ⟨f, top, sets, inFile, -⟩ :=
      setLocalHWM_sets hs hok later.here ⟨own.1, rfl, rfl⟩
    -- The last extent of the file is the last of the column.
    have he : f = l := by
      by_contra other
      have hbs : Beside last top := ⟨inFile.2.1.symm, inFile.2.2.symm⟩
      exact hlay.offset_ne sets.here later.here other hbs.symm
        (le_antisymm (later.offset_le sets.here inFile.2.1) (sets.largest l last later.here hbs))
    subst he
    cases sets.here.symm.trans later.here
    exact ⟨(hs.setHWM hok).confirmChanges, hlay.shift sets.shifts, isMarked.set hlay later sets hi⟩
  | other c built widths he hal ih =>
    obtain ⟨hs, hlay, isMarked⟩ := ih
    refine ⟨(hs.other widths he hal).confirmChanges, ?_⟩
    simp only [show owned oid dbRoot (c.run cfg _).2.confirmChanges = owned oid dbRoot _ from
      funext he]
    exact ⟨hlay, isMarked⟩

lemma loadedFrom_loaded (hcm : Complete (extentBlocks colWidth) (owned oid dbRoot s) l last)
    (loads : LoadedFrom cfg oid colWidth dbRoot (NoWrap oid colWidth dbRoot) s t) :
    Sound oid colWidth dbRoot t ∧
      Loaded (extentBlocks colWidth) (owned oid dbRoot s) last (owned oid dbRoot t) := by
  have hp := extentBlocks_positive hs.width
  induction loads with
  | start => exact ⟨hs, hcm.loaded⟩
  | create loads fits hok ih =>
    obtain ⟨hs', loaded⟩ := ih
    obtain ⟨i, new, adds, happ, status, -, hs''⟩ := create_appends hs' loaded.aligned fits hok
    exact ⟨hs''.confirmChanges, loaded.append hcm.isLast.here happ adds hp (by simp [status])⟩
  | @setHWM m r object partitionNum segmentNum newHWM loads forward hok ih =>
    obtain ⟨hs', loaded⟩ := ih
    refine ⟨(hs'.setHWM hok).confirmChanges, ?_⟩
    by_cases mine : ∃ i e, owned oid dbRoot m i = some e ∧ InFile object partitionNum segmentNum e
    · obtain ⟨i, e, ht, inFile⟩ := mine
      obtain rfl : oid = object := (owned_eq_some.mp ht).2.1.symm.trans inFile.1
      obtain ⟨f, top, sets, isTop, room⟩ := setLocalHWM_sets hs' hok ht inFile
      refine loaded.set hcm sets hp (fun j e' ht' hbs => ?_) room
      obtain ⟨hh, own⟩ := owned_eq_some.mp ht'
      exact forward j e' hh ⟨own.1, hbs.1.trans isTop.2.1, hbs.2.trans isTop.2.2⟩
    · have he : owned oid dbRoot r = owned oid dbRoot m :=
        funext (setLocalHWM_elsewhere hs'.valid hok fun i e ht inFile => mine ⟨i, e, ht, inFile⟩)
      rw [← he] at loaded
      exact loaded
  | other c loads widths he hal ih =>
    obtain ⟨hs', loaded⟩ := ih
    refine ⟨(hs'.other widths he hal).confirmChanges, ?_⟩
    rw [show owned oid dbRoot (c.run cfg _).2.confirmChanges = owned oid dbRoot _ from
      funext he]
    exact loaded

end Runs

section Rollback

variable {partitionNum segmentNum hwm : Nat}

variable (partitionNum segmentNum) in
/-- The stripe is computed from the first extent met, and all extents give the same one. -/
lemma scanAt_stripe (sized : ∀ i e, owned oid dbRoot t i = some e →
      e.range.size = extentSize colWidth / 1024) {st : Stripe}
    (isStripe : stripeOf noStripe hwm (extentSize colWidth / 1024) = st) (hk : st.fboHi ≠ 0)
    (n : Nat) :
    scanAt (rollbackColumnRule oid false dbRoot partitionNum segmentNum hwm) (fExtentMap t)
      noStripe n ∈ [noStripe, st] := by
  refine forEach_preserves (· ∈ [noStripe, st]) (by simp) fun i seen _ held => ?_
  simp only [rollbackColumnRule]
  split
  · rename_i judged
    have size := sized i _ (owned_eq_some.mpr ⟨live_of_used judged.1, judged.2.1, judged.2.2.1⟩)
    rcases List.mem_pair.mp held with rfl | rfl
    · simp [size, isStripe]
    · simp [stripeOf, hk]
  · exact held

/-- The rollback judges each extent of the column by its place. -/
lemma owned_rollback (hv : Valid t)
    (sized : ∀ i e, owned oid dbRoot t i = some e → e.range.size = extentSize colWidth / 1024)
    (hser : ∀ i e, owned oid dbRoot t i = some e → e.status ≠ .outOfService) {st : Stripe}
    (isStripe : stripeOf noStripe hwm (extentSize colWidth / 1024) = st) (hk : st.fboHi ≠ 0)
    (i : Nat) :
    owned oid dbRoot
      (rollbackColumnExtentsDBroot oid false dbRoot partitionNum segmentNum hwm t) i =
      (owned oid dbRoot t i).bind
        (fun e => judge (columnVerdict st partitionNum segmentNum hwm e) e) := by
  have lives := live_verdictLoop (rollbackColumn_loop oid false dbRoot partitionNum segmentNum hwm)
    (noStripe, t) (emEntries t) i
  have stripe := scanAt_stripe partitionNum segmentNum sized isStripe hk i
  simp only [owned, rollbackColumnExtentsDBroot, lives]
  generalize scanAt (rollbackColumnRule oid false dbRoot partitionNum segmentNum hwm)
    (fExtentMap t) noStripe i = seen at stripe
  cases hh : live t i with
  | none => simp
  | some e =>
    have hi := bound_of_live hv hh
    obtain ⟨he, hu⟩ := live_eq_some.mp hh
    rw [if_pos hi, he]
    by_cases own : Own oid dbRoot e
    · have ht := owned_eq_some.mpr ⟨hh, own⟩
      have size := sized i e ht
      have judged : e.range.size ≠ 0 ∧ e.fileID = oid ∧ e.dbRoots = dbRoot ∧
          e.status ≠ .outOfService := ⟨hu, own.1, own.2, hser i e ht⟩
      have verdict : (rollbackColumnRule oid false dbRoot partitionNum segmentNum hwm seen e).2 =
          columnVerdict st partitionNum segmentNum hwm e := by
        have known : stripeOf seen hwm e.range.size = st := by
          rcases List.mem_pair.mp stripe with rfl | rfl
          · rw [size, isStripe]
          · simp [stripeOf, hk]
        simp only [rollbackColumnRule, if_pos judged, known]
        simp
      rw [verdict, bind_some, filter_some, if_pos (decide_eq_true own), bind_some]
      cases left : judge (columnVerdict st partitionNum segmentNum hwm e) e with
      | none => rfl
      | some e' =>
        have own' : Own oid dbRoot e' := by rwa [judge_moved left]
        simp [own']
    · have hspa : (rollbackColumnRule oid false dbRoot partitionNum segmentNum hwm seen e).2 =
          .keep := by
        have not : ¬ (e.range.size ≠ 0 ∧ e.fileID = oid ∧ e.dbRoots = dbRoot ∧
            e.status ≠ .outOfService) := fun judged => own ⟨judged.2.1, judged.2.2.1⟩
        simp only [rollbackColumnRule, if_neg not]
      rw [hspa, bind_some, judge, filter_some, if_neg (by simpa using own)]
      rfl

/-- The stripe of the mark of the last extent is that of the extent. -/
lemma stripeOf_last (width : colWidth ∈ columnWidths)
    (hal : extentBlocks colWidth ∣ last.blockOffset)
    (hbo : last.blockOffset + extentBlocks colWidth ≤ 2 ^ 32)
    (hi : last.blockOffset ≤ last.hwm ∧ last.hwm < last.blockOffset + extentBlocks colWidth) :
    stripeOf noStripe last.hwm (extentSize colWidth / 1024) =
      stripeAt (extentBlocks colWidth) last := by
  have range : u32 (extentSize colWidth / 1024 * 1024) = extentBlocks colWidth := by
    simp only [columnWidths, List.mem_cons, List.not_mem_nil, or_false] at width
    rcases width with rfl | rfl | rfl | rfl <;> decide
  have low : last.hwm - last.hwm % extentBlocks colWidth = last.blockOffset := by
    obtain ⟨k, he⟩ := hal
    have rest : last.hwm % extentBlocks colWidth = last.hwm - last.blockOffset := by
      have split : last.hwm = last.hwm - last.blockOffset + extentBlocks colWidth * k := by omega
      rw [split, Nat.add_mul_mod_self_left, Nat.mod_eq_of_lt (by omega)]
      omega
    omega
  simp only [stripeOf, noStripe, if_true, range, low, stripeAt, Stripe.mk.injEq, true_and]
  exact ⟨Nat.mod_eq_of_lt (by omega), trivial⟩

/-- Rolling back to the last extent before the load gives back the extents of the column, if no
creation wrapped a partition number, segment number or block offset. -/
theorem columnRollback_restores {cfg : Config} (width : colWidth ∈ columnWidths)
    (built : Built cfg oid colWidth dbRoot (NoWrap oid colWidth dbRoot) s)
    (isLast : IsLast (owned oid dbRoot s) l last) (set : last.status = .available)
    (loads : LoadedFrom cfg oid colWidth dbRoot (NoWrap oid colWidth dbRoot) s t) (i : Nat) :
    owned oid dbRoot (rollbackColumnExtentsDBroot oid false dbRoot last.partitionNum
      last.segmentNum last.hwm t) i = owned oid dbRoot s i := by
  obtain ⟨sound, layered, marked⟩ := built_layered width built
  have complete : Complete (extentBlocks colWidth) (owned oid dbRoot s) l last :=
    ⟨layered, marked, isLast, set⟩
  obtain ⟨sound', loaded⟩ := loadedFrom_loaded sound complete loads
  have positive := extentBlocks_positive width
  have inService : ∀ i e, owned oid dbRoot t i = some e → e.status ≠ .outOfService := by
    intro i e there
    cases original : owned oid dbRoot s i with
    | none => exact (loaded.added i e there original).2
    | some e₀ =>
      obtain ⟨e', there', -, available, -⟩ := loaded.kept i e₀ original
      cases there.symm.trans there'
      simp [available]
  have isStripe := stripeOf_last width (layered.aligned l last isLast.here)
    (sound.bounded l last isLast.here) complete.inside
  have known : (stripeAt (extentBlocks colWidth) last).fboHi ≠ 0 := by
    have : 1024 ≤ extentBlocks colWidth := by
      simp only [columnWidths, List.mem_cons, List.not_mem_nil, or_false] at width
      rcases width with rfl | rfl | rfl | rfl <;> decide
    simp only [stripeAt]
    omega
  rw [owned_rollback sound'.valid sound'.sized inService isStripe known i]
  exact loaded.cut complete positive i

end Rollback

def onRoot (root : Nat) : DBRootsStruct := DBRootsStruct.zero.set 0 root

/-- One more extent of an eight-byte column on DBRoot 1. -/
def appended (s : Map) : Map :=
  (createColumnExtentDBroot exampleConfig 3000 8 (onRoot 1) .bigint 0 s).2.confirmChanges

/-- The mark of its first segment file set to block 5. -/
def filledTo5 (s : Map) : Map := (setLocalHWM 3000 0 0 5 s).2.confirmChanges

/-- An extent of the column on DBRoot 2 in the last segment file a partition can have. -/
def highSegment : Map :=
  ((Call.createColumnExtentExactFile 3000 8 (onRoot 2) 0 65535 .bigint).run exampleConfig
    fresh).2.confirmChanges

lemma ok_of_toBool {Result : Type} {answer : Outcome Result}
    (made : answer.1.toBool = true) : ∃ result, answer = (.ok result, answer.2) := by
  obtain ⟨_ | result, t⟩ := answer
  · simp [Except.toBool] at made
  · exact ⟨result, rfl⟩

lemma owned_fresh (i : Nat) : owned oid dbRoot fresh i = none := by
  simp [owned, live_fresh]

lemma noWrap_fresh : NoWrap 3000 8 (onRoot 1) fresh 0 := by
  refine ⟨fun _ i e hh => ?_, fun l last later => ?_⟩
  · simp [live_fresh] at hh
  · have hh := later.here
    simp [owned_fresh] at hh

/-- The column has no extent but the one in the slot. -/
def onlyAt (k : Nat) (s : Map) : Bool :=
  (List.range (emEntries s)).all fun j => (live s j).all fun e =>
    !decide (Own 3000 (onRoot 1) e) || j == k

lemma isLast_of_onlyAt {k : Nat} (hv : Valid s) (only : onlyAt k s = true)
    (hh : owned 3000 (onRoot 1) s k = some e) : IsLast (owned 3000 (onRoot 1) s) k e := by
  refine ⟨hh, fun j e' ht => ?_⟩
  obtain ⟨ht', own⟩ := owned_eq_some.mp ht
  have isSlot := live_all _ hv only ht'
  simp only [own, decide_true, Bool.not_true, Bool.false_or, beq_iff_eq] at isSlot
  subst isSlot
  rw [Option.some.inj (ht.symm.trans hh)]

/-- One extent, filled up to block 5. -/
lemma filledTo5_built {condition : Map → Nat → Prop} {k : Nat}
    (hr : Reachable exampleConfig s) (none : ∀ i, owned 3000 (onRoot 1) s i = none)
    (fits : condition s 0)
    (made : (createColumnExtentDBroot exampleConfig 3000 8 (onRoot 1) .bigint 0 s).1.toBool = true)
    (only : onlyAt k (appended s) = true) (hpl : (owned 3000 (onRoot 1) (appended s) k).map
      (fun e => (e.partitionNum, e.segmentNum, e.blockOffset)) = some (0, 0, 0))
    (isMarked : (setLocalHWM 3000 0 0 5 (appended s)).1.toBool = true) :
    Built exampleConfig 3000 8 (onRoot 1) condition (filledTo5 (appended s)) ∧
      Valid (filledTo5 (appended s)) := by
  obtain ⟨answer, hok⟩ := ok_of_toBool made
  obtain ⟨⟨⟩, hok'⟩ := ok_of_toBool isMarked
  have hv := confirmChanges_valid (create_creates (reachable_valid hr) (by decide) hok).1
  obtain ⟨e, hh, place⟩ := map_eq_some_iff.mp hpl
  simp only [Prod.mk.injEq] at place
  have hfil : Filled (extentBlocks 8) (owned 3000 (onRoot 1) s) := fun l last later => by
    have hh := later.here
    simp [none l] at hh
  refine ⟨.setHWM (.create (.start hr none) hfil fits hok) (isLast_of_onlyAt hv only hh) ?_
    (by rw [place.1, place.2.1]; exact hok'), confirmChanges_valid (setLocalHWM_valid hv hok')⟩
  rw [place.2.2]
  decide

/-- One extent before the load and one more after it. -/
theorem columnRollback_restores_oneMore :
    owned 3000 (onRoot 1) (rollbackColumnExtentsDBroot 3000 false (onRoot 1) 0 0 5
      (appended (filledTo5 (appended fresh)))) =
      owned 3000 (onRoot 1) (filledTo5 (appended fresh)) := by
  funext i
  obtain ⟨built, valid⟩ := filledTo5_built (k := 0) .fresh owned_fresh noWrap_fresh
    (by decide +kernel) (by decide +kernel) (by decide +kernel) (by decide +kernel)
  obtain ⟨last, here, shown⟩ := map_eq_some_iff.mp (show (owned 3000 (onRoot 1) (filledTo5 (appended
    fresh)) 0).map (fun e => (e.partitionNum, e.segmentNum, e.hwm, e.status)) =
      some (0, 0, 5, .available) by decide +kernel)
  simp only [Prod.mk.injEq] at shown
  have fits : NoWrap 3000 8 (onRoot 1) (filledTo5 (appended fresh)) 0 := by
    have low : ∀ i e, live (filledTo5 (appended fresh)) i = some e →
        (e.partitionNum, e.blockOffset, e.segmentNum) = (0, 0, 0) := fun i e here =>
      of_decide_eq_true (live_all (fun _ e => decide ((e.partitionNum, e.blockOffset,
        e.segmentNum) = (0, 0, 0))) valid (by decide +kernel) here)
    simp only [Prod.mk.injEq] at low
    refine ⟨fun _ i e here _ _ => by simp [low i e here], fun l last isLast => ?_⟩
    have inFirst := low l last (owned_eq_some.mp isLast.here).1
    rw [inFirst.1, inFirst.2.1]
    exact ⟨by decide, by decide, fun i e here _ _ => by simp [low i e here]⟩
  obtain ⟨answer, success⟩ := ok_of_toBool (show (createColumnExtentDBroot exampleConfig 3000 8
    (onRoot 1) .bigint 0 (filledTo5 (appended fresh))).1.toBool = true by decide +kernel)
  have restored := columnRollback_restores (by decide) built
    (isLast_of_onlyAt valid (by decide +kernel) here) shown.2.2.2 (.create .start fits success) i
  rwa [shown.1, shown.2.1, shown.2.2.1] at restored

/-- The segment number wraps to the one in use: the new extent gets the place of the old one and
survives the rollback. -/
theorem rollback_keeps_extent :
    Built exampleConfig 3000 8 (onRoot 1) (fun _ _ => True) (filledTo5 (appended highSegment)) ∧
    LoadedFrom exampleConfig 3000 8 (onRoot 1) (fun _ _ => True)
      (filledTo5 (appended highSegment)) (appended (filledTo5 (appended highSegment))) ∧
    (∃ last, IsLast (owned 3000 (onRoot 1) (filledTo5 (appended highSegment))) 1 last ∧
      last.partitionNum = 0 ∧ last.segmentNum = 0 ∧ last.hwm = 5 ∧ last.status = .available) ∧
    owned 3000 (onRoot 1) (filledTo5 (appended highSegment)) 2 = none ∧
    owned 3000 (onRoot 1) (rollbackColumnExtentsDBroot 3000 false (onRoot 1) 0 0 5
      (appended (filledTo5 (appended highSegment)))) 2 ≠ none := by
  have reached : Reachable exampleConfig highSegment :=
    .step _ .fresh (by simp [Call.widthsValid, columnWidths]) (by decide +kernel)
  have none : ∀ i, owned 3000 (onRoot 1) highSegment i = Option.none := fun i => by
    by_contra found
    obtain ⟨e, there⟩ := ne_none_iff_exists'.mp found
    obtain ⟨here, own⟩ := owned_eq_some.mp there
    exact of_decide_eq_true (live_all (fun _ e => decide ¬ Own 3000 (onRoot 1) e)
      (reachable_valid reached) (by decide +kernel) here) own
  obtain ⟨built, valid⟩ := @filledTo5_built highSegment (fun _ _ => True) 1 reached none trivial
    (by decide +kernel) (by decide +kernel) (by decide +kernel) (by decide +kernel)
  obtain ⟨last, here, shown⟩ := map_eq_some_iff.mp (show (owned 3000 (onRoot 1) (filledTo5 (appended
    highSegment)) 1).map (fun e => (e.partitionNum, e.segmentNum, e.hwm, e.status)) =
      some (0, 0, 5, .available) by decide +kernel)
  simp only [Prod.mk.injEq] at shown
  obtain ⟨answer, success⟩ := ok_of_toBool (show (createColumnExtentDBroot exampleConfig 3000 8
    (onRoot 1) .bigint 0 (filledTo5 (appended highSegment))).1.toBool = true by decide +kernel)
  refine ⟨built, .create .start trivial success,
    ⟨last, isLast_of_onlyAt valid (by decide +kernel) here, shown⟩, by decide +kernel, ?_⟩
  have valid' : Valid (appended (filledTo5 (appended highSegment))) :=
    confirmChanges_valid (create_creates valid (by decide) success).1
  have judged :
      ∀ j e, owned 3000 (onRoot 1) (appended (filledTo5 (appended highSegment))) j = some e →
      e.range.size = extentSize 8 / 1024 ∧ e.status ≠ .outOfService := fun j e there =>
    of_decide_eq_true (live_all (fun _ e => decide (e.range.size = extentSize 8 / 1024 ∧
      e.status ≠ .outOfService)) valid' (by decide +kernel) (owned_eq_some.mp there).1)
  obtain ⟨e, there, place⟩ := map_eq_some_iff.mp (show (owned 3000 (onRoot 1) (appended (filledTo5
    (appended highSegment))) 2).map (fun e => (e.partitionNum, e.segmentNum, e.blockOffset)) =
      some (0, 0, 0) by decide +kernel)
  simp only [Prod.mk.injEq] at place
  have isStripe : stripeOf noStripe 5 (extentSize 8 / 1024) = ⟨0, 8191, 0⟩ := rfl
  rw [owned_rollback valid' (fun j e there => (judged j e there).1)
    (fun j e there => (judged j e there).2) isStripe (by decide) 2, there]
  simp [columnVerdict, place, judge]

end ColumnRollback
