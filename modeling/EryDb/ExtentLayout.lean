import EryDb.ColumnPlacement

/-!
# File blocks and LBIDs

Each live extent maps a run of blocks of one segment file to a run of LBIDs. Both
`lookupLocal` calls scan the table for the first extent that holds what they are
given; they are inverse to each other as long as no two extents of one object share
a file block. That depends on where the creations put new extents: each looks for
the last extent of a file or of a DBRoot set and goes behind it, but
`createColumnExtentDBroot` only sees the extents whose whole array of DBRoots is the
one it was given.
-/

namespace ExtentLayout

open List ImageUndo SlotScan BrmTypes ExtentMap ExtentCreation ExtentUpdates ExtentCalls LbidTiling
  LbidSpace ExtentUndo LiveExtents ColumnPlacement

/-- File, DBRoots and block of an LBID; the block is the same for every replica. -/
structure FileBlock where
  oid : Int
  dbRoot : DBRootsStruct
  partitionNum : Nat
  segmentNum : Nat
  fileBlockOffset : Nat
  deriving DecidableEq

def lookupLocalByLbid (lbid : Int) (s : Map) : Except BrmExcept (Option FileBlock) :=
  if lbid < 0 then .error .invalidArgument
  else .ok ((firstIndex (fun i => decide ((fExtentMap s i).range.size ≠ 0 ∧
      (fExtentMap s i).range.start ≤ lbid ∧
      lbid ≤ (fExtentMap s i).range.start + (fExtentMap s i).range.size * 1024 - 1))
      (emEntries s)).map (fun i =>
    let e := fExtentMap s i
    ⟨e.fileID, e.dbRoots, e.partitionNum, e.segmentNum,
      u32 (e.blockOffset + (lbid - e.range.start).toNat)⟩))

def lookupLocalByFbo (oid : Int) (partitionNum segmentNum fileBlockOffset : Nat) (s : Map) :
    Except BrmExcept (Option Int) :=
  if oid < 0 then .error .invalidArgument
  else .ok ((firstIndex (fun i => decide ((fExtentMap s i).range.size ≠ 0 ∧
      (fExtentMap s i).fileID = oid ∧ (fExtentMap s i).partitionNum = partitionNum ∧
      (fExtentMap s i).segmentNum = segmentNum ∧ (fExtentMap s i).blockOffset ≤ fileBlockOffset ∧
      fileBlockOffset ≤ (fExtentMap s i).blockOffset + (fExtentMap s i).range.size * 1024 - 1))
      (emEntries s)).map (fun i =>
    (fExtentMap s i).range.start + (fileBlockOffset - (fExtentMap s i).blockOffset : Nat)))

/-- Two extents in the same segment file. -/
def SameFile (e e' : EMEntry) : Prop :=
  e.fileID = e'.fileID ∧ e.partitionNum = e'.partitionNum ∧ e.segmentNum = e'.segmentNum

variable {e : EMEntry}

lemma SameFile.symm {e' : EMEntry} (he : SameFile e e') : SameFile e' e :=
  ⟨he.1.symm, he.2.1.symm, he.2.2.symm⟩

/-- Blocks of an extent of a column of this width. -/
def extentBlocks (colWidth : Nat) : Nat := extentSize colWidth / 1024 * 1024

/-- How the extents lie in their files when each object keeps one width. -/
structure Layout (width : Int → Nat) (s : Map) : Prop where
  valid : Valid s
  object : ∀ i e, live s i = some e → 0 ≤ e.fileID ∧ width e.fileID ∈ columnWidths
  sized : ∀ i e, live s i = some e → e.range.size = extentSize (width e.fileID) / 1024
  aligned : ∀ i e, live s i = some e → extentBlocks (width e.fileID) ∣ e.blockOffset
  bounded : ∀ i e, live s i = some e → e.blockOffset + extentBlocks (width e.fileID) ≤ 2 ^ 32
  apart : ∀ i j e e', live s i = some e → live s j = some e' → SameFile e e' →
    e.blockOffset = e'.blockOffset → i = j
  roots : ∀ i j e e', live s i = some e → live s j = some e' → SameFile e e' →
    e.dbRoots.get 0 = e'.dbRoots.get 0

lemma fresh_layout (width : Int → Nat) : Layout width fresh := by
  constructor
  · exact fresh_valid
  all_goals simp [live_fresh]

/-- Nothing is added and what stays keeps its place. -/
lemma Layout.shrink {width : Int → Nat} {s t : Map} (layout : Layout width s) (hv : Valid t)
    (kept : ∀ i e', live t i = some e' → ∃ e, live s i = some e ∧ Moved e e') :
    Layout width t := by
  refine ⟨hv, fun i e' hh => ?_, fun i e' hh => ?_, fun i e' hh => ?_,
    fun i e' hh => ?_, fun i j e₁ e₂ left right he offset => ?_,
    fun i j e₁ e₂ left right he => ?_⟩
  · obtain ⟨e, hb, hmo⟩ := kept i e' hh
    rw [hmo]
    exact layout.object i e hb
  · obtain ⟨e, hb, hmo⟩ := kept i e' hh
    rw [hmo]
    exact layout.sized i e hb
  · obtain ⟨e, hb, hmo⟩ := kept i e' hh
    rw [hmo]
    exact layout.aligned i e hb
  · obtain ⟨e, hb, hmo⟩ := kept i e' hh
    rw [hmo]
    exact layout.bounded i e hb
  · obtain ⟨e, hb, hmo⟩ := kept i e₁ left
    obtain ⟨e', hb', hmo'⟩ := kept j e₂ right
    rw [hmo, hmo'] at he offset
    exact layout.apart i j e e' hb hb' he offset
  · obtain ⟨e, hb, hmo⟩ := kept i e₁ left
    obtain ⟨e', hb', hmo'⟩ := kept j e₂ right
    rw [hmo, hmo'] at he ⊢
    exact layout.roots i j e e' hb hb' he

/-- What a new extent must satisfy to fit the layout. -/
structure FitsIn (width : Int → Nat) (s : Map) (e : EMEntry) : Prop where
  object : 0 ≤ e.fileID ∧ width e.fileID ∈ columnWidths
  sized : e.range.size = extentSize (width e.fileID) / 1024
  aligned : extentBlocks (width e.fileID) ∣ e.blockOffset
  bounded : e.blockOffset + extentBlocks (width e.fileID) ≤ 2 ^ 32
  apart : ∀ i e', live s i = some e' → SameFile e' e → e'.blockOffset ≠ e.blockOffset
  roots : ∀ i e', live s i = some e' → SameFile e' e → e'.dbRoots.get 0 = e.dbRoots.get 0

variable {i : Nat}

lemma Layout.extend {width : Int → Nat} {s t : Map} (layout : Layout width s) (hv : Valid t)
    (fits : FitsIn width s e) (lives : ∀ j, live t j = if j = i then some e else live s j) :
    Layout width t := by
  refine ⟨hv, forall_added lives fits.object layout.object,
    forall_added lives fits.sized layout.sized,
    forall_added lives fits.aligned layout.aligned, forall_added lives fits.bounded layout.bounded,
    fun j k e₁ e₂ left right he offset => ?_, fun j k e₁ e₂ left right he => ?_⟩
  · rcases some_of_added lives left with ⟨rfl, rfl⟩ | hb <;>
      rcases some_of_added lives right with ⟨rfl, rfl⟩ | hb'
    · rfl
    · exact absurd offset.symm (fits.apart k e₂ hb' he.symm)
    · exact absurd offset (fits.apart j e₁ hb he)
    · exact layout.apart j k e₁ e₂ hb hb' he offset
  · rcases some_of_added lives left with ⟨rfl, rfl⟩ | hb <;>
      rcases some_of_added lives right with ⟨rfl, rfl⟩ | hb'
    · rfl
    · exact (fits.roots k e₂ hb' he.symm).symm
    · exact fits.roots j e₁ hb he
    · exact layout.roots j k e₁ e₂ hb hb' he

/-- Extents of one width end where the next begins, up to the last block of a file. -/
lemma extentBlocks_behind {colWidth offset : Nat} (width : colWidth ∈ columnWidths)
    (hal : extentBlocks colWidth ∣ offset) (room : offset + extentBlocks colWidth < 2 ^ 32) :
    u32 (extentSize colWidth / 1024 * 1024 + offset) = offset + extentBlocks colWidth ∧
      extentBlocks colWidth ∣ offset + extentBlocks colWidth ∧
      offset + extentBlocks colWidth + extentBlocks colWidth ≤ 2 ^ 32 := by
  refine ⟨?_, (Nat.dvd_add_self_right).mpr hal, ?_⟩
  · rw [Nat.add_comm]
    exact Nat.mod_eq_of_lt room
  simp only [columnWidths, mem_cons, not_mem_nil, or_false] at width
  have blocks : ∀ w, w = 1 ∨ w = 2 ∨ w = 4 ∨ w = 8 → extentBlocks w = 1024 * w := by
    rintro w (rfl | rfl | rfl | rfl) <;> decide
  rw [blocks colWidth width] at hal room ⊢
  rcases width with rfl | rfl | rfl | rfl <;> omega

lemma extentBlocks_le {colWidth : Nat} (width : colWidth ∈ columnWidths) :
    extentBlocks colWidth ≤ 2 ^ 32 := by
  simp only [columnWidths, mem_cons, not_mem_nil, or_false] at width
  rcases width with rfl | rfl | rfl | rfl <;> decide

section Creation

variable {width : Int → Nat} {s : Map} {oid : Int} {dbRoot : DBRootsStruct}
  {partitionNum segmentNum : Nat} {range : InlineLBIDRange} {colDataType : ColDataType}

/-- The first extent of a segment file fits. -/
lemma fitsIn_newFile (object : 0 ≤ e.fileID ∧ width e.fileID ∈ columnWidths)
    (sized : e.range.size = extentSize (width e.fileID) / 1024) (zero : e.blockOffset = 0)
    (vacant : ∀ i e', live s i = some e' → ¬ SameFile e' e) : FitsIn width s e := by
  refine ⟨object, sized, by simp [zero], ?_, fun i e' hh he => absurd he (vacant i e' hh),
    fun i e' hh he => absurd he (vacant i e' hh)⟩
  rw [zero, Nat.zero_add]
  exact extentBlocks_le object.2

/-- An extent behind the last of its segment file fits. -/
lemma fitsIn_behind (layout : Layout width s) {l : Nat} {last : EMEntry}
    (hh : live s l = some last) (object : e.fileID = last.fileID)
    (sized : e.range.size = last.range.size)
    (room : last.blockOffset + extentBlocks (width last.fileID) < 2 ^ 32)
    (hbe : e.blockOffset = u32 (last.range.size * 1024 + last.blockOffset))
    (hmax : ∀ i e', live s i = some e' → SameFile e' e → e'.blockOffset ≤ last.blockOffset)
    (roots : ∀ i e', live s i = some e' → SameFile e' e →
      e'.dbRoots.get 0 = e.dbRoots.get 0) : FitsIn width s e := by
  have sizes := layout.sized l last hh
  have widths := (layout.object l last hh).2
  obtain ⟨exact, hal, hbo⟩ :=
    extentBlocks_behind widths (layout.aligned l last hh) room
  rw [sizes, exact] at hbe
  refine ⟨?_, ?_, ?_, ?_, fun i e' ht he => ?_, roots⟩
  · rw [object]
    exact layout.object l last hh
  · rw [object, sized, sizes]
  · rw [object, hbe]
    exact hal
  · rw [object, hbe]
    exact hbo
  have hl := hmax i e' ht he
  have hp : extentBlocks (width last.fileID) ≠ 0 := by
    have := extentSize_positive widths
    simp only [extentBlocks]
    omega
  omega

/-- What `createColumnExtentDBroot` relies on: a segment file with an extent on the DBRoots has
all its extents on them, and neither the next segment number nor the next offset wraps. -/
structure ColumnFits (s : Map) (oid : Int) (colWidth : Nat) (dbRoot : DBRootsStruct)
    (partitionNum : Nat) : Prop where
  object : 0 ≤ oid
  uniform : ∀ i j e e', live s i = some e → Own oid dbRoot e → live s j = some e' →
    SameFile e e' → e'.dbRoots = dbRoot
  first : (∀ i e, live s i = some e → ¬ Own oid dbRoot e) → ∀ i e, live s i = some e →
    e.fileID = oid → e.partitionNum = partitionNum → e.segmentNum < 65535
  next : ∀ l last, LastOwn (live s) oid dbRoot l last →
    (∀ i e, live s i = some e → e.fileID = oid → e.partitionNum = last.partitionNum ∨
      e.partitionNum = u32 (last.partitionNum + 1) → e.segmentNum < 65535) ∧
    last.blockOffset + extentBlocks colWidth < 2 ^ 32

/-- The segment behind the highest one is new. -/
lemma vacant_of_highSegment {part : Nat} {high : Option Nat}
    (hhi : HighSegment (live s) oid part high)
    (hsm : ∀ i e, live s i = some e → e.fileID = oid → e.partitionNum = part →
      e.segmentNum < 65535) (object : e.fileID = oid) (hpt : e.partitionNum = part)
    (next : e.segmentNum = high.elim 0 (fun k => u16 (k + 1))) :
    ∀ i e', live s i = some e' → ¬ SameFile e' e := by
  rintro i e' hh ⟨sameObject, samePart, sameSeg⟩
  cases high with
  | none => exact hhi.absent rfl i e' hh (sameObject.trans object) (samePart.trans hpt)
  | some h =>
    obtain ⟨k, e'', ht, object', hpt', hr⟩ := hhi.reached h rfl
    have hsm' := hsm k e'' ht object' hpt'
    have above := hhi.above h rfl i e' hh (sameObject.trans object) (samePart.trans hpt)
    simp only [Option.elim_some, u16] at next
    omega

lemma columnEntry_fitsIn (layout : Layout width s) {place : Nat × Nat × Nat}
    (isWidth : width oid ∈ columnWidths) (fits : ColumnFits s oid (width oid) dbRoot partitionNum)
    (size : range.size = extentSize (width oid) / 1024)
    (hpl : PlaceFor (live s) oid dbRoot partitionNum place) :
    FitsIn width s (columnEntry range oid (width oid) dbRoot colDataType place.1 place.2.1
      place.2.2) := by
  cases hpl with
  | first none highest same =>
    subst same
    exact fitsIn_newFile ⟨fits.object, isWidth⟩ size rfl
      (vacant_of_highSegment highest (fits.first none) rfl rfl rfl)
  | @behind l last scan isLast files next =>
    obtain ⟨small, room⟩ := fits.next l last isLast
    have object : last.fileID = oid := isLast.own.1
    -- In a file of the column on these DBRoots, no extent comes behind the last one.
    have mine : ∀ seg, seg ∈ scan.segs.map Prod.fst → ∀ i e', live s i = some e' →
        e'.fileID = oid → e'.partitionNum = last.partitionNum → e'.segmentNum = seg →
        e'.dbRoots = dbRoot ∧ position e' ≤ position last := by
      intro seg member i e' here object' inPart isSeg
      obtain ⟨k, e₀, there, own, inPart₀, isSeg₀⟩ := (files.files seg).mp member
      have root := fits.uniform k i e₀ e' there own here
        ⟨own.1.trans object'.symm, inPart₀.trans inPart.symm, isSeg₀.trans isSeg.symm⟩
      exact ⟨root, isLast.largest i e' here ⟨object', root⟩⟩
    cases next with
    | partition =>
      exact fitsIn_newFile ⟨fits.object, isWidth⟩ size rfl (vacant_of_highSegment files.next
        (fun i e here object inPart => small i e here object (Or.inr inPart)) rfl rfl rfl)
    | @file seg member after nearest =>
      refine ⟨⟨fits.object, isWidth⟩, size, ?_, ?_, ?_, ?_⟩
      · have := layout.aligned l last isLast.here
        rwa [object] at this
      · have := layout.bounded l last isLast.here
        rwa [object] at this
      · rintro i e' here ⟨object', inPart, isSeg⟩ sameOffset
        have below := (mine seg member i e' here object' inPart isSeg).2
        rw [position_le_iff] at below
        have inPart : e'.partitionNum = last.partitionNum := inPart
        have isSeg : e'.segmentNum = seg := isSeg
        have sameOffset : e'.blockOffset = last.blockOffset := sameOffset
        omega
      · rintro i e' here ⟨object', inPart, isSeg⟩
        rw [(mine seg member i e' here object' inPart isSeg).1]
        rfl
    | @stripe seg full member first =>
      refine fitsIn_behind layout isLast.here object.symm ?_ (by rwa [object]) rfl ?_ ?_
      · rw [layout.sized l last isLast.here, object]
        exact size
      · rintro i e' here ⟨object', inPart, isSeg⟩
        have below := (mine seg member i e' here object' inPart isSeg).2
        rw [position_le_iff] at below
        have inPart : e'.partitionNum = last.partitionNum := inPart
        omega
      · rintro i e' here ⟨object', inPart, isSeg⟩
        rw [(mine seg member i e' here object' inPart isSeg).1]
        rfl
    | newFile flat =>
      exact fitsIn_newFile ⟨fits.object, isWidth⟩ size rfl (vacant_of_highSegment files.this
        (fun i e here object inPart => small i e here object (Or.inl inPart)) rfl rfl rfl)

/-- What the two creations in a given segment file rely on. -/
structure FileFits (s : Map) (oid : Int) (colWidth partitionNum segmentNum : Nat) : Prop where
  object : 0 ≤ oid
  room : ∀ i e, live s i = some e → InFile oid partitionNum segmentNum e →
    e.blockOffset + extentBlocks colWidth < 2 ^ 32

lemma sameFile_iff_inFile {e' : EMEntry} (inFile : InFile oid partitionNum segmentNum e) :
    SameFile e' e ↔ InFile oid partitionNum segmentNum e' := by
  simp [SameFile, InFile, inFile.1, inFile.2.1, inFile.2.2]

/-- An extent in a given segment file, behind the last one if there is one. -/
lemma inFile_fitsIn (layout : Layout width s) {wanted : EMEntry → Bool}
    (isWidth : width oid ∈ columnWidths) (fits : FileFits s oid (width oid) partitionNum segmentNum)
    (inFile : InFile oid partitionNum segmentNum e) (search : ∀ i e', live s i = some e' →
      (wanted e' = true ↔ InFile oid partitionNum segmentNum e'))
    (size : e.range.size = extentSize (width oid) / 1024)
    (hbe : e.blockOffset = offsetBehind (lastExtent (makeRoom s) wanted))
    (roots : ∀ last, lastExtent (makeRoom s) wanted = some last →
      last.dbRoots.get 0 = e.dbRoots.get 0) : FitsIn width s e := by
  have bound : ∀ i e, live (makeRoom s) i = some e → i < emEntries (makeRoom s) :=
    fun i e => bound_of_live (makeRoom_valid layout.valid)
  have object : e.fileID = oid := inFile.1
  cases hf : lastExtent (makeRoom s) wanted with
  | none =>
    refine fitsIn_newFile ?_ ?_ ?_ fun i e' hh he => ?_
    · rw [object]
      exact ⟨fits.object, isWidth⟩
    · rw [object]
      exact size
    · rw [hbe, hf]
      rfl
    · have := lastExtent_eq_none bound hf i e' (by rwa [live_makeRoom layout.valid])
      rw [(search i e' hh).mpr ((sameFile_iff_inFile inFile).mp he)] at this
      simp at this
  | some last =>
    obtain ⟨l, ht, hpa, hmax⟩ := lastExtent_eq_some bound hf
    rw [live_makeRoom layout.valid] at ht
    have hw := (search l last ht).mp hpa
    refine fitsIn_behind layout ht (object.trans hw.1.symm) ?_ ?_ ?_ ?_ ?_
    · rw [layout.sized l last ht, hw.1]
      exact size
    · rw [hw.1]
      exact fits.room l last ht hw
    · rw [hbe, hf]
      rfl
    · intro i e' hh he
      exact hmax i e' (by rwa [live_makeRoom layout.valid])
        ((search i e' hh).mpr ((sameFile_iff_inFile inFile).mp he))
    · intro i e' hh he
      rw [← roots last hf]
      refine layout.roots i l e' last hh ht ?_
      exact (sameFile_iff_inFile hw).mpr ((sameFile_iff_inFile inFile).mp he)

end Creation

variable {oid : Int} {dbRoot : DBRootsStruct} {partitionNum : Nat}

section Calls

variable {cfg : Config} {width : Int → Nat} {s : Map}

variable (layout : Layout width s)
include layout

lemma allocate_layout {size : Nat} {entry : Map → InlineLBIDRange → EMEntry} (hp : size ≠ 0)
    (hsm : size < 2 ^ 22) (range : ∀ s r, (entry s r).range = r)
    (fits : ∀ m r, ReadyFor s m → r.size = size → FitsIn width s (entry m r)) :
    Layout width (allocateExtent size entry s).2 := by
  have hv := allocateExtent_valid layout.valid hp hsm range
  cases answer : allocateExtent size entry s with
  | mk result t =>
    rw [answer] at hv
    cases result with
    | error e =>
      refine layout.shrink hv fun i e' hh => ⟨e', ?_, rfl⟩
      rwa [allocateExtent_error layout.valid answer] at hh
    | ok made =>
      obtain ⟨m, i, ready, -, -, he, lives⟩ := allocateExtent_ok layout.valid hp hsm range answer
      have new := fits m ⟨made.1, size⟩ ready rfl
      rw [← he] at new
      exact layout.extend hv new lives

lemma createColumnExtentDBroot_layout {colDataType : ColDataType}
    (isWidth : width oid ∈ columnWidths) (fits : ColumnFits s oid (width oid) dbRoot partitionNum) :
    Layout width (createColumnExtentDBroot cfg oid (width oid) dbRoot colDataType partitionNum
      s).2 := by
  rw [createColumnExtentDBroot, created_map]
  exact allocate_layout layout (extentSize_positive isWidth) (extentSize_small _) (fun _ _ => rfl)
    fun m r ready size => columnEntry_fitsIn layout isWidth fits size
      (placeFor_of_ready cfg (width oid) partitionNum ready)

lemma createColumnExtentExactFile_layout {colDataType : ColDataType} {segmentNum : Nat}
    (isWidth : width oid ∈ columnWidths)
    (names : ∀ i e, live s i = some e → InFile oid partitionNum segmentNum e →
      e.dbRoots.get 0 = dbRoot.get 0) (fits : FileFits s oid (width oid) partitionNum segmentNum) :
    Layout width (createColumnExtentExactFile oid (width oid) dbRoot partitionNum segmentNum
      colDataType s).2 := by
  rw [createColumnExtentExactFile, created_map]
  refine allocate_layout layout (extentSize_positive isWidth) (extentSize_small _)
    (fun _ _ => rfl) fun m r ready size => ?_
  rw [ready.lastExtent_eq]
  refine inFile_fitsIn layout isWidth fits ⟨rfl, rfl, rfl⟩ (fun i e hh => ?_) size rfl
    fun last hf => ?_
  · simp only [decide_eq_true_eq]
    exact ⟨fun all => ⟨all.1, all.2.2⟩, fun hw => ⟨hw.1, names i e hh hw, hw.2⟩⟩
  · obtain ⟨l, ht, hpa, -⟩ :=
      lastExtent_eq_some (fun i e => bound_of_live (makeRoom_valid layout.valid)) hf
    exact (of_decide_eq_true hpa).2.1

lemma createDictStoreExtent_layout {segmentNum : Nat} (isWidth : dictColWidth = width oid)
    (fits : FileFits s oid (width oid) partitionNum segmentNum) :
    Layout width (createDictStoreExtent oid dbRoot partitionNum segmentNum s).2 := by
  rw [createDictStoreExtent, created_map]
  refine allocate_layout layout (by decide) (by decide) (fun _ _ => rfl) fun m r ready size => ?_
  rw [ready.lastExtent_eq]
  have search : ∀ i e, live s i = some e → (decide (e.fileID = oid ∧
      e.partitionNum = partitionNum ∧ e.segmentNum = segmentNum) = true ↔
        InFile oid partitionNum segmentNum e) := fun i e hh => by simp [InFile]
  have inFile : InFile oid partitionNum segmentNum (dictEntry
      ((emptyEMEntry m).elim zeroEntry (fExtentMap m)) r oid dbRoot partitionNum segmentNum
      (lastExtent (makeRoom s) (fun e => decide (e.fileID = oid ∧
        e.partitionNum = partitionNum ∧ e.segmentNum = segmentNum)))) := by
    cases hf : lastExtent (makeRoom s) (fun e => decide (e.fileID = oid ∧
        e.partitionNum = partitionNum ∧ e.segmentNum = segmentNum)) with
    | none => exact ⟨rfl, rfl, rfl⟩
    | some last =>
      obtain ⟨l, ht, hpa, -⟩ :=
        lastExtent_eq_some (fun i e => bound_of_live (makeRoom_valid layout.valid)) hf
      exact ⟨rfl, (of_decide_eq_true hpa).2⟩
  refine inFile_fitsIn layout (isWidth ▸ by decide) fits inFile search (isWidth ▸ size) rfl
    fun last hf => ?_
  simp only [dictEntry, hf, Option.elim_some]
  rw [DBRootsStruct.get_set _ (by decide), if_pos rfl]

/-- The columns of a stripe are created one after the other. -/
def StripeFits (cfg : Config) (width : Int → Nat) (dbRoot : DBRootsStruct) :
    Nat → List CreateStripeColumnExtentsArgIn → Map → Prop
  | _, [], _ => True
  | partitionNum, col :: cols, s => ColumnFits s col.oid (width col.oid) dbRoot partitionNum ∧
      ∀ c t, createColumnExtentDBroot cfg col.oid col.width dbRoot col.colDataType partitionNum s =
        (.ok c, t) → StripeFits cfg width dbRoot c.partitionNum cols t

omit layout

lemma deleteAll_kept (extents : List Nat) {j : Nat}
    (left : live (extents.foldl (fun s i => deleteExtent i s) s) j = some e) :
    live s j = some e := by
  induction extents generalizing s with
  | nil => exact left
  | cons i extents ih =>
    have hb : live (applyVerdict .delete i s) j = some e := ih left
    rw [live_applyVerdict] at hb
    split at hb
    · simp [judge, Option.bind_eq_some_iff] at hb
    · exact hb

/-- Deletions and rollbacks. -/
def Deletes : Call → Prop
  | .rollbackColumnExtentsDBroot .. | .rollbackDictStoreExtentsDBroot .. => True
  | .deleteEmptyColExtents .. | .deleteEmptyDictStoreExtents .. => True
  | .deleteOID .. | .deleteOIDs .. | .deletePartition .. => True
  | _ => False

/-- What they leave was there before. -/
lemma run_kept {c : Call} {e' : EMEntry} (left : live (c.run cfg s).2 i = some e')
    (deletes : Deletes c) : ∃ e, live s i = some e ∧ Moved e e' := by
  cases c with
  | rollbackColumnExtentsDBroot oid bDeleteAll dbRoot partitionNum segmentNum hwm =>
    exact verdictLoop_kept (rollbackColumn_loop oid bDeleteAll dbRoot partitionNum segmentNum hwm)
      (noStripe, s) (emEntries s) left
  | rollbackDictStoreExtentsDBroot oid dbRoot partitionNum segNums hwms =>
    exact verdictLoop_kept (rollbackDict_loop oid dbRoot partitionNum segNums hwms) ([], s)
      (emEntries s) left
  | deleteEmptyColExtents extentsInfo =>
    exact verdictLoop_kept (deleteEmptyCol_loop extentsInfo) (noStripe, s) (emEntries s) left
  | deleteEmptyDictStoreExtents extentsInfo =>
    simp only [Call.run, deleteEmptyDictStoreExtents] at left
    split at left
    · exact verdictLoop_kept (newFiles_loop extentsInfo) s (emEntries s) left
    · exact verdictLoop_kept (deleteEmptyDict_loop extentsInfo) (noStripe, s) (emEntries s) left
  | deleteOID oid =>
    exact verdictLoop_kept (deleteWhere_loop fun e => decide (e.fileID = oid)) s (emEntries s) left
  | deleteOIDs oids =>
    exact verdictLoop_kept (deleteWhere_loop fun e => decide (e.fileID ∈ oids)) s (emEntries s) left
  | deletePartition oids partitionNums =>
    refine ⟨e', ?_, rfl⟩
    simp only [Call.run, deletePartition] at left
    split at left
    · exact left
    · exact deleteAll_kept _ left
  | _ => exact absurd deletes id

/-- The calls the layout is about. -/
def Listed : Call → Prop
  | .createColumnExtentDBroot .. | .createColumnExtentExactFile .. => True
  | .createStripeColumnExtents .. | .createDictStoreExtent .. => True
  | .rollbackColumnExtentsDBroot .. | .rollbackDictStoreExtentsDBroot .. => True
  | .deleteOID .. | .deletePartition .. => True
  | _ => False

/-- Every creation for an object asks for its one width; a dictionary has a fixed one. -/
def KeepsWidth (width : Int → Nat) : Call → Prop
  | .createColumnExtentDBroot oid colWidth .. => colWidth = width oid
  | .createColumnExtentExactFile oid colWidth .. => colWidth = width oid
  | .createStripeColumnExtents cols .. => ∀ col ∈ cols, col.width = width col.oid
  | .createDictStoreExtent oid .. => dictColWidth = width oid
  | _ => True

/-- A creation in a given segment file names the first DBRoot the file is on. -/
def NamesFirstRoot (s : Map) : Call → Prop
  | .createColumnExtentExactFile oid _ dbRoot partitionNum segmentNum _ =>
    ∀ i e, live s i = some e → InFile oid partitionNum segmentNum e → e.dbRoots.get 0 = dbRoot.get 0
  | _ => True

/-- What a creation relies on in the table it starts from. -/
def Fits (cfg : Config) (width : Int → Nat) (s : Map) : Call → Prop
  | .createColumnExtentDBroot oid _ dbRoot _ partitionNum =>
    ColumnFits s oid (width oid) dbRoot partitionNum
  | .createStripeColumnExtents cols dbRoot partitionNum =>
    StripeFits cfg width dbRoot partitionNum cols s
  | .createColumnExtentExactFile oid _ _ partitionNum segmentNum _ =>
    FileFits s oid (width oid) partitionNum segmentNum
  | .createDictStoreExtent oid _ partitionNum segmentNum =>
    FileFits s oid (width oid) partitionNum segmentNum
  | _ => True

lemma run_layout {c : Call} (layout : Layout width s) (listed : Listed c)
    (widths : c.widthsValid) (keeps : KeepsWidth width c) (names : NamesFirstRoot s c)
    (fits : Fits cfg width s c) : Layout width (c.run cfg s).2 := by
  have hv : Valid (c.run cfg s).2 := run_valid c layout.valid widths
  cases c with
  | createColumnExtentDBroot oid colWidth dbRoot colDataType partitionNum =>
    obtain rfl : colWidth = width oid := keeps
    simp only [Call.run, discard_map]
    exact createColumnExtentDBroot_layout layout widths fits
  | createColumnExtentExactFile oid colWidth dbRoot partitionNum segmentNum colDataType =>
    obtain rfl : colWidth = width oid := keeps
    simp only [Call.run, discard_map]
    exact createColumnExtentExactFile_layout layout widths names fits
  | createStripeColumnExtents cols dbRoot partitionNum =>
    simp only [Call.run, discard_map]
    refine createStripeFrom_rule cfg (P := Layout width)
      (Q := fun n cols s => (∀ col ∈ cols, col.width ∈ columnWidths) ∧
        (∀ col ∈ cols, col.width = width col.oid) ∧ StripeFits cfg width dbRoot n cols s)
      (fun n col cols s layout needs => ?_) layout ⟨widths, keeps, fits⟩
    obtain ⟨widths, keeps, fits⟩ := needs
    obtain ⟨isWidth, widths⟩ := forall_mem_cons.mp widths
    obtain ⟨he, keeps⟩ := forall_mem_cons.mp keeps
    refine ⟨?_, fun c t made => ⟨widths, keeps, fits.2 c t made⟩⟩
    rw [he]
    exact createColumnExtentDBroot_layout layout (he ▸ isWidth) fits.1
  | createDictStoreExtent oid dbRoot partitionNum segmentNum =>
    simp only [Call.run, discard_map]
    exact createDictStoreExtent_layout layout keeps fits
  | rollbackColumnExtentsDBroot | rollbackDictStoreExtentsDBroot | deleteOID | deletePartition =>
    exact layout.shrink hv fun i e' left => run_kept left trivial
  | _ => exact absurd listed id

/-- The maps successful calls lead to when each object keeps one width and every call meets a
condition on the table it starts from. -/
inductive LaidOut (cfg : Config) (width : Int → Nat) (condition : Map → Call → Prop) :
    Map → Prop where
  | fresh : LaidOut cfg width condition ExtentMap.fresh
  | step {s : Map} (c : Call) (reached : LaidOut cfg width condition s) (listed : Listed c)
      (widths : c.widthsValid) (keeps : KeepsWidth width c) (names : NamesFirstRoot s c)
      (meets : condition s c) (success : succeeds (c.run cfg s).1 = true) :
      LaidOut cfg width condition (c.run cfg s).2.confirmChanges

lemma laidOut_layout (hr : LaidOut cfg width (Fits cfg width) s) : Layout width s := by
  induction hr with
  | fresh => exact fresh_layout width
  | step c hr listed widths keeps names fits hok ih =>
    exact (run_layout ih listed widths keeps names fits).shrink
      (confirmChanges_valid (run_valid c ih.valid widths)) fun i e hh => ⟨e, hh, rfl⟩

end Calls

section Lookups

variable {width : Int → Nat} {s : Map}

/-- A block of the file lies in an extent. -/
def HasBlock (e : EMEntry) (fbo : Nat) : Prop :=
  e.blockOffset ≤ fbo ∧ fbo < e.blockOffset + e.range.size * 1024

/-- No two extents of one object share a file block. -/
def NoOverlap (s : Map) : Prop :=
  ∀ i j e e', live s i = some e → live s j = some e' → SameFile e e' → i ≠ j →
    ∀ fbo, ¬ (HasBlock e fbo ∧ HasBlock e' fbo)

def allocated (s : Map) : Set Int := {lbid | ∃ i e, live s i = some e ∧ lbid ∈ blocks e.range}

def fileBlocks (s : Map) : Set (Int × Nat × Nat × Nat) :=
  {b | ∃ i e, live s i = some e ∧ InFile b.1 b.2.1 b.2.2.1 e ∧ HasBlock e b.2.2.2}

/-- The two lookups are inverse bijections between LBIDs and file blocks. -/
structure LookupsInverse (s : Map) : Prop where
  ofLbid : ∀ lbid ∈ allocated s, ∃ b, lookupLocalByLbid lbid s = .ok (some b) ∧
    (b.oid, b.partitionNum, b.segmentNum, b.fileBlockOffset) ∈ fileBlocks s ∧
    lookupLocalByFbo b.oid b.partitionNum b.segmentNum b.fileBlockOffset s = .ok (some lbid)
  ofBlock : ∀ oid partitionNum segmentNum fbo, (oid, partitionNum, segmentNum, fbo) ∈ fileBlocks s →
    ∃ lbid ∈ allocated s, lookupLocalByFbo oid partitionNum segmentNum fbo s = .ok (some lbid) ∧
      ∃ dbRoot, lookupLocalByLbid lbid s = .ok (some ⟨oid, dbRoot, partitionNum, segmentNum, fbo⟩)

lemma Layout.noOverlap (layout : Layout width s) : NoOverlap s := by
  rintro i j e e' hh ht he ho fbo ⟨⟨low, high⟩, ⟨low', high'⟩⟩
  have hal := layout.aligned i e hh
  have hal' := layout.aligned j e' ht
  have blocks : e.range.size * 1024 = extentBlocks (width e.fileID) := by
    rw [layout.sized i e hh, extentBlocks]
  have blocks' : e'.range.size * 1024 = extentBlocks (width e.fileID) := by
    rw [layout.sized j e' ht, ← he.1, extentBlocks]
  rw [← he.1] at hal'
  rw [blocks] at high
  rw [blocks'] at high'
  obtain ⟨k, multiple⟩ := hal
  obtain ⟨k', multiple'⟩ := hal'
  -- Both offsets are the multiple of the extent size at or below the block.
  have index : ∀ q offset, offset = extentBlocks (width e.fileID) * q → offset ≤ fbo →
      fbo < offset + extentBlocks (width e.fileID) → fbo / extentBlocks (width e.fileID) = q := by
    rintro q _ rfl hl above
    refine Nat.div_eq_of_lt_le ?_ ?_
    · rwa [Nat.mul_comm]
    · rwa [Nat.succ_mul, Nat.mul_comm]
  have heq : k = k' := (index k _ multiple low high).symm.trans (index k' _ multiple' low' high')
  exact ho (layout.apart i j e e' hh ht he (by rw [multiple, multiple', heq]))

lemma lookupLocalByLbid_found (hv : Valid s) {lbid : Int} (hh : live s i = some e)
    (hi : lbid ∈ blocks e.range) :
    lookupLocalByLbid lbid s = .ok (some ⟨e.fileID, e.dbRoots, e.partitionNum, e.segmentNum,
      u32 (e.blockOffset + (lbid - e.range.start).toNat)⟩) := by
  have bound := bound_of_live hv hh
  obtain ⟨rfl, hu⟩ := live_eq_some.mp hh
  have low := (hv.extent_bounds hu).1
  have range := hi
  rw [mem_blocks] at range
  unfold lookupLocalByLbid
  rw [if_neg (by omega), firstIndex_unique bound]
  · rfl
  · exact decide_eq_true ⟨hu, range.1, by omega⟩
  intro j _ hpa
  have hpa := of_decide_eq_true hpa
  have := hv.tiling.disjoint lbid (.inl j) (.inl i)
    (mem_blocks.mpr ⟨hpa.2.1, by omega⟩) hi
  simpa using this

lemma lookupLocalByFbo_found (hv : Valid s) (separate : NoOverlap s) {fbo : Nat}
    (hh : live s i = some e) (object : 0 ≤ e.fileID) (hd : HasBlock e fbo) :
    lookupLocalByFbo e.fileID e.partitionNum e.segmentNum fbo s =
      .ok (some (e.range.start + (fbo - e.blockOffset : Nat))) := by
  have bound := bound_of_live hv hh
  obtain ⟨rfl, hu⟩ := live_eq_some.mp hh
  obtain ⟨low, high⟩ := hd
  unfold lookupLocalByFbo
  rw [if_neg (by omega), firstIndex_unique bound]
  · rfl
  · exact decide_eq_true ⟨hu, rfl, rfl, rfl, low, by omega⟩
  intro j _ hpa
  obtain ⟨hu', object', hpt, isSeg, low', high'⟩ := of_decide_eq_true hpa
  by_contra ho
  exact separate j i _ _ (live_of_used hu') hh ⟨object', hpt, isSeg⟩ ho fbo
    ⟨⟨low', by omega⟩, ⟨low, high⟩⟩

lemma Layout.lookupsInverse (layout : Layout width s) : LookupsInverse s := by
  have hv := layout.valid
  -- The block of an LBID, counted from the start of its extent.
  have inverse : ∀ i e lbid, live s i = some e → lbid ∈ blocks e.range →
      u32 (e.blockOffset + (lbid - e.range.start).toNat) =
        e.blockOffset + (lbid - e.range.start).toNat ∧
      HasBlock e (e.blockOffset + (lbid - e.range.start).toNat) := by
    intro i e lbid hh hi
    rw [mem_blocks] at hi
    have hbo := layout.bounded i e hh
    rw [extentBlocks, ← layout.sized i e hh] at hbo
    refine ⟨Nat.mod_eq_of_lt (by omega), by simp, by omega⟩
  constructor
  · rintro lbid ⟨i, e, hh, hi⟩
    obtain ⟨exact, hd⟩ := inverse i e lbid hh hi
    have hf := lookupLocalByLbid_found hv hh hi
    rw [exact] at hf
    refine ⟨_, hf, ⟨i, e, hh, ⟨rfl, rfl, rfl⟩, hd⟩, ?_⟩
    rw [lookupLocalByFbo_found hv layout.noOverlap hh (layout.object i e hh).1 hd]
    rw [mem_blocks] at hi
    congr 2
    omega
  · rintro oid partitionNum segmentNum fbo ⟨i, e, hh, ⟨rfl, rfl, rfl⟩, hd⟩
    have hi : e.range.start + ((fbo - e.blockOffset : Nat) : Int) ∈ blocks e.range := by
      obtain ⟨low, high⟩ := hd
      rw [mem_blocks]
      dsimp only at low high
      omega
    refine ⟨_, ⟨i, e, hh, hi⟩, lookupLocalByFbo_found hv layout.noOverlap hh
      (layout.object i e hh).1 hd, e.dbRoots, ?_⟩
    rw [lookupLocalByLbid_found hv hh hi, (inverse i e _ hh hi).1]
    have back : e.blockOffset +
        (e.range.start + ((fbo - e.blockOffset : Nat) : Int) - e.range.start).toNat = fbo := by
      have low : e.blockOffset ≤ fbo := hd.1
      omega
    rw [back]

/-- In every run whose creations find what they rely on, no two extents of one object share a
file block and the lookups are inverse to each other. -/
theorem laidOut_lookups {cfg : Config} (reached : LaidOut cfg width (Fits cfg width) s) :
    NoOverlap s ∧ LookupsInverse s :=
  ⟨(laidOut_layout reached).noOverlap, (laidOut_layout reached).lookupsInverse⟩

end Lookups

/-- One segment file for each column, DBRoot set and partition. -/
def oneFile : Config := ⟨1, 4, 1⟩

def rootsOf (first second : Nat) : DBRootsStruct := (DBRootsStruct.zero.set 0 first).set 1 second

/-- An eight-byte column on DBRoots 1 and 2. -/
def appendExtent : Call := .createColumnExtentDBroot 3000 8 (rootsOf 1 2) .bigint 0

/-- An extent in the same segment file on DBRoots 1 and 3. -/
def exactExtent : Call := .createColumnExtentExactFile 3000 8 (rootsOf 1 3) 0 0 .bigint

def oneExtent : Map := (appendExtent.run oneFile fresh).2.confirmChanges
def twoExtents : Map := (exactExtent.run oneFile oneExtent).2.confirmChanges
def threeExtents : Map := (appendExtent.run oneFile twoExtents).2.confirmChanges

lemma appendExtent_widths : appendExtent.widthsValid := by
  simp [appendExtent, Call.widthsValid, columnWidths]

/-- The second extent of the column goes behind the first, into the same segment file. -/
theorem laidOut_lookups_appended :
    let appended := (appendExtent.run oneFile oneExtent).2.confirmChanges
    (live appended 0).map (fun e => (e.range, e.segmentNum, e.blockOffset)) =
        some (⟨0, 8⟩, 0, 0) ∧
      (live appended 1).map (fun e => (e.range, e.segmentNum, e.blockOffset)) =
        some (⟨8192, 8⟩, 0, 8192) ∧
      NoOverlap appended ∧ LookupsInverse appended := by
  have bare : ColumnFits fresh 3000 8 (rootsOf 1 2) 0 := by
    refine ⟨by decide, by simp [live_fresh], by simp [live_fresh], fun l last isLast => ?_⟩
    have here := isLast.here
    simp [live_fresh] at here
  have first : LaidOut oneFile (fun _ => 8) (Fits oneFile (fun _ => 8)) oneExtent :=
    .step appendExtent .fresh trivial appendExtent_widths rfl trivial bare (by decide +kernel)
  have only : ∀ {i e}, live oneExtent i = some e →
      e.dbRoots = rootsOf 1 2 ∧ e.segmentNum = 0 ∧ e.blockOffset = 0 := fun here =>
    of_decide_eq_true (live_all (fun _ e => decide (e.dbRoots = rootsOf 1 2 ∧ e.segmentNum = 0 ∧
      e.blockOffset = 0)) (laidOut_layout first).valid (by decide +kernel) here)
  have fits : ColumnFits oneExtent 3000 8 (rootsOf 1 2) 0 := by
    refine ⟨by decide, fun _ _ _ _ _ _ there _ => (only there).1,
      fun _ _ _ here _ _ => by rw [(only here).2.1]; decide, fun l last isLast => ⟨?_, ?_⟩⟩
    · intro _ _ here _ _
      rw [(only here).2.1]
      decide
    · rw [(only isLast.here).2.2]
      decide
  exact ⟨by decide +kernel, by decide +kernel, laidOut_lookups
    (.step appendExtent first trivial appendExtent_widths rfl trivial fits (by decide +kernel))⟩

/-- The column creation does not see the extent on the other set of DBRoots. -/
theorem extents_share_blocks : LaidOut oneFile (fun _ => 8) (fun _ _ => True) threeExtents ∧
    ¬ NoOverlap threeExtents := by
  have widths : exactExtent.widthsValid := by
    simp [exactExtent, Call.widthsValid, columnWidths]
  have names : NamesFirstRoot oneExtent exactExtent := by
    have valid : Valid oneExtent := confirmChanges_valid (run_valid appendExtent fresh_valid
      appendExtent_widths)
    exact fun i e here _ => of_decide_eq_true (live_all (fun _ e => decide (e.dbRoots.get 0 = 1))
      valid (by decide +kernel) here)
  have places : (live threeExtents 1).map (fun e => (e.fileID, e.partitionNum, e.segmentNum,
        e.blockOffset, e.range.size)) = some (3000, 0, 0, 8192, 8) ∧
      (live threeExtents 2).map (fun e => (e.fileID, e.partitionNum, e.segmentNum,
        e.blockOffset, e.range.size)) = some (3000, 0, 0, 8192, 8) := by decide +kernel
  constructor
  · exact .step appendExtent (.step exactExtent
        (.step appendExtent .fresh trivial appendExtent_widths rfl trivial trivial
          (by decide +kernel))
        trivial widths rfl names trivial (by decide +kernel))
      trivial appendExtent_widths rfl trivial trivial (by decide +kernel)
  intro separate
  obtain ⟨e, here, same⟩ := Option.map_eq_some_iff.mp places.1
  obtain ⟨e', there, same'⟩ := Option.map_eq_some_iff.mp places.2
  simp only [Prod.mk.injEq] at same same'
  refine separate 1 2 e e' here there ⟨?_, ?_, ?_⟩ (by decide) 8192 ⟨⟨?_, ?_⟩, ⟨?_, ?_⟩⟩ <;> omega

/-- In every map a run leads to, the lookup of an LBID gives its place in the extent that has it,
or nothing if it is free. -/
theorem lookup_finds_or_free {cfg : Config} {s : Map} (reached : Reachable cfg s) {lbid : Int}
    (inside : lbid ∈ lbidSpace) :
    (∃ i e, live s i = some e ∧ lbid ∈ blocks e.range ∧ lookupLocalByLbid lbid s =
      .ok (some ⟨e.fileID, e.dbRoots, e.partitionNum, e.segmentNum,
        u32 (e.blockOffset + (lbid - e.range.start).toNat)⟩)) ∨
    (∃ j, lbid ∈ blocks (fFreeList s j)) ∧ lookupLocalByLbid lbid s = .ok none := by
  have valid := reachable_valid reached
  obtain ⟨i | j, owner⟩ := valid.tiling.covered lbid inside
  · have used := live_of_used (s := s) (i := i) fun unused => by
      simp [cell, blocks_eq_empty unused] at owner
    exact .inl ⟨i, _, used, owner, lookupLocalByLbid_found valid used owner⟩
  · refine .inr ⟨⟨j, owner⟩, ?_⟩
    rw [lookupLocalByLbid, if_neg (not_lt.mpr inside.1)]
    cases found : firstIndex _ (emEntries s) with
    | none => rfl
    | some i =>
      have taken := of_decide_eq_true (firstIndex_eq_some found).1
      cases valid.tiling.disjoint lbid (.inl i) (.inr j)
        (mem_blocks.mpr ⟨taken.2.1, by omega⟩) owner

/-- With one extent of 8192 blocks, LBID 5 has its place in it and LBID 8192 is free. -/
theorem oneExtent_lookups :
    lookupLocalByLbid 5 oneExtent = .ok (some ⟨3000, rootsOf 1 2, 0, 0, 5⟩) ∧
    lookupLocalByLbid 8192 oneExtent = .ok none := by
  have reached : Reachable oneFile oneExtent :=
    .step appendExtent .fresh appendExtent_widths (by decide +kernel)
  have only : ∀ {i e}, live oneExtent i = some e → e.range = ⟨0, 8⟩ ∧ e.fileID = 3000 ∧
      e.dbRoots = rootsOf 1 2 ∧ e.partitionNum = 0 ∧ e.segmentNum = 0 ∧ e.blockOffset = 0 :=
    fun here => of_decide_eq_true (live_all (fun _ e => decide (e.range = ⟨0, 8⟩ ∧
      e.fileID = 3000 ∧ e.dbRoots = rootsOf 1 2 ∧ e.partitionNum = 0 ∧ e.segmentNum = 0 ∧
      e.blockOffset = 0)) (reachable_valid reached) (by decide +kernel) here)
  constructor
  · rcases lookup_finds_or_free reached (show (5 : Int) ∈ lbidSpace by constructor <;> decide) with
      ⟨i, e, used, -, found⟩ | ⟨⟨j, free⟩, -⟩
    · obtain ⟨range, object, roots, part, seg, offset⟩ := only used
      rw [found, range, object, roots, part, seg, offset]
      rfl
    -- The extent has the LBID, so no free range has it.
    · obtain ⟨e, used⟩ := Option.isSome_iff_exists.mp
        (show (live oneExtent 0).isSome = true by decide +kernel)
      have taken : (5 : Int) ∈ blocks e.range := by
        rw [(only used).1, mem_blocks]
        decide
      cases (reachable_valid reached).tiling.disjoint 5 (.inl 0) (.inr j)
        (by rwa [cell, (live_eq_some.mp used).1]) free
  · rcases lookup_finds_or_free reached
      (show (8192 : Int) ∈ lbidSpace by constructor <;> decide) with
      ⟨i, e, used, inside, -⟩ | ⟨-, missing⟩
    · rw [(only used).1, mem_blocks] at inside
      exact absurd inside (by decide)
    · exact missing

end ExtentLayout
