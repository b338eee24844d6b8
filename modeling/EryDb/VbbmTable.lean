import EryDb.VssTable
import EryDb.Vbbm

/-!
# The functions of the version buffer block map on a sound table

The effect of each function on the multiset of entries and on the files. Growing copies
only the slots below the recorded size: a full table is copied whole, but one that grows
for a request or for a file may lose the entries behind a hole.
-/

namespace Vbbm

open ImageUndo ImageUndo.Undoable SlotScan HashChains SlotTable

variable {hasher : Int → Int → Nat} {s : VBBM} {lbid verID : Int}

abbrev Copies := Multiset (Entry VbbmData)

lemma initShmseg_sound : Sound (vbbmLayout hasher) initShmseg := by
  refine empty_sound ?_ (fun _ => rfl) (fun _ hu => hu rfl) rfl ?_
  · simp [field, initShmseg, clean, tableInitialCount]
  · simp [field, initShmseg, clean]

lemma contents_initShmseg : contents initShmseg = 0 := empty_contents fun _ hu => hu rfl

/-- What a function that may grow the table leaves of the entries. -/
structure Shrunk (hasher : Int → Int → Nat) (s t : VBBM) : Prop where
  sound : Sound (vbbmLayout hasher) t
  contents : contents t ≤ contents s
  size : field t .currentSize = field s .currentSize

variable (hs : Sound (vbbmLayout hasher) s)
include hs

lemma Shrunk.refl : Shrunk hasher s s := ⟨hs, le_rfl, rfl⟩

omit hs in
lemma Shrunk.trans {t u : VBBM} (first : Shrunk hasher s t) (second : Shrunk hasher t u) :
    Shrunk hasher s u :=
  ⟨second.sound, second.contents.trans first.contents, second.size.trans first.size⟩

lemma growVBBM_shrunk : Shrunk hasher s (growVBBM hasher s) := by
  have image : (growVBBM hasher s).image = grown (vbbmLayout hasher) s := rfl
  obtain ⟨kept, entries⟩ := grown_sound hs (by simp [vbbmLayout]) image
  obtain ⟨fields, -⟩ := grown_fields hs (by simp [vbbmLayout]) image
  refine ⟨kept, ?_, by simp [fields]⟩
  rw [entries]
  exact contentsBelow_le hs.size

lemma growVBBM_fields :
    field (growVBBM hasher s) .capacity = field s .capacity + storageIncrementCount ∧
      field (growVBBM hasher s) .ownCount = field s .ownCount ∧
      ∀ k, files (growVBBM hasher s) k = files s k := by
  obtain ⟨fields, he⟩ := grown_fields hs (by simp [vbbmLayout])
    (show (growVBBM hasher s).image = grown (vbbmLayout hasher) s from rfl)
  exact ⟨by simp [fields, vbbmLayout], by simp [fields], he⟩

lemma growVBBM_full (full : field s .currentSize = field s .capacity) :
    contents (growVBBM hasher s) = contents s := by
  obtain ⟨-, entries⟩ := grown_sound hs (by simp [vbbmLayout])
    (show (growVBBM hasher s).image = grown (vbbmLayout hasher) s from rfl)
  rw [entries, full, contents]

omit hs in
lemma fileLayout_sound : Sound (fileLayout hasher) s ↔ Sound (vbbmLayout hasher) s :=
  ⟨fun h => ⟨⟨h.buckets, h.chains, h.low, h.lwm⟩, h.count, h.size⟩,
    fun h => ⟨⟨h.buckets, h.chains, h.low, h.lwm⟩, h.count, h.size⟩⟩

lemma growVBBMByFiles_spec (addAFile : Nat) : Shrunk hasher s (growVBBMByFiles hasher addAFile s) ∧
      field (growVBBMByFiles hasher addAFile s) .capacity = field s .capacity ∧
      field (growVBBMByFiles hasher addAFile s) .ownCount = field s .ownCount + addAFile ∧
      ∀ k, files (growVBBMByFiles hasher addAFile s) k = files s k := by
  set t : VBBM := clean (grown (fileLayout hasher) s) with copy
  have image : t.image = grown (fileLayout hasher) s := rfl
  have step : (fileLayout hasher).lwmStep ≤ 1 := by simp [fileLayout, vbbmLayout]
  obtain ⟨kept, entries⟩ := grown_sound (fileLayout_sound.mpr hs) step image
  obtain ⟨fields, he⟩ := grown_fields (fileLayout_sound.mpr hs) step image
  have grows : growVBBMByFiles hasher addAFile s =
      putField t .ownCount (field s .ownCount + addAFile) := rfl
  have chains : SameChains t (putField t .ownCount (field s .ownCount + addAFile)) := by
    refine ⟨fun f _ own => by simp [own], ?_, ?_, ?_, ?_⟩ <;> simp
  rw [grows]
  refine ⟨⟨chains.sound (by simp) (fileLayout_sound.mp kept), ?_, ?_⟩, ?_, ?_, fun k => ?_⟩
  · rw [contents_congr (t := putField t .ownCount (field s .ownCount + addAFile)) (s := t)
      (by simp) (by simp), entries]
    exact contentsBelow_le hs.size
  · simp [fields]
  · simp [fields, fileLayout]
  · simp
  · simp [he]

omit hs in
lemma initFiles_spec (fileBlocks len count : Nat) (s : VBBM) :
    SameChains s (initFiles fileBlocks len count s) ∧
      (∀ i, storage (initFiles fileBlocks len count s) i = storage s i) ∧
      (∀ f, field (initFiles fileBlocks len count s) f = field s f) ∧
      ∀ k, files (initFiles fileBlocks len count s) k =
        if len ≤ k ∧ k < len + count then ⟨k + 1, fileBlocks, 0⟩ else files s k := by
  refine forEach_invariant (fun n t => SameChains s t ∧ (∀ i, storage t i = storage s i) ∧
    (∀ f, field t f = field s f) ∧ ∀ k, files t k =
      if len ≤ k ∧ k < len + n then ⟨k + 1, fileBlocks, 0⟩ else files s k)
    ⟨SameChains.refl s, fun _ => rfl, fun _ => rfl, fun k => by rw [if_neg (by omega)]⟩ ?_
  rintro n t - ⟨chains, slots, fields, hfil⟩
  refine ⟨chains.trans ?_, fun i => by simp [slots], fun f => by simp [fields], fun k => ?_⟩
  · constructor <;> intros <;> simp
  rw [files_putFile, hfil]
  by_cases hh : k = len + n
  · subst hh
    simp
  · have : k < len + (n + 1) ↔ k < len + n := by omega
    rw [if_neg hh]
    simp only [this]

/-- The files that are added start empty, and the others stay. -/
lemma addVBFileIfNotExists_spec (fileBlocks vbOID : Nat) :
    Shrunk hasher s (addVBFileIfNotExists hasher fileBlocks vbOID s) ∧
      field (addVBFileIfNotExists hasher fileBlocks vbOID s) .capacity = field s .capacity ∧
      field (addVBFileIfNotExists hasher fileBlocks vbOID s) .ownCount =
        max (field s .ownCount) vbOID ∧
      ∀ k, files (addVBFileIfNotExists hasher fileBlocks vbOID s) k =
        if field s .ownCount ≤ k ∧ k < vbOID then ⟨k + 1, fileBlocks, 0⟩ else files s k := by
  rw [addVBFileIfNotExists]
  by_cases missing : field s .ownCount < vbOID
  · simp only [if_pos missing]
    obtain ⟨shape, hcap, own, he⟩ := growVBBMByFiles_spec hs (vbOID - field s .ownCount)
    obtain ⟨chains, slots, fields, hfil⟩ := initFiles_spec fileBlocks (field s .ownCount)
      (vbOID - field s .ownCount) (growVBBMByFiles hasher (vbOID - field s .ownCount) s)
    refine ⟨⟨chains.sound (fields _) shape.sound, ?_, ?_⟩, ?_, ?_, fun k => ?_⟩
    · rw [contents_congr (fields _) slots]
      exact shape.contents
    · rw [fields, shape.size]
    · rw [fields, hcap]
    · rw [fields, own]
      omega
    · have reach : field s .ownCount + (vbOID - field s .ownCount) = vbOID := by omega
      rw [hfil, reach, he]
  · simp only [if_neg missing]
    refine ⟨Shrunk.refl hs, trivial, by omega, fun k => ?_⟩
    rw [if_neg (by omega)]

omit hs in
lemma undoRecords_initFiles (fileBlocks len count : Nat) (s : VBBM) :
    (initFiles fileBlocks len count s).undoRecords = s.undoRecords ∧
      (initFiles fileBlocks len count s).dangling = s.dangling :=
  forEach_preserves (fun t : VBBM => t.undoRecords = s.undoRecords ∧ t.dangling = s.dangling)
    ⟨rfl, rfl⟩ fun _ _ _ he => he

/-- A table that is the same or has grown, with its log forgotten. -/
structure Widened (hasher : Int → Int → Nat) (s t : VBBM) : Prop where
  shrunk : Shrunk hasher s t
  capacity : field s .capacity ≤ field t .capacity
  files : field s .ownCount ≤ field t .ownCount
  grown : t = s ∨ (t.undoRecords = [] ∧ t.dangling = 0 ∧
    (field s .capacity < field t .capacity ∨ field s .ownCount < field t .ownCount))

lemma Widened.refl : Widened hasher s s :=
  ⟨Shrunk.refl hs, le_rfl, le_rfl, Or.inl rfl⟩

omit hs in
lemma Widened.trans {t u : VBBM} (first : Widened hasher s t) (second : Widened hasher t u) :
    Widened hasher s u := by
  have hcap := first.capacity.trans second.capacity
  have files := first.files.trans second.files
  refine ⟨first.shrunk.trans second.shrunk, hcap, files, ?_⟩
  have hb := first.capacity
  have hb' := first.files
  have ha := second.capacity
  have ha' := second.files
  rcases second.grown with rfl | ⟨records, dangling, larger⟩
  · exact first.grown
  · exact Or.inr ⟨records, dangling, by omega⟩

lemma growVBBM_widened : Widened hasher s (growVBBM hasher s) := by
  obtain ⟨hcap, own, -⟩ := growVBBM_fields hs
  have more : field s .capacity < field (growVBBM hasher s) .capacity := by
    rw [hcap, storageIncrementCount]
    omega
  exact ⟨growVBBM_shrunk hs, more.le, own.ge, Or.inr ⟨rfl, rfl, Or.inl more⟩⟩

lemma addVBFileIfNotExists_widened (fileBlocks vbOID : Nat) :
    Widened hasher s (addVBFileIfNotExists hasher fileBlocks vbOID s) := by
  obtain ⟨shape, hcap, own, -⟩ := addVBFileIfNotExists_spec hs fileBlocks vbOID
  refine ⟨shape, hcap.ge, by omega, ?_⟩
  by_cases missing : field s .ownCount < vbOID
  · right
    have grows : field s .ownCount <
        field (addVBFileIfNotExists hasher fileBlocks vbOID s) .ownCount := by
      omega
    simp only [addVBFileIfNotExists, if_pos missing] at grows ⊢
    obtain ⟨records, dangling⟩ := undoRecords_initFiles fileBlocks (field s .ownCount)
      (vbOID - field s .ownCount) (growVBBMByFiles hasher (vbOID - field s .ownCount) s)
    exact ⟨records, dangling, Or.inr grows⟩
  · left
    simp only [addVBFileIfNotExists, if_neg missing]

lemma growFor_widened (num fuel : Nat) : Widened hasher s (growFor hasher num fuel s) := by
  induction fuel generalizing s with
  | zero => exact Widened.refl hs
  | succ fuel ih =>
    rw [growFor]
    split
    · have grown := growVBBM_widened hs
      exact grown.trans (ih grown.shrunk.sound)
    · exact Widened.refl hs

lemma checkResize_spec : Sound (vbbmLayout hasher) (checkResize hasher s) ∧
      contents (checkResize hasher s) = contents s ∧
      field (checkResize hasher s) .currentSize < field (checkResize hasher s) .capacity ∧
      field (checkResize hasher s) .currentSize = field s .currentSize ∧
      ∀ k, files (checkResize hasher s) k = files s k := by
  rw [checkResize]
  split
  case isTrue full =>
    have shape := growVBBM_shrunk hs
    obtain ⟨hcap, -, he⟩ := growVBBM_fields hs
    refine ⟨shape.sound, growVBBM_full hs full, ?_, shape.size, he⟩
    rw [hcap, shape.size, storageIncrementCount]
    omega
  case isFalse room =>
    have := hs.size
    exact ⟨hs, rfl, by omega, rfl, fun _ => rfl⟩

omit hs in
lemma insert_spec (verID : Int) (data : VbbmData) (loading : Bool)
    (hs : Sound (vbbmLayout hasher) s) (real : lbid ≠ -1) :
    Sound (vbbmLayout hasher) (insert hasher lbid verID data loading s) ∧
      contents (insert hasher lbid verID data loading s) = ⟨lbid, verID, data⟩ ::ₘ contents s ∧
      field (insert hasher lbid verID data loading s) .currentSize = field s .currentSize + 1 ∧
      ∀ k, files (insert hasher lbid verID data loading s) k = files s k := by
  obtain ⟨wide, entries, room, size, he⟩ := checkResize_spec hs
  have chains :
    SameChains (putField (insertEntry (vbbmLayout hasher) loading ⟨lbid, verID, data, none⟩
        (checkResize hasher s)) .currentSize (field (checkResize hasher s) .currentSize + 1))
      (insert hasher lbid verID data loading s) := by
    simp only [insert]
    refine ⟨fun f _ _ => ?_, fun b => ?_, fun i => ?_, fun i => ?_, fun i => ?_⟩ <;>
      cases loading <;> simp [*]
  simp only [← entries, ← size, ← he]
  refine ⟨chains.sound ?_ (entered_sound wide real (by simp [vbbmLayout]) room),
    entered_contents (e := ⟨lbid, verID, data, none⟩) loading wide real room ?_ fun i => ?_, ?_,
    fun k => ?_⟩ <;>
    simp only [insert] <;> cases loading <;> simp

omit hs in
lemma removeEntry_missing (hc : Chained (vbbmLayout hasher) s)
    (missing : ∀ e ∈ contents s, ¬ (e.lbid = lbid ∧ e.verID = verID)) :
    removeEntry hasher lbid verID s = s := by
  rw [removeEntry, (getIndex_eq_none_iff hc).mpr missing]

/-- A removal frees the slot it finds and leaves the entries of the others. -/
lemma used_removeEntry {prev : Option Nat} {index j : Nat}
    (hf : getIndex (vbbmLayout hasher) s lbid verID = some (prev, index))
    (hu : usedSlot (removeEntry hasher lbid verID s) j) : j ≠ index ∧ usedSlot s j ∧
      (storage (removeEntry hasher lbid verID s) j).entry = (storage s j).entry := by
  obtain ⟨pre, post, split, rfl, -⟩ := getIndex_eq_some hf
  have ho : j ≠ index := by
    rintro rfl
    have hap := last_ne_of_split hs.toChained (bucketOf_lt hs.toChained lbid verID) split
    refine absurd ?_ hu
    simp only [removeEntry, hf, storage_discount, storage_recordHeader]
    rw [storage_unlink_self s _ j _ hap]
  have he : (storage (removeEntry hasher lbid verID s) j).entry = (storage s j).entry := by
    simp only [removeEntry, hf, storage_discount, storage_recordHeader]
    rw [storage_unlink_other s _ index _ ho]
    split <;> rfl
  have hn : (storage (removeEntry hasher lbid verID s) j).lbid = (storage s j).lbid :=
    congrArg Entry.lbid he
  exact ⟨ho, fun free => hu (hn.trans free), he⟩

omit hs

lemma usedSlot_of_removeEntry {j : Nat} (hu : usedSlot (removeEntry hasher lbid verID s) j) :
    usedSlot s j := by
  rw [removeEntry] at hu
  split at hu
  · exact hu
  · rename_i prev index _
    simp only [usedSlot, storage_discount, storage_recordHeader] at hu ⊢
    cases prev <;>
      simp only [unlink, storage_putSlot, storage_putBucket, storage_makeUndoRecord] at hu <;>
      split_ifs at hu <;> simp_all

lemma files_removeEntry (lbid verID : Int) (s : VBBM) (k : Nat) :
    files (removeEntry hasher lbid verID s) k = files s k := by
  rw [removeEntry]
  split <;> simp

lemma capacity_removeEntry (lbid verID : Int) (s : VBBM) :
    field (removeEntry hasher lbid verID s) .capacity = field s .capacity := by
  rw [removeEntry]
  split <;> simp

lemma ownCount_removeEntry (lbid verID : Int) (s : VBBM) :
    field (removeEntry hasher lbid verID s) .ownCount = field s .ownCount := by
  rw [removeEntry]
  split <;> simp

/-- One entry of the key goes, if there is any. -/
lemma removeEntry_cases (hs : Sound (vbbmLayout hasher) s) (lbid verID : Int) :
    Sound (vbbmLayout hasher) (removeEntry hasher lbid verID s) ∧
      ((removeEntry hasher lbid verID s = s ∧
          ∀ e ∈ contents s, ¬ (e.lbid = lbid ∧ e.verID = verID)) ∨
        ∃ e, (e.lbid = lbid ∧ e.verID = verID) ∧
          contents s = e ::ₘ contents (removeEntry hasher lbid verID s)) := by
  cases hf : getIndex (vbbmLayout hasher) s lbid verID with
  | none =>
    have missing := (getIndex_eq_none_iff hs.toChained).mp hf
    have he := removeEntry_missing hs.toChained missing
    rw [he]
    exact ⟨hs, Or.inl ⟨rfl, missing⟩⟩
  | some place =>
    obtain ⟨-, -, hn, hver⟩ := getIndex_mem hs.toChained hf
    obtain ⟨kept, entries⟩ := removed_spec hs false hf
    simp only [removeEntry, hf]
    exact ⟨kept, Or.inr ⟨_, ⟨hn, hver⟩, entries⟩⟩

end Vbbm
