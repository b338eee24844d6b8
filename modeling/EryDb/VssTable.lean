import EryDb.SlotTableFrames
import EryDb.Vss

/-!
# The functions of the version substitution structure on a sound table

Every function that writes keeps the table sound, and what it does to the multiset of
entries is stated without the chains. The functions that read walk one chain; what they
answer is stated over the entries of the block.
-/

namespace Vss

open List ImageUndo ImageUndo.Undoable SlotScan HashChains SlotTable

variable {hasher : Int → Nat} {s : VSS} {lbid verID : Int}

abbrev Versions := Multiset (Entry VssData)

lemma initShmseg_sound : Sound (vssLayout hasher) initShmseg := by
  refine empty_sound ?_ (fun _ => rfl) (fun _ hu => hu rfl) rfl ?_
  · simp [field, initShmseg, clean, tableInitialCount]
  · simp [field, initShmseg, clean]

lemma contents_initShmseg : contents initShmseg = 0 := empty_contents fun _ hu => hu rfl

lemma image_growVSS (hasher : Int → Nat) (s : VSS) :
    (growVSS hasher s).image = grown (vssLayout hasher) s := by
  funext a
  simp [growVSS, moveSegment]

/-- A full table is copied whole, so growing loses nothing. -/
lemma growVSS_spec (hs : Sound (vssLayout hasher) s)
    (full : field s .currentSize = field s .capacity) :
    Sound (vssLayout hasher) (growVSS hasher s) ∧ contents (growVSS hasher s) = contents s ∧
      field (growVSS hasher s) .capacity = field s .capacity + storageIncrementCount ∧
      field (growVSS hasher s) .currentSize = field s .currentSize ∧
      field (growVSS hasher s) .ownCount = field s .ownCount := by
  have image := image_growVSS hasher s
  obtain ⟨kept, entries⟩ := grown_sound hs (by simp [vssLayout]) image
  obtain ⟨fields, -⟩ := grown_fields hs (by simp [vssLayout]) image
  refine ⟨kept, ?_, ?_, ?_, ?_⟩
  · rw [entries, full, contents]
  · simp [fields, vssLayout]
  · simp [fields]
  · simp [fields]

/-- The table an insertion writes into has a free slot. -/
lemma checkResize_spec (hs : Sound (vssLayout hasher) s) :
    Sound (vssLayout hasher) (checkResize hasher s) ∧ contents (checkResize hasher s) = contents s ∧
      field (checkResize hasher s) .currentSize < field (checkResize hasher s) .capacity ∧
      field (checkResize hasher s) .currentSize = field s .currentSize ∧
      field (checkResize hasher s) .ownCount = field s .ownCount := by
  rw [checkResize]
  split
  case isTrue full =>
    obtain ⟨kept, entries, hcap, size, own⟩ := growVSS_spec hs full
    refine ⟨kept, entries, ?_, size, own⟩
    rw [hcap, size, storageIncrementCount]
    omega
  case isFalse room =>
    have := hs.size
    exact ⟨hs, rfl, by omega, rfl, rfl⟩

lemma insert_spec (verID : Int) (vbFlag locked loading : Bool)
    (hs : Sound (vssLayout hasher) s) (real : lbid ≠ -1) :
    Sound (vssLayout hasher) (insert hasher lbid verID vbFlag locked loading s) ∧
      contents (insert hasher lbid verID vbFlag locked loading s) =
        ⟨lbid, verID, ⟨vbFlag, locked⟩⟩ ::ₘ contents s ∧
      field (insert hasher lbid verID vbFlag locked loading s) .currentSize =
        field s .currentSize + 1 ∧
      field (insert hasher lbid verID vbFlag locked loading s) .ownCount =
        if locked then field s .ownCount + 1 else field s .ownCount := by
  obtain ⟨wide, entries, room, size, own⟩ := checkResize_spec hs
  have he : SameChains
      (putField (insertEntry (vssLayout hasher) loading ⟨lbid, verID, ⟨vbFlag, locked⟩, none⟩
        (checkResize hasher s)) .currentSize (field (checkResize hasher s) .currentSize + 1))
      (insert hasher lbid verID vbFlag locked loading s) := by
    simp only [insert]
    refine ⟨fun f _ _ => ?_, fun b => ?_, fun i => ?_, fun i => ?_, fun i => ?_⟩ <;>
      cases locked <;> cases loading <;> simp [*]
  rw [← entries, ← size, ← own]
  refine ⟨he.sound ?_ (entered_sound wide real (by simp [vssLayout]) room),
    entered_contents (e := ⟨lbid, verID, ⟨vbFlag, locked⟩, none⟩) loading wide real room ?_
      fun i => ?_, ?_, ?_⟩ <;>
    simp only [insert] <;> cases locked <;> cases loading <;> simp

/-- The home chain of a block does not depend on the version. -/
lemma bucket_eq (s : VSS) (lbid verID : Int) :
    bucketOf (vssLayout hasher) s lbid verID = bucket hasher s lbid := rfl

lemma bucket_lt (hc : Chained (vssLayout hasher) s) (lbid : Int) :
    bucket hasher s lbid < field s .numHashBuckets :=
  bucketOf_lt hc lbid 0

lemma mem_home (hc : Chained (vssLayout hasher) s) {i : Nat}
    (inBound : i < field s .capacity) (hu : usedSlot s i) :
    i ∈ chainOf s (bucket hasher s (storage s i).lbid) :=
  (hc.chains.mem _ (bucket_lt hc _) i).mpr ⟨inBound, hu, rfl⟩

/-- Both counters of the header are right. -/
structure Counted (s : VSS) : Prop where
  used : field s .currentSize = (contents s).card
  locked : field s .ownCount = (contents s).countP (·.data.locked = true)

lemma Counted.remove {e : Entry VssData} {t : VSS} (counted : Counted s)
    (entries : contents s = e ::ₘ contents t)
    (size : field t .currentSize = field s .currentSize - 1)
    (own : field t .ownCount = if e.data.locked = true ∧ 0 < field s .ownCount then
      field s .ownCount - 1 else field s .ownCount) : Counted t := by
  obtain ⟨all, locked⟩ := counted
  rw [entries, Multiset.card_cons] at all
  rw [entries, Multiset.countP_cons] at locked
  refine ⟨by omega, ?_⟩
  split_ifs at locked with held
  · rw [own, if_pos ⟨held, by omega⟩, locked, Nat.add_sub_cancel]
  · rw [own, if_neg fun both => held both.1, locked]
    rfl

section Sweep

variable {Other : Type} {onRemove : VSSEntry → Other → Other}

/-- Taking any entry of a block out of its chain keeps a property. -/
def KeptByRemoval (hasher : Int → Nat) (lbid : Int) (P : VSS → Prop) : Prop :=
  ∀ (s : VSS) (pre post : List Nat) (i : Nat), Sound (vssLayout hasher) s →
    chainOf s (bucket hasher s lbid) = pre ++ i :: post → (storage s i).lbid = lbid → P s →
    P (discount (storage s i).data.locked i (unlink pre.getLast? i (bucket hasher s lbid) s))

/-- The entries of a block are gone, each handed to `onRemove`. -/
structure Cleared (hasher : Int → Nat) (onRemove : VSSEntry → Other → Other) (lbid : Int) (s : VSS)
    (ho : Other) (r : VSS × Other) : Prop where
  sound : Sound (vssLayout hasher) r.1
  left : contents r.1 = (contents s).filter (fun e => e.lbid ≠ lbid)
  gone : ∃ gone : List VSSEntry,
    (gone.map Slot.entry : Versions) = (contents s).filter (fun e => e.lbid = lbid) ∧
      r.2 = gone.foldl (fun ho e => onRemove e ho) ho
  keeps : ∀ P, KeptByRemoval hasher lbid P → P s → P r.1

/-- A chain of which the sweep has passed `pre` and has `post` ahead. -/
lemma sweep_spec (fuel : Nat) (ho : Other) (pre : List Nat) {post : List Nat}
    (hs : Sound (vssLayout hasher) s) (split : chainOf s (bucket hasher s lbid) = pre ++ post)
    (clear : ∀ j ∈ pre, (storage s j).lbid ≠ lbid) (hen : post.length ≤ fuel) :
    Cleared hasher onRemove lbid s ho (sweep onRemove lbid (bucket hasher s lbid) fuel
      pre.getLast? post.head? (s, ho)) := by
  have inBound := bucket_lt hs.toChained lbid
  induction post generalizing s ho pre fuel with
  | nil =>
    have hab : ∀ e ∈ contents s, e.lbid ≠ lbid := by
      intro e hm
      obtain ⟨i, hi, hu, rfl⟩ := mem_contents.mp hm
      rintro rfl
      refine clear i ?_ rfl
      have home := mem_home hs.toChained hi hu
      rw [Slot.entry] at split
      rwa [split, append_nil] at home
    have rest : sweep onRemove lbid (bucket hasher s lbid) fuel pre.getLast? none (s, ho) =
        (s, ho) := by
      cases fuel <;> rfl
    rw [head?_nil, rest]
    exact ⟨hs, (Multiset.filter_eq_self.mpr hab).symm,
      ⟨[], (Multiset.filter_eq_nil.mpr hab).symm, rfl⟩,
      fun _ _ start => start⟩
  | cons i post ih =>
    obtain ⟨fuel, rfl⟩ : ∃ k, fuel = k + 1 := ⟨fuel - 1, by simp at hen; omega⟩
    have next := hs.chains.linked _ inBound
    rw [split] at next
    have next := next.next_eq
    simp only [length_cons, Nat.add_le_add_iff_right] at hen
    simp only [head?_cons, sweep]
    split_ifs with hn
    · set t := discount (storage s i).data.locked i
        (unlink pre.getLast? i (bucket hasher s lbid) s) with ha
      have kept : Sound (vssLayout hasher) t := removed_sound hs _ inBound split
      obtain ⟨-, chains, -⟩ := unlink_chained (storage s i).data.locked hs.toChained inBound split
      have entries := contents_unlink (storage s i).data.locked hs.toChained inBound split
      rw [← ha] at entries
      have hap := last_ne_of_split hs.toChained inBound split
      have still : bucket hasher t lbid = bucket hasher s lbid := by simp [bucket, ha]
      have pointer : (storage t i).next = post.head? := by
        rw [ha, storage_discount, storage_unlink_self s _ i _ hap, ← next]
      have remain : ∀ j ∈ pre, (storage t j).lbid ≠ lbid := by
        intro j hm
        have ho : j ≠ i := by
          rintro rfl
          exact clear j hm hn
        rw [ha, storage_discount, storage_unlink_other s _ i _ ho]
        split <;> exact clear j hm
      have shorter : chainOf t (bucket hasher t lbid) = pre ++ post := by
        rw [still, ha, chains _ inBound, if_pos rfl]
      obtain ⟨fine, filtered, ⟨gone, he, hfo⟩, keeps⟩ := ih fuel
        (onRemove (storage s i) ho) pre kept shorter remain hen (bucket_lt kept.toChained lbid)
      rw [still] at fine filtered hfo keeps
      rw [pointer]
      refine ⟨fine, ?_, ⟨storage s i :: gone, ?_, ?_⟩, fun P closed start => ?_⟩
      · rw [filtered, entries, Multiset.filter_cons_of_neg _ (by simpa [Slot.entry] using hn)]
      · rw [entries, Multiset.filter_cons_of_pos _ (by simpa [Slot.entry] using hn), ← he]
        rfl
      · rw [hfo, foldl_cons]
      · exact keeps P closed (closed s pre post i hs split hn start)
    · rw [next]
      have last : (pre ++ [i]).getLast? = some i := by simp
      rw [← last]
      refine ih fuel ho (pre ++ [i]) hs (by rw [split]; simp) ?_ hen inBound
      intro j hm
      rcases mem_append.mp hm with old | new
      · exact clear j old
      · rw [mem_singleton.mp new]
        exact hn

/-- The sweep of a whole chain leaves no entry of the block. -/
lemma sweep_whole (onRemove : VSSEntry → Other → Other) (lbid : Int)
    (hs : Sound (vssLayout hasher) s) (ho : Other) :
    Cleared hasher onRemove lbid s ho (sweep onRemove lbid (bucket hasher s lbid)
      (field s .capacity) none (hashBuckets s (bucket hasher s lbid)) (s, ho)) := by
  have inBound := bucket_lt hs.toChained lbid
  rw [head_of_chain hs.toChained inBound]
  exact sweep_spec (field s .capacity) ho [] hs rfl (by simp) (chain_length_le hs.toChained inBound)

lemma Cleared.counted {ho : Other} {r : VSS × Other}
    (cleared : Cleared hasher onRemove lbid s ho r) (counted : Counted s) : Counted r.1 :=
  cleared.keeps Counted (fun _ _ _ _ hs split _ counted => counted.remove
    (contents_unlink _ hs.toChained (bucket_lt hs.toChained lbid) split) (by simp)
    (by simp only [field_discount, field_unlink]; rfl)) counted

end Sweep

/-- A walk of the home chain of a block meets the entries of the block. -/
lemma mem_chainEntries_iff (hc : Chained (vssLayout hasher) s) {e : Entry VssData} :
    (∃ x ∈ chainEntries hasher s lbid, x.lbid = lbid ∧ x.entry = e) ↔
      e ∈ contents s ∧ e.lbid = lbid := by
  simp only [chainEntries, mem_map]
  constructor
  · rintro ⟨x, ⟨i, hm, rfl⟩, hn, rfl⟩
    obtain ⟨hi, hu, -⟩ := (hc.chains.mem _ (bucket_lt hc lbid) i).mp hm
    exact ⟨mem_contents.mpr ⟨i, hi, hu, rfl⟩, hn⟩
  · rintro ⟨hm, rfl⟩
    obtain ⟨i, hi, hu, rfl⟩ := mem_contents.mp hm
    exact ⟨_, ⟨i, mem_home hc hi hu, rfl⟩, rfl, rfl⟩

/-- Some entry of the block still has to be kept. -/
def Busy (lbid : Int) (c : Versions) : Prop :=
  ∃ e ∈ c, e.lbid = lbid ∧ (e.data.vbFlag = true ∨ e.data.locked = true)

instance (lbid : Int) (c : Versions) : Decidable (Busy lbid c) := Multiset.decidableExistsMultiset

/-- What is left once a block none of whose entries is needed is dropped. -/
def collected (lbid : Int) (c : Versions) : Versions :=
  if Busy lbid c then c else c.filter (fun e => e.lbid ≠ lbid)

lemma any_busy (lbid : Int) (hc : Chained (vssLayout hasher) s) :
    ((chainOf s (bucket hasher s lbid)).map (storage s)).any (fun e => decide (e.lbid = lbid ∧
      (e.data.vbFlag = true ∨ e.data.locked = true))) = true ↔ Busy lbid (contents s) := by
  rw [any_eq_true]
  constructor
  · rintro ⟨x, hm, hd⟩
    obtain ⟨hn, hnd⟩ := of_decide_eq_true hd
    obtain ⟨hi, -⟩ := (mem_chainEntries_iff hc).mp ⟨x, hm, hn, rfl⟩
    exact ⟨x.entry, hi, hn, hnd⟩
  · rintro ⟨e, hm, hn, hnd⟩
    obtain ⟨x, hi, hk, rfl⟩ := (mem_chainEntries_iff hc).mpr ⟨hm, hn⟩
    exact ⟨x, hi, decide_eq_true ⟨hk, hnd⟩⟩

lemma removeEntry_missing (hc : Chained (vssLayout hasher) s)
    (missing : ∀ e ∈ contents s, ¬ (e.lbid = lbid ∧ e.verID = verID)) :
    removeEntry hasher lbid verID s = s := by
  rw [removeEntry, (getIndex_eq_none_iff hc).mpr missing]

variable (hs : Sound (vssLayout hasher) s)
include hs

lemma removeEntry_spec {prev : Option Nat} {index : Nat}
    (hf : getIndex (vssLayout hasher) s lbid verID = some (prev, index)) :
    Sound (vssLayout hasher) (removeEntry hasher lbid verID s) ∧
      (Counted s → Counted (removeEntry hasher lbid verID s)) ∧ ∃ rest, contents s =
        (storage s index).entry ::ₘ rest ∧
        contents (removeEntry hasher lbid verID s) = collected lbid rest := by
  obtain ⟨kept, entries⟩ := removed_spec hs (storage s index).data.locked hf
  rw [bucket_eq] at kept entries
  set t := discount (storage s index).data.locked index
    (recordHeader (unlink prev index (bucket hasher s lbid) s)) with ha
  have still : bucket hasher t lbid = bucket hasher s lbid := by simp [bucket, ha]
  have counts (counted : Counted s) : Counted t := counted.remove entries (by simp [ha]) <| by
    simp only [ha, field_discount, field_recordHeader, field_unlink]
    rfl
  have busy := any_busy lbid kept.toChained
  rw [still] at busy
  simp only [removeEntry, hf, ← ha]
  by_cases hnd : Busy lbid (contents t)
  · rw [if_pos (busy.mpr hnd)]
    exact ⟨kept, counts, _, entries, by rw [collected, if_pos hnd]⟩
  · have swept := sweep_whole (fun _ _ => ()) lbid kept ()
    rw [still] at swept
    rw [if_neg fun any => hnd (busy.mp any)]
    exact ⟨swept.sound, fun counted => swept.counted (counts counted), _, entries,
      by rw [collected, if_neg hnd]; exact swept.left⟩

lemma removeEntry_sound (lbid verID : Int) :
    Sound (vssLayout hasher) (removeEntry hasher lbid verID s) := by
  cases hf : getIndex (vssLayout hasher) s lbid verID with
  | none =>
    rw [removeEntry, hf]
    exact hs
  | some place => exact (removeEntry_spec hs hf).1

omit hs in
lemma setVBFlag_spec {vbFlag : Bool} {t : VSS} (hs : Sound (vssLayout hasher) s)
    (set : setVBFlag hasher lbid verID vbFlag s = some t) : ∃ prev index rest,
      getIndex (vssLayout hasher) s lbid verID = some (prev, index) ∧ Sound (vssLayout hasher) t ∧
      SameChains s t ∧ (∀ f, field t f = field s f) ∧
      contents s = (storage s index).entry ::ₘ rest ∧
      contents t = ⟨lbid, verID, ⟨vbFlag, (storage s index).data.locked⟩⟩ ::ₘ rest ∧
      ∀ i, storage t i = if i = index then
        { storage s index with data := { (storage s index).data with vbFlag := vbFlag } }
        else storage s i := by
  rw [setVBFlag] at set
  split at set
  · cases set
  rename_i prev index hf
  obtain ⟨inBound, hu, hn, hver⟩ := getIndex_mem hs.toChained hf
  have ha := (Option.some.inj set).symm
  have slots : ∀ i, storage t i = if i = index then
      { storage s index with data := { (storage s index).data with vbFlag := vbFlag } }
      else storage s i := by
    intro i
    rw [ha, storage_putSlot, storage_makeUndoRecord]
  have he : SameChains s t := by
    refine ⟨fun f _ _ => by simp [ha], fun b => by simp [ha], fun i => ?_, fun i => ?_,
      fun i => ?_⟩ <;> rw [slots] <;> split <;> simp [*]
  obtain ⟨rest, hb, afterwards⟩ := he.contents_exchange inBound hu (fun j ho => by
    rw [slots, if_neg ho])
  refine ⟨prev, index, rest, hf, he.sound (by simp [ha]) hs, he,
    fun f => by simp [ha], hb, ?_, slots⟩
  rw [afterwards, slots, if_pos rfl, Slot.entry, hn, hver]

lemma setVBFlag_sound {vbFlag : Bool} {t : VSS}
    (set : setVBFlag hasher lbid verID vbFlag s = some t) : Sound (vssLayout hasher) t := by
  obtain ⟨_, _, _, -, fine, -⟩ := setVBFlag_spec hs set
  exact fine

omit hs

/-- What a commit does to one entry. -/
def unlocked (txnID : Int) (e : Entry VssData) : Entry VssData :=
  if e.verID = txnID then { e with data := { e.data with locked := false } } else e

lemma storage_uncountLocked (s : VSS) (i : Nat) : storage (uncountLocked s) i = storage s i := by
  rw [uncountLocked]
  split <;> simp

lemma uncountLocked_same (s : VSS) : SameChains s (uncountLocked s) ∧
    field (uncountLocked s) .currentSize = field s .currentSize := by
  rw [uncountLocked]
  split
  · refine ⟨⟨fun f _ own => by simp [own], ?_, ?_, ?_, ?_⟩, ?_⟩ <;> simp
  · exact ⟨SameChains.refl s, rfl⟩

lemma commitStep_spec (txnID : Int) (i : Nat) (s : VSS) : (SameChains s (commitStep txnID i s) ∧
      field (commitStep txnID i s) .currentSize = field s .currentSize) ∧
      ∀ j, storage (commitStep txnID i s) j =
        if j = i ∧ usedSlot s j ∧ (storage s j).verID = txnID then unlockEntry (storage s j)
        else storage s j := by
  rw [commitStep]
  split_ifs with hit
  · have slots : ∀ j, storage (putSlot (s.makeUndoRecord (.slot i)) i
        (unlockEntry (storage s i))) j = if j = i then unlockEntry (storage s i) else storage s j :=
      fun j => by simp
    have marked : SameChains s (putSlot (s.makeUndoRecord (.slot i)) i
        (unlockEntry (storage s i))) := by
      refine ⟨fun f _ _ => by simp, fun b => by simp, fun j => ?_, fun j => ?_, fun j => ?_⟩ <;>
        rw [slots] <;> split <;> simp [*, unlockEntry]
    obtain ⟨he, size⟩ := uncountLocked_same (putSlot (s.makeUndoRecord (.slot i)) i
      (unlockEntry (storage s i)))
    refine ⟨⟨marked.trans he, size.trans (by simp)⟩, fun j => ?_⟩
    rw [storage_uncountLocked, slots]
    by_cases hh : j = i
    · subst hh
      rw [if_pos rfl, if_pos ⟨rfl, hit⟩]
    · rw [if_neg hh, if_neg fun all => hh all.1]
  · refine ⟨⟨SameChains.refl s, rfl⟩, fun j => (if_neg ?_).symm⟩
    rintro ⟨rfl, hu, hver⟩
    exact hit ⟨hu, hver⟩

lemma commit_spec (txnID : Int) (s : VSS) :
    (SameChains s (commit txnID s) ∧ field (commit txnID s) .currentSize = field s .currentSize) ∧
      contents (commit txnID s) = (contents s).map (unlocked txnID) := by
  have hsc : (SameChains s (commit txnID s) ∧
      field (commit txnID s) .currentSize = field s .currentSize) ∧
      ∀ j, storage (commit txnID s) j =
        if j < field s .capacity ∧ usedSlot s j ∧ (storage s j).verID = txnID then
          unlockEntry (storage s j) else storage s j := by
    refine forEach_invariant (fun n t => (SameChains s t ∧
      field t .currentSize = field s .currentSize) ∧ ∀ j, storage t j =
        if j < n ∧ usedSlot s j ∧ (storage s j).verID = txnID then unlockEntry (storage s j)
        else storage s j) ⟨⟨SameChains.refl s, rfl⟩, by simp⟩ ?_
    rintro i t - ⟨⟨he, size⟩, slots⟩
    obtain ⟨⟨step, kept⟩, hmo⟩ := commitStep_spec txnID i t
    refine ⟨⟨he.trans step, kept.trans size⟩, fun j => ?_⟩
    simp only [hmo, he.used, slots]
    by_cases hh : j = i
    · subst hh
      simp
    · have : j < i + 1 ↔ j < i := by omega
      simp only [hh, this, false_and, if_false]
  obtain ⟨⟨he, size⟩, slots⟩ := hsc
  refine ⟨⟨he, size⟩, he.contents_map _ fun i inBound hu => ?_⟩
  rw [slots, unlocked]
  by_cases hit : (storage s i).verID = txnID
  · rw [if_pos ⟨inBound, hu, hit⟩, if_pos (by simpa [Slot.entry] using hit)]
    rfl
  · rw [if_neg fun all => hit all.2.2, if_neg (by simpa [Slot.entry] using hit)]

lemma commit_sound (txnID : Int) (hs : Sound (vssLayout hasher) s) :
    Sound (vssLayout hasher) (commit txnID s) := by
  obtain ⟨⟨he, size⟩, -⟩ := commit_spec txnID s
  exact he.sound size hs

section Removal

variable {Other : Type} (removeFromVB : Int → Int → Other → Other)

/-- The version buffer map after the flagged ones of some removed entries were taken out. -/
def dropFlagged (gone : List (Entry VssData)) (other : Other) : Other :=
  gone.foldl (fun other e => if e.data.vbFlag then removeFromVB e.lbid e.verID other else other)
    other

/-- The blocks are gone, and the version buffer map lost their flagged entries. -/
structure ClearedOf (hasher : Int → Nat) (lbids : List Int) (s : VSS) (other : Other)
    (r : VSS × Other) : Prop where
  sound : Sound (vssLayout hasher) r.1
  left : contents r.1 = (contents s).filter (fun e => e.lbid ∉ lbids)
  gone : ∃ gone : List (Entry VssData),
    (gone : Versions) = (contents s).filter (fun e => e.lbid ∈ lbids) ∧
      r.2 = dropFlagged removeFromVB gone other

lemma sweepBlock_spec (lbid : Int) (other : Other) (hs : Sound (vssLayout hasher) s) :
    ClearedOf removeFromVB hasher [lbid] s other
      (sweepBlock hasher removeFromVB (s, other) lbid) := by
  obtain ⟨kept, filtered, ⟨gone, he, hdr⟩, -⟩ := sweep_whole
    (fun e other => if e.data.vbFlag then removeFromVB e.lbid e.verID other else other)
    lbid hs other
  refine ⟨kept, by simpa [sweepBlock] using filtered, gone.map Slot.entry,
    by simpa using he, hdr.trans ?_⟩
  rw [dropFlagged, foldl_map]
  rfl

lemma sweepBlocks_spec (lbids : List Int) (other : Other) (hs : Sound (vssLayout hasher) s) :
    ClearedOf removeFromVB hasher lbids s other
      (lbids.foldl (sweepBlock hasher removeFromVB) (s, other)) := by
  induction lbids generalizing s other with
  | nil => exact ⟨hs, by simp, [], by simp, rfl⟩
  | cons lbid lbids ih =>
    obtain ⟨kept, filtered, gone, he, hdr⟩ := sweepBlock_spec removeFromVB lbid other hs
    obtain ⟨fine, remaining, later, rest, last⟩ := ih (sweepBlock hasher removeFromVB
      (s, other) lbid).2 kept
    rw [foldl_cons]
    refine ⟨fine, ?_, gone ++ later, ?_, ?_⟩
    · rw [remaining, filtered, Multiset.filter_filter]
      refine Multiset.filter_congr fun e _ => ?_
      simp [and_comm]
    · have members : (contents s).filter (fun e => e.lbid ∈ lbid :: lbids) =
          ((contents s).filter fun e => e.lbid ∈ lbid :: lbids).filter (fun e => e.lbid = lbid) +
          ((contents s).filter fun e => e.lbid ∈ lbid :: lbids).filter (fun e => ¬ e.lbid = lbid) :=
        (Multiset.filter_add_not _ _).symm
      rw [← Multiset.coe_add, rest, he, filtered, members, Multiset.filter_filter,
        Multiset.filter_filter, Multiset.filter_filter]
      congr 1
      · exact Multiset.filter_congr fun e _ => by simp +contextual
      · exact Multiset.filter_congr fun e _ => by simp +contextual [and_comm]
    · rw [last, hdr]
      exact foldl_append.symm

lemma removeEntriesFromDB_spec (range : LBIDRange) (other : Other)
    (hs : Sound (vssLayout hasher) s) : ClearedOf removeFromVB hasher range.lbids s other
      (removeEntriesFromDB hasher removeFromVB range s other) := by
  have hrec : SameChains s (recordHeader s) := by constructor <;> intros <;> rfl
  have entries : contents (recordHeader s) = contents s := contents_congr rfl fun _ => rfl
  obtain ⟨sound, left, gone⟩ := sweepBlocks_spec removeFromVB range.lbids other (hrec.sound rfl hs)
  rw [entries] at left gone
  exact ⟨sound, left, gone⟩

end Removal

lemma getCurrentVersion_spec (hc : Chained (vssLayout hasher) s) (lbid : Int) :
    (∃ e ∈ contents s, e.lbid = lbid ∧ e.data.vbFlag = false ∧
      e.verID = getCurrentVersion hasher s lbid) ∨
    (getCurrentVersion hasher s lbid = 0 ∧
      ∀ e ∈ contents s, e.lbid = lbid → e.data.vbFlag = true) := by
  rw [getCurrentVersion]
  cases hf : (chainEntries hasher s lbid).find?
    (fun e => decide (e.lbid = lbid ∧ e.data.vbFlag = false)) with
  | some x =>
    have hpa := find?_some hf
    obtain ⟨hn, hcu⟩ := of_decide_eq_true hpa
    obtain ⟨hm, -⟩ := (mem_chainEntries_iff hc).mp ⟨x, mem_of_find?_eq_some hf, hn, rfl⟩
    exact Or.inl ⟨x.entry, hm, hn, hcu, rfl⟩
  | none =>
    refine Or.inr ⟨rfl, fun e hm hn => ?_⟩
    obtain ⟨x, hi, hk, rfl⟩ := (mem_chainEntries_iff hc).mpr ⟨hm, hn⟩
    have missed := find?_eq_none.mp hf x hi
    simpa [hk, Slot.entry] using missed

/-- The newest version of a block, not above a bound, that lies in the version buffer. -/
structure HighestInVB (c : Versions) (lbid max v : Int) : Prop where
  inside : ∃ e ∈ c, e.lbid = lbid ∧ e.data.vbFlag = true ∧ e.verID = v
  bounds : 0 ≤ v ∧ v ≤ max
  highest : ∀ e ∈ c, e.lbid = lbid → e.data.vbFlag = true → e.verID ≤ max → e.verID ≤ v

lemma HighestInVB.unique {c : Versions} {l max v w : Int} (first : HighestInVB c l max v)
    (second : HighestInVB c l max w) : v = w := by
  obtain ⟨e, hi, hn, hfl, rfl⟩ := first.inside
  obtain ⟨e', hi', hn', hfl', rfl⟩ := second.inside
  exact le_antisymm (second.highest e hi hn hfl first.bounds.2)
    (first.highest e' hi' hn' hfl' second.bounds.2)

lemma getHighestVerInVB_spec (hc : Chained (vssLayout hasher) s) (lbid max : Int) :
    HighestInVB (contents s) lbid max (getHighestVerInVB hasher s lbid max) ∨
    (getHighestVerInVB hasher s lbid max = -1 ∧ ∀ e ∈ contents s, e.lbid = lbid →
      e.data.vbFlag = true → ¬ (0 ≤ e.verID ∧ e.verID ≤ max)) := by
  have fold : getHighestVerInVB hasher s lbid max = (chainEntries hasher s lbid).foldl
      (fun best (e : VSSEntry) => if (e.lbid = lbid ∧ e.data.vbFlag = true ∧ e.verID ≤ max) ∧
        best < e.verID then e.verID else best) (-1) := by
    rw [getHighestVerInVB]
    congr 1
    funext best e
    simp only [and_assoc]
  obtain ⟨above, hr, hmax⟩ := foldl_largest
    (fun e : VSSEntry => e.lbid = lbid ∧ e.data.vbFlag = true ∧ e.verID ≤ max) Slot.verID
    (chainEntries hasher s lbid) (-1)
  rw [← fold] at above hr hmax
  have hbo : ∀ e ∈ contents s, e.lbid = lbid → e.data.vbFlag = true → e.verID ≤ max →
      e.verID ≤ getHighestVerInVB hasher s lbid max := by
    intro e hm hn hfl low
    obtain ⟨x, hi, hk, rfl⟩ := (mem_chainEntries_iff hc).mpr ⟨hm, hn⟩
    exact hmax x hi ⟨hk, hfl, low⟩
  by_cases none : getHighestVerInVB hasher s lbid max = -1
  · refine Or.inr ⟨none, fun e hm hn hfl range => ?_⟩
    have := hbo e hm hn hfl range.2
    omega
  · rcases hr with start | ⟨x, hm, ⟨hn, hfl, low⟩, he⟩
    · exact absurd start none
    · obtain ⟨hi, -⟩ := (mem_chainEntries_iff hc).mp ⟨x, hm, hn, rfl⟩
      exact Or.inl ⟨⟨x.entry, hi, hn, hfl, he⟩, ⟨by omega, by omega⟩, hbo⟩

/-- The version a block falls back to when its uncommitted versions go. -/
structure RollbackVersion (c : Versions) (lbid v : Int) : Prop where
  nonneg : 0 ≤ v
  reached : v = 0 ∨ ∃ e ∈ c, e.lbid = lbid ∧ e.data.locked = false ∧ e.verID = v
  largest : ∀ e ∈ c, e.lbid = lbid → e.data.locked = false → e.verID ≤ v

lemma RollbackVersion.unique {c : Versions} {lbid v w : Int} (first : RollbackVersion c lbid v)
    (second : RollbackVersion c lbid w) : v = w := by
  have le : ∀ {v w : Int}, RollbackVersion c lbid v → RollbackVersion c lbid w → v ≤ w := by
    intro v w one two
    rcases one.reached with zero | ⟨e, hm, hn, free, rfl⟩
    · have := two.nonneg
      omega
    · exact two.largest e hm hn free
  exact le_antisymm (le first second) (le second first)

lemma isEntryLocked_iff (hc : Chained (vssLayout hasher) s) (real : lbid ≠ -1) :
    isEntryLocked hasher s lbid verID = true ↔
      (∃ e ∈ contents s, e.lbid = lbid ∧ e.data.locked = true) ∧
        RollbackVersion (contents s) lbid verID := by
  have mem : ∀ x, x ∈ (chainEntries hasher s lbid).filter (fun e => decide (e.lbid = lbid)) ↔
      x ∈ chainEntries hasher s lbid ∧ x.lbid = lbid := by simp
  set entries := (chainEntries hasher s lbid).filter (fun e => decide (e.lbid = lbid)) with chain
  obtain ⟨above, hr, hmax⟩ := foldl_largest
    (fun e : VSSEntry => e.data.locked = false) Slot.verID entries 0
  set rollback := entries.foldl (fun best e => if e.data.locked = false ∧ best < e.verID then
    e.verID else best) 0 with hfo
  have hver : RollbackVersion (contents s) lbid rollback := by
    refine ⟨above, ?_, fun e hm hn free => ?_⟩
    · rcases hr with start | ⟨x, hm, free, he⟩
      · exact Or.inl start
      · obtain ⟨hi, hn⟩ := (mem x).mp hm
        obtain ⟨hk, -⟩ := (mem_chainEntries_iff hc).mp ⟨x, hi, hn, rfl⟩
        exact Or.inr ⟨x.entry, hk, hn, free, he⟩
    · obtain ⟨x, hi, hk, rfl⟩ := (mem_chainEntries_iff hc).mpr ⟨hm, hn⟩
      exact hmax x ((mem x).mpr ⟨hi, hk⟩) free
  have lockedEntry : entries.any (fun e => e.data.locked) = true ↔
      ∃ e ∈ contents s, e.lbid = lbid ∧ e.data.locked = true := by
    rw [any_eq_true]
    constructor
    · rintro ⟨x, hm, held⟩
      obtain ⟨hi, hn⟩ := (mem x).mp hm
      obtain ⟨hk, -⟩ := (mem_chainEntries_iff hc).mp ⟨x, hi, hn, rfl⟩
      exact ⟨x.entry, hk, hn, held⟩
    · rintro ⟨e, hm, hn, held⟩
      obtain ⟨x, hi, hk, rfl⟩ := (mem_chainEntries_iff hc).mpr ⟨hm, hn⟩
      exact ⟨x, (mem x).mpr ⟨hi, hk⟩, held⟩
  have unfolded : isEntryLocked hasher s lbid verID =
      (entries.any (fun e => e.data.locked) && decide (verID = rollback)) := by
    rw [isEntryLocked, if_neg real]
  rw [unfolded, Bool.and_eq_true, lockedEntry, decide_eq_true_eq]
  refine and_congr_right fun _ => ⟨fun he => he ▸ hver, fun he => he.unique hver⟩

end Vss
