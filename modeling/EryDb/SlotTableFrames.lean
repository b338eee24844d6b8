import EryDb.SlotTableChains

/-!
# What changes in a slot table and what stays

The functions of the two classes do three things to a sound table: they put an entry in,
take one out, or rewrite the data of slots whose place in the chains stays. Each is stated
here as its effect on the multiset of entries, which no rehashing changes.
-/

namespace SlotTable

open Multiset ImageUndo ImageUndo.Undoable SlotScan HashChains

variable {Data File : Type} {layout : Layout} {s t : Memory Data File}

/-- Both tables have the same slots in the same chains; the data and the two counters may
differ. -/
structure SameChains (s t : Memory Data File) : Prop where
  fields : ∀ f, f ≠ .currentSize → f ≠ .ownCount → field t f = field s f
  buckets : ∀ b, hashBuckets t b = hashBuckets s b
  lbid : ∀ i, (storage t i).lbid = (storage s i).lbid
  verID : ∀ i, (storage t i).verID = (storage s i).verID
  next : ∀ i, (storage t i).next = (storage s i).next

namespace SameChains

lemma refl (s : Memory Data File) : SameChains s s :=
  ⟨fun _ _ _ => rfl, fun _ => rfl, fun _ => rfl, fun _ => rfl, fun _ => rfl⟩

lemma trans {u : Memory Data File} (first : SameChains s t) (second : SameChains t u) :
    SameChains s u where
  fields := fun f size own => (second.fields f size own).trans (first.fields f size own)
  buckets := fun b => (second.buckets b).trans (first.buckets b)
  lbid := fun i => (second.lbid i).trans (first.lbid i)
  verID := fun i => (second.verID i).trans (first.verID i)
  next := fun i => (second.next i).trans (first.next i)

lemma of_image (image : t.image = s.image) : SameChains s t := by
  constructor <;> intros <;> simp only [field, hashBuckets, storage, image]

lemma of_putSlot {i : Nat} {e : Slot Data} (lbid : e.lbid = (storage s i).lbid)
    (verID : e.verID = (storage s i).verID) (next : e.next = (storage s i).next) :
    SameChains s (putSlot s i e) := by
  refine ⟨fun f _ _ => by simp, fun b => by simp, fun j => ?_, fun j => ?_, fun j => ?_⟩ <;>
    rw [storage_putSlot] <;> split <;> simp [*]

variable (same : SameChains s t)
include same

lemma used (i : Nat) : usedSlot t i ↔ usedSlot s i := by
  simp only [usedSlot, same.lbid i]

lemma capacity : field t .capacity = field s .capacity := same.fields _ (by simp) (by simp)

lemma bucketOf (lbid verID : Int) :
    bucketOf layout t lbid verID = bucketOf layout s lbid verID := by
  simp only [SlotTable.bucketOf, same.fields .numHashBuckets (by simp) (by simp)]

lemma chainOf (b : Nat) : chainOf t b = chainOf s b := by
  have next : (fun i => (storage t i).next) = fun i => (storage s i).next := funext same.next
  simp only [SlotTable.chainOf, next, same.capacity, same.buckets]

lemma getIndex (lbid verID : Int) :
    getIndex layout t lbid verID = getIndex layout s lbid verID := by
  simp only [SlotTable.getIndex, same.bucketOf, same.chainOf, same.lbid, same.verID]

lemma chained (hc : Chained layout s) : Chained layout t := by
  have home : homeSlot layout t = homeSlot layout s := by
    funext i
    simp only [homeSlot, same.bucketOf, same.lbid, same.verID]
  have next : (fun i => (storage t i).next) = fun i => (storage s i).next := funext same.next
  have uses : usedSlot t = usedSlot s := funext fun i => propext (same.used i)
  refine ⟨?_, ?_, fun i hl => ?_, ?_⟩
  · rw [same.fields _ (by simp) (by simp)]
    exact hc.buckets
  · rw [TableOf, home, next, uses, funext same.buckets, same.capacity,
      same.fields .numHashBuckets (by simp) (by simp), funext same.chainOf]
    exact hc.chains
  · rw [same.fields _ (by simp) (by simp)] at hl
    exact (same.used i).mpr (hc.low i hl)
  · rw [same.capacity, same.fields _ (by simp) (by simp)]
    exact hc.lwm

lemma count : Nat.count (usedSlot t) (field t .capacity) =
    Nat.count (usedSlot s) (field s .capacity) := by
  rw [same.capacity]
  exact count_congr fun i _ => same.used i

lemma sound (size : field t .currentSize = field s .currentSize) (hs : Sound layout s) :
    Sound layout t where
  toChained := same.chained hs.toChained
  count := by
    rw [same.count, size]
    exact hs.count
  size := by
    rw [same.capacity, size]
    exact hs.size

/-- Rewriting the data of some slots rewrites the entries. -/
lemma contents_map (change : Entry Data → Entry Data)
    (entries : ∀ i, i < field s .capacity → usedSlot s i →
      (storage t i).entry = change (storage s i).entry) :
    contents t = (contents s).map change := by
  have uses : (Finset.range (field s .capacity)).filter (usedSlot t) =
      (Finset.range (field s .capacity)).filter (usedSlot s) :=
    Finset.filter_congr fun i _ => same.used i
  rw [contents, contents, contentsBelow, contentsBelow, same.capacity, uses, map_map]
  refine map_congr rfl fun i hm => ?_
  obtain ⟨bound, hu⟩ := Finset.mem_filter.mp (Finset.mem_val.mp hm)
  exact entries i (Finset.mem_range.mp bound) hu

lemma contents_keys : (contents t).map Entry.key = (contents s).map Entry.key := by
  have uses : (Finset.range (field s .capacity)).filter (usedSlot t) =
      (Finset.range (field s .capacity)).filter (usedSlot s) :=
    Finset.filter_congr fun i _ => same.used i
  rw [contents, contents, contentsBelow, contentsBelow, same.capacity, uses, map_map, map_map]
  refine map_congr rfl fun i _ => ?_
  exact congrArg₂ Prod.mk (same.lbid i) (same.verID i)

/-- Rewriting the data of one slot exchanges its entry. -/
lemma contents_exchange {i : Nat} (bound : i < field s .capacity) (taken : usedSlot s i)
    (hos : ∀ j, j ≠ i → (storage t j).entry = (storage s j).entry) :
    ∃ rest, contents s = (storage s i).entry ::ₘ rest ∧
      contents t = (storage t i).entry ::ₘ rest := by
  have hm : i ∈ (Finset.range (field s .capacity)).filter (usedSlot s) := by
    simp [bound, taken]
  have uses : (Finset.range (field s .capacity)).filter (usedSlot t) =
      (Finset.range (field s .capacity)).filter (usedSlot s) :=
    Finset.filter_congr fun j _ => same.used j
  obtain ⟨rest, split⟩ := exists_cons_of_mem (Finset.mem_val.mpr hm)
  have hdi : (i ::ₘ rest).Nodup := split ▸ Finset.nodup _
  refine ⟨rest.map fun j => (storage s j).entry, ?_, ?_⟩
  · rw [contents, contentsBelow, split, map_cons]
  rw [contents, contentsBelow, same.capacity, uses, split, map_cons]
  congr 1
  refine map_congr rfl fun j hi => hos j ?_
  rintro rfl
  exact (nodup_cons.mp hdi).1 hi

end SameChains

lemma contents_congr (hcap : field t .capacity = field s .capacity)
    (slots : ∀ i, storage t i = storage s i) : contents t = contents s := by
  rw [contents, contents, hcap]
  refine contentsBelow_congr (fun i _ => ?_) (fun i _ _ => ?_)
  · simp only [usedSlot, slots]
  · rw [slots]

section Insertion

variable {e : Slot Data} {loading : Bool}

lemma sound_room (hs : Sound layout s) (room : field s .currentSize < field s .capacity) :
    Nat.count (usedSlot s) (field s .capacity) < field s .capacity := by
  have := hs.count
  omega

/-- The table after an insertion that found room. -/
lemma entered_sound (hs : Sound layout s) (real : e.lbid ≠ -1) (step : layout.lwmStep ≤ 1)
    (room : field s .currentSize < field s .capacity) :
    Sound layout (putField (insertEntry layout loading e s) .currentSize
      (field s .currentSize + 1)) := by
  have free := sound_room hs room
  have he : SameChains (insertEntry layout loading e s)
      (putField (insertEntry layout loading e s) .currentSize (field s .currentSize + 1)) := by
    constructor <;> intros <;> simp [*]
  have counted := count_insertEntry loading hs.toChained real free
  refine ⟨he.chained (insertEntry_chained hs.toChained real step free).1, ?_, ?_⟩
  · have := hs.count
    rw [he.count, counted]
    simpa using this
  · simp only [field_putField, field_insertEntry, reduceCtorEq, if_false, if_true]
    omega

lemma entered_contents (loading : Bool) (hs : Sound layout s) (real : e.lbid ≠ -1)
    (room : field s .currentSize < field s .capacity) {t : Memory Data File}
    (hcap : field t .capacity = field s .capacity)
    (slots : ∀ i, storage t i = storage (insertEntry layout loading e s) i) :
    contents t = e.entry ::ₘ contents s := by
  rw [← contents_insertEntry loading hs.toChained real (sound_room hs room)]
  exact contents_congr (by simpa using hcap) slots

end Insertion

section Removal

variable {lbid verID : Int} {prev : Option Nat} {index : Nat}

lemma sameChains_recordHeader (counted : Bool) :
    SameChains (discount counted index s) (discount counted index (recordHeader s)) := by
  refine ⟨fun f _ _ => ?_, by simp, by simp, by simp, by simp⟩
  rw [field_discount, field_discount]
  cases f <;> rfl

/-- The table after `removeEntry` of either class took a slot out. -/
lemma removed_sound (hs : Sound layout s) {b : Nat} {pre post : List Nat} (counted : Bool)
    (bound : b < field s .numHashBuckets) (split : chainOf s b = pre ++ index :: post) :
    Sound layout (discount counted index (unlink pre.getLast? index b s)) := by
  obtain ⟨hc, -, counts⟩ := unlink_chained counted hs.toChained bound split
  refine ⟨hc, ?_, ?_⟩
  · have := hs.count
    simp only [field_discount, field_unlink]
    omega
  · have := hs.size
    simp only [field_discount, field_unlink]
    omega

lemma removed_spec (hs : Sound layout s) (counted : Bool)
    (hf : getIndex layout s lbid verID = some (prev, index)) :
    Sound layout (discount counted index
        (recordHeader (unlink prev index (bucketOf layout s lbid verID) s))) ∧
      contents s = (storage s index).entry ::ₘ contents (discount counted index
        (recordHeader (unlink prev index (bucketOf layout s lbid verID) s))) := by
  obtain ⟨pre, post, split, rfl, -⟩ := getIndex_eq_some hf
  have bound := bucketOf_lt hs.toChained lbid verID
  have removed := removed_sound hs counted bound split
  refine ⟨(sameChains_recordHeader counted).sound (by simp) removed, ?_⟩
  rw [contents_unlink counted hs.toChained bound split]
  congr 1
  exact (contents_congr (by simp) (by simp)).symm

lemma getIndex_mem (hc : Chained layout s)
    (hf : getIndex layout s lbid verID = some (prev, index)) :
    index < field s .capacity ∧ usedSlot s index ∧ (storage s index).lbid = lbid ∧
      (storage s index).verID = verID := by
  obtain ⟨pre, post, split, -, hn, hver⟩ := getIndex_eq_some hf
  have bound := bucketOf_lt hc lbid verID
  obtain ⟨hi, hu, -⟩ := (hc.chains.mem _ bound index).mp (by rw [split]; simp)
  exact ⟨hi, hu, hn, hver⟩

/-- The search fails exactly when the table has no such entry. -/
lemma getIndex_eq_none_iff (hc : Chained layout s) : getIndex layout s lbid verID = none ↔
      ∀ e ∈ contents s, ¬ (e.lbid = lbid ∧ e.verID = verID) := by
  have bound := bucketOf_lt hc lbid verID
  simp only [getIndex, findWithPrev_eq_none, decide_eq_false_iff_not]
  constructor
  · rintro missing e hm ⟨rfl, rfl⟩
    obtain ⟨i, hi, hu, rfl⟩ := mem_contents.mp hm
    exact missing i ((hc.chains.mem _ bound i).mpr ⟨hi, hu, rfl⟩) ⟨rfl, rfl⟩
  · intro missing j hm he
    obtain ⟨hi, hu, -⟩ := (hc.chains.mem _ bound j).mp hm
    exact missing _ (mem_contents.mpr ⟨j, hi, hu, rfl⟩) he

end Removal

lemma head_of_chain (hc : Chained layout s) {b : Nat}
    (bound : b < field s .numHashBuckets) : hashBuckets s b = (chainOf s b).head? :=
  (hc.chains.linked b bound).start_eq

lemma chain_length_le (hc : Chained layout s) {b : Nat}
    (bound : b < field s .numHashBuckets) : (chainOf s b).length ≤ field s .capacity := by
  have hi : (chainOf s b).toFinset ⊆ Finset.range (field s .capacity) := by
    intro i hm
    exact Finset.mem_range.mpr ((hc.chains.mem b bound i).mp (List.mem_toFinset.mp hm)).1
  have := Finset.card_le_card hi
  rwa [List.toFinset_card_of_nodup (hc.chains.nodup b bound), Finset.card_range] at this

section Growth

lemma contentsBelow_le {n m : Nat} (le : n ≤ m) : contentsBelow s n ≤ contentsBelow s m := by
  refine map_le_map (Finset.val_le_iff.mpr ?_)
  exact Finset.filter_subset_filter _ (Finset.range_subset_range.mpr le)

variable [Inhabited Data]

lemma grown_fields (hs : Sound layout s) (step : layout.lwmStep ≤ 1)
    (image : t.image = grown layout s) :
    (∀ f, f ≠ .lwm → field t f = field (newSegment layout s) f) ∧ ∀ k, files t k = files s k := by
  have hcp := copyTable_copied hs step
  constructor
  · intro f ho
    rw [field_of_image image]
    exact hcp.fields f ho
  · intro k
    rw [files, image]
    exact hcp.files k

end Growth

section Search

variable {lbid verID : Int}

/-- The slot a search for a version ends at. -/
def slotOf (layout : Layout) (s : Memory Data File) (lbid verID : Int) : Option Nat :=
  (getIndex layout s lbid verID).map Prod.snd

lemma findWithPrev_snd (test : Nat → Bool) (prev : Option Nat) (l : List Nat) :
    (findWithPrev test prev l).map Prod.snd = l.find? test := by
  induction l generalizing prev with
  | nil => rfl
  | cons i l ih =>
    rw [findWithPrev, List.find?_cons]
    cases hit : test i with
    | true => simp
    | false => simpa using ih (some i)

lemma slotOf_eq : slotOf layout s lbid verID = (chainOf s (bucketOf layout s lbid verID)).find?
    (fun i => decide ((storage s i).lbid = lbid ∧ (storage s i).verID = verID)) :=
  findWithPrev_snd _ _ _

lemma slotOf_mem (hc : Chained layout s) {i : Nat} (hf : slotOf layout s lbid verID = some i) :
    i < field s .capacity ∧ usedSlot s i ∧ (storage s i).lbid = lbid ∧
      (storage s i).verID = verID := by
  obtain ⟨⟨prev, index⟩, place, rfl⟩ := Option.map_eq_some_iff.mp hf
  exact getIndex_mem hc place

end Search

end SlotTable
