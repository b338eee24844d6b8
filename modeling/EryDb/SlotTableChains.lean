import EryDb.SlotTable

/-!
# Insertion and removal keep the chains of a slot table

A slot table is sound when every chain holds exactly the used slots that hash to it,
no slot below the low water mark is unused, and no more slots are used than the header
says. Then the search for an unused slot stays inside the array, and the functions of
the two classes act on the chains as on lists.
-/

namespace SlotTable

open Finset ImageUndo ImageUndo.Undoable SlotScan HashChains

variable {Data File : Type} {layout : Layout} {s t : Memory Data File}

def usedSlot (s : Memory Data File) (i : Nat) : Prop := (storage s i).lbid ≠ -1

instance (s : Memory Data File) : DecidablePred (usedSlot s) := fun i =>
  inferInstanceAs (Decidable ((storage s i).lbid ≠ -1))

def homeSlot (layout : Layout) (s : Memory Data File) (i : Nat) : Nat :=
  bucketOf layout s (storage s i).lbid (storage s i).verID

abbrev TableOf (layout : Layout) (s : Memory Data File) (chain : Nat → List Nat) : Prop :=
  Table (field s .capacity) (field s .numHashBuckets) (fun i => (storage s i).next)
    (hashBuckets s) (usedSlot s) (homeSlot layout s) chain

/-- The chains are whole and the slots below the low water mark are taken. -/
structure Chained (layout : Layout) (s : Memory Data File) : Prop where
  buckets : 0 < field s .numHashBuckets
  chains : TableOf layout s (chainOf s)
  low : ∀ i, i < field s .lwm → usedSlot s i
  lwm : field s .lwm ≤ field s .capacity

structure Sound (layout : Layout) (s : Memory Data File) : Prop extends Chained layout s where
  count : Nat.count (usedSlot s) (field s .capacity) ≤ field s .currentSize
  size : field s .currentSize ≤ field s .capacity

lemma bucketOf_lt (hc : Chained layout s) (lbid verID : Int) :
    bucketOf layout s lbid verID < field s .numHashBuckets :=
  Nat.mod_lt _ hc.buckets

/-- A chain walk is determined by the table, so its lists may be put in any form. -/
lemma chains_of_table {chain : Nat → List Nat} (table : TableOf layout s chain) :
    (∀ b, b < field s .numHashBuckets → chainOf s b = chain b) ∧ TableOf layout s (chainOf s) := by
  have walks : ∀ b, b < field s .numHashBuckets → chainOf s b = chain b :=
    fun b bound => table.walk_eq bound
  refine ⟨walks, fun b bound => ?_, fun b bound => ?_, fun b bound => ?_⟩
  · rw [walks b bound]
    exact table.linked b bound
  · rw [walks b bound]
    exact table.nodup b bound
  · rw [walks b bound]
    exact table.mem b bound

section Insertion

variable (layout) (loading : Bool) (e : Slot Data) (s)

@[simp] lemma field_insertEntry (f : Field) : field (insertEntry layout loading e s) f =
    if f = .lwm then insertIndex s + layout.lwmStep else field s f := by
  cases loading <;> simp [insertEntry]

@[simp] lemma files_insertEntry (k : Nat) :
    files (insertEntry layout loading e s) k = files s k := by
  cases loading <;> simp [insertEntry]

@[simp] lemma storage_insertEntry (j : Nat) : storage (insertEntry layout loading e s) j =
    if j = insertIndex s then
      { e with next := hashBuckets s (bucketOf layout s e.lbid e.verID) }
    else storage s j := by
  cases loading <;> simp [insertEntry]

@[simp] lemma hashBuckets_insertEntry (c : Nat) : hashBuckets (insertEntry layout loading e s) c =
      if c = bucketOf layout s e.lbid e.verID then some (insertIndex s) else hashBuckets s c := by
  cases loading <;> simp [insertEntry]

end Insertion

lemma insertIndex_spec (hc : Chained layout s)
    (room : Nat.count (usedSlot s) (field s .capacity) < field s .capacity) :
    insertIndex s < field s .capacity ∧ ¬ usedSlot s (insertIndex s) ∧
      field s .lwm ≤ insertIndex s ∧ ∀ i, i < insertIndex s → usedSlot s i := by
  obtain ⟨free, bound, hun⟩ := exists_of_count_lt room
  have above : field s .lwm ≤ free := by
    by_contra hl
    exact hun (hc.low free (by omega))
  have passing : decide (field s .lwm ≤ free ∧ (storage s free).lbid = -1) = true := by
    simpa [usedSlot] using And.intro above (not_not.mp hun)
  obtain ⟨i, hf⟩ : ∃ i, firstIndex (fun i => decide (field s .lwm ≤ i ∧
      (storage s i).lbid = -1)) (field s .capacity) = some i := firstIndex_isSome bound passing
  have index : insertIndex s = i := by simp only [insertIndex, hf, Option.getD_some]
  obtain ⟨hpa, hi⟩ := firstIndex_eq_some hf
  simp only [decide_eq_true_eq] at hpa
  rw [index]
  refine ⟨hi, fun hu => hu hpa.2, hpa.1, fun j hl => ?_⟩
  by_cases low : j < field s .lwm
  · exact hc.low j low
  · have missed := firstIndex_before hf hl
    simp only [decide_eq_false_iff_not, not_and] at missed
    exact missed (by omega)

section Insertion

variable {e : Slot Data} {loading : Bool}

/-- An insertion puts the new slot in front of its chain. -/
lemma insertEntry_chained (hc : Chained layout s) (real : e.lbid ≠ -1) (step : layout.lwmStep ≤ 1)
    (room : Nat.count (usedSlot s) (field s .capacity) < field s .capacity) :
    Chained layout (insertEntry layout loading e s) ∧
      ∀ c, c < field s .numHashBuckets → chainOf (insertEntry layout loading e s) c =
        if c = bucketOf layout s e.lbid e.verID then insertIndex s :: chainOf s c
        else chainOf s c := by
  obtain ⟨hi, hun, above, taken⟩ := insertIndex_spec hc room
  have bound := bucketOf_lt hc e.lbid e.verID
  have table : TableOf layout (insertEntry layout loading e s)
      (Function.update (chainOf s) (bucketOf layout s e.lbid e.verID)
        (insertIndex s :: chainOf s (bucketOf layout s e.lbid e.verID))) := by
    simp only [TableOf, field_insertEntry, reduceCtorEq, if_false]
    refine hc.chains.push bound hi hun (fun j => ?_) (by simp) (fun j => ?_) (fun j => ?_)
    · by_cases hh : j = insertIndex s <;> simp [hh]
    · by_cases hh : j = insertIndex s <;> simp [usedSlot, hh, real]
    · by_cases hh : j = insertIndex s <;> simp [homeSlot, bucketOf, hh]
  obtain ⟨walks, chains⟩ := chains_of_table table
  refine ⟨⟨?_, chains, fun j hl => ?_, ?_⟩, fun c hl => ?_⟩
  · simpa using hc.buckets
  · by_cases hh : j = insertIndex s
    · simp [usedSlot, hh, real]
    · have : usedSlot s j := taken j (by simp at hl; omega)
      simpa [usedSlot, hh] using this
  · simp
    omega
  rw [walks c (by simpa using hl)]
  by_cases he : c = bucketOf layout s e.lbid e.verID
  · subst he
    simp
  · simp [he]

lemma count_insertEntry (loading : Bool) (hc : Chained layout s) (real : e.lbid ≠ -1)
    (room : Nat.count (usedSlot s) (field s .capacity) < field s .capacity) :
    Nat.count (usedSlot (insertEntry layout loading e s))
      (field (insertEntry layout loading e s) .capacity) =
      Nat.count (usedSlot s) (field s .capacity) + 1 := by
  obtain ⟨hi, hun, -, -⟩ := insertIndex_spec hc room
  have he : field (insertEntry layout loading e s) .capacity = field s .capacity := by simp
  rw [he]
  refine count_gain hi hun (by simp [usedSlot, real]) (fun j _ ho => ?_)
  simp [usedSlot, ho]

end Insertion

section Removal

variable (s) (counted : Bool) (prev : Option Nat) (index b : Nat)

@[simp] lemma field_unlink (f : Field) : field (unlink prev index b s) f = field s f := by
  cases prev <;> simp [unlink]

@[simp] lemma files_unlink (k : Nat) : files (unlink prev index b s) k = files s k := by
  cases prev <;> simp [unlink]

@[simp] lemma hashBuckets_unlink (c : Nat) : hashBuckets (unlink prev index b s) c =
    if c = b ∧ prev = none then (storage s index).next else hashBuckets s c := by
  cases prev <;> simp [unlink]

lemma storage_unlink_self (ho : prev ≠ some index) :
    storage (unlink prev index b s) index = { storage s index with lbid := -1 } := by
  cases prev with
  | none => simp [unlink]
  | some p =>
    have : index ≠ p := fun he => ho (by rw [he])
    simp [unlink, this]

lemma storage_unlink_other {j : Nat} (ho : j ≠ index) : storage (unlink prev index b s) j =
      if prev = some j then { storage s j with next := (storage s index).next }
      else storage s j := by
  cases prev with
  | none => simp [unlink, ho]
  | some p =>
    by_cases he : p = j
    · subst he
      by_cases hh : p = index
      · exact absurd hh ho
      · simp [unlink, hh]
    · have : j ≠ p := fun heq => he heq.symm
      simp [unlink, ho, this, he]

@[simp] lemma storage_discount (j : Nat) : storage (discount counted index s) j = storage s j := by
  simp only [discount]
  split <;> split <;> simp

@[simp] lemma hashBuckets_discount (c : Nat) :
    hashBuckets (discount counted index s) c = hashBuckets s c := by
  simp only [discount]
  split <;> split <;> simp

@[simp] lemma files_discount (k : Nat) : files (discount counted index s) k = files s k := by
  simp only [discount]
  split <;> split <;> simp

@[simp] lemma field_discount (f : Field) : field (discount counted index s) f =
    match f with
    | .currentSize => field s .currentSize - 1
    | .ownCount => if counted = true ∧ 0 < field s .ownCount then field s .ownCount - 1
        else field s .ownCount
    | .lwm => if index < field s .lwm then index else field s .lwm
    | f => field s f := by
  simp only [discount]
  cases f <;> split <;> split <;> simp_all

end Removal

variable {index b : Nat} {pre post : List Nat}

lemma last_ne_of_split (hc : Chained layout s) (bound : b < field s .numHashBuckets)
    (split : chainOf s b = pre ++ index :: post) : pre.getLast? ≠ some index := by
  intro last
  have hdi := hc.chains.nodup b bound
  rw [split] at hdi
  have fresh := (List.nodup_cons.mp (List.nodup_middle.mp hdi)).1
  exact fresh (List.mem_append_left _ (List.mem_of_getLast? last))

lemma unlink_other {counted : Bool} {prev : Option Nat} {j : Nat} (ho : j ≠ index) :
    let t := discount counted index (unlink prev index b s)
    (storage t j).lbid = (storage s j).lbid ∧ (storage t j).verID = (storage s j).verID ∧
      (storage t j).data = (storage s j).data := by
  simp only [storage_discount, storage_unlink_other s prev index b ho]
  split <;> exact ⟨rfl, rfl, rfl⟩

/-- Take a slot out of its chain and count it off. -/
lemma unlink_chained (counted : Bool) (hc : Chained layout s)
    (bound : b < field s .numHashBuckets) (split : chainOf s b = pre ++ index :: post) :
    Chained layout (discount counted index (unlink pre.getLast? index b s)) ∧
      (∀ c, c < field s .numHashBuckets →
        chainOf (discount counted index (unlink pre.getLast? index b s)) c =
          if c = b then pre ++ post else chainOf s c) ∧
      Nat.count (usedSlot s) (field s .capacity) =
        Nat.count (usedSlot (discount counted index (unlink pre.getLast? index b s)))
          (field s .capacity) + 1 := by
  have hap := last_ne_of_split hc bound split
  obtain ⟨hi, taken, -⟩ := (hc.chains.mem b bound index).mp (by rw [split]; simp)
  set t := discount counted index (unlink pre.getLast? index b s) with result
  have hh : storage t index = { storage s index with lbid := -1 } := by
    rw [result, storage_discount, storage_unlink_self s _ index b hap]
  have ht : ∀ j, j ≠ index → storage t j =
      if pre.getLast? = some j then { storage s j with next := (storage s index).next }
      else storage s j := by
    intro j ho
    rw [result, storage_discount, storage_unlink_other s _ index b ho]
  have keys : ∀ j, j ≠ index → (storage t j).lbid = (storage s j).lbid ∧
      (storage t j).verID = (storage s j).verID ∧ _ := fun j ho => unlink_other ho
  have hcap : field t .capacity = field s .capacity := by simp [result]
  have buckets : field t .numHashBuckets = field s .numHashBuckets := by simp [result]
  have uses : ∀ j, usedSlot t j ↔ usedSlot s j ∧ j ≠ index := by
    intro j
    by_cases he : j = index
    · simp [usedSlot, he, hh]
    · simp [usedSlot, keys j he, he]
  have table : TableOf layout t (Function.update (chainOf s) b (pre ++ post)) := by
    rw [TableOf, hcap, buckets]
    refine hc.chains.drop bound split (fun j ho => ?_) (fun c => ?_) uses (fun j ho => ?_)
    · rw [ht j ho]
      split <;> rfl
    · simp only [result, hashBuckets_discount, hashBuckets_unlink, List.getLast?_eq_none_iff]
    · simp only [homeSlot, bucketOf, keys j ho, buckets]
  obtain ⟨walks, chains⟩ := chains_of_table table
  refine ⟨⟨by rw [buckets]; exact hc.buckets, chains, fun j hl => ?_, ?_⟩, fun c hl => ?_, ?_⟩
  · have lwm : field t .lwm = if index < field s .lwm then index else field s .lwm := by
      simp [result]
    rw [lwm] at hl
    refine (uses j).mpr ⟨hc.low j ?_, ?_⟩ <;> split at hl <;> omega
  · have := hc.lwm
    simp only [result, field_discount, field_unlink]
    split <;> omega
  · rw [walks c (by rw [buckets]; exact hl)]
    by_cases he : c = b
    · subst he
      simp
    · simp [he]
  · exact count_gain hi (fun hu => ((uses index).mp hu).2 rfl) taken
      (fun j _ ho => by simp [uses, ho])

/-- What a slot says, apart from its place in a chain. -/
structure Entry (Data : Type) where
  lbid : Int
  verID : Int
  data : Data
  deriving DecidableEq

def Entry.key (e : Entry Data) : Int × Int := (e.lbid, e.verID)

def Slot.entry (e : Slot Data) : Entry Data := ⟨e.lbid, e.verID, e.data⟩

/-- The entries in the used slots below `n`. -/
def contentsBelow (s : Memory Data File) (n : Nat) : Multiset (Entry Data) :=
  ((Finset.range n).filter (usedSlot s)).val.map (fun i => (storage s i).entry)

def contents (s : Memory Data File) : Multiset (Entry Data) := contentsBelow s (field s .capacity)

lemma mem_contents {e : Entry Data} :
    e ∈ contents s ↔ ∃ i, i < field s .capacity ∧ usedSlot s i ∧ (storage s i).entry = e := by
  simp [contents, contentsBelow, and_assoc]

lemma contentsBelow_congr {n : Nat} (uses : ∀ i, i < n → (usedSlot t i ↔ usedSlot s i))
    (entries : ∀ i, i < n → usedSlot s i → (storage t i).entry = (storage s i).entry) :
    contentsBelow t n = contentsBelow s n := by
  have he : (Finset.range n).filter (usedSlot t) = (Finset.range n).filter (usedSlot s) :=
    filter_congr (fun i hm => uses i (mem_range.mp hm))
  rw [contentsBelow, contentsBelow, he]
  refine Multiset.map_congr rfl (fun i hm => ?_)
  obtain ⟨bound, hu⟩ := mem_filter.mp (mem_val.mp hm)
  exact entries i (mem_range.mp bound) hu

variable {i : Nat}

/-- One more slot in use is one more entry. -/
lemma contentsBelow_gain {n : Nat} (bound : i < n) (hb : ¬ usedSlot s i) (ha : usedSlot t i)
    (uses : ∀ j, j ≠ i → (usedSlot t j ↔ usedSlot s j))
    (entries : ∀ j, j ≠ i → usedSlot s j → (storage t j).entry = (storage s j).entry) :
    contentsBelow t n = (storage t i).entry ::ₘ contentsBelow s n := by
  have fresh : i ∉ (Finset.range n).filter (usedSlot s) := by simp [hb]
  have split : (Finset.range n).filter (usedSlot t) =
      Finset.cons i ((Finset.range n).filter (usedSlot s)) fresh := by
    ext j
    by_cases he : j = i
    · simp [he, bound, ha]
    · simp [he, uses j he]
  rw [contentsBelow, split, cons_val, Multiset.map_cons, contentsBelow]
  congr 1
  refine Multiset.map_congr rfl (fun j hm => ?_)
  obtain ⟨-, hu⟩ := mem_filter.mp (mem_val.mp hm)
  exact entries j (fun he => hb (he ▸ hu)) hu

lemma contents_insertEntry (loading : Bool) (hc : Chained layout s) {e : Slot Data}
    (real : e.lbid ≠ -1) (room : Nat.count (usedSlot s) (field s .capacity) < field s .capacity) :
    contents (insertEntry layout loading e s) = e.entry ::ₘ contents s := by
  obtain ⟨hi, hun, -, -⟩ := insertIndex_spec hc room
  have hcap : field (insertEntry layout loading e s) .capacity = field s .capacity := by simp
  have gain := contentsBelow_gain (t := insertEntry layout loading e s) hi hun
    (by simp [usedSlot, real]) (fun j ho => by simp [usedSlot, ho]) (fun j ho _ => by simp [ho])
  rw [contents, hcap, gain]
  simp [Slot.entry, contents]

lemma contents_unlink (counted : Bool) (hc : Chained layout s)
    (bound : b < field s .numHashBuckets) (split : chainOf s b = pre ++ index :: post) :
    contents s = (storage s index).entry ::ₘ
      contents (discount counted index (unlink pre.getLast? index b s)) := by
  have hap := last_ne_of_split hc bound split
  obtain ⟨hi, taken, -⟩ := (hc.chains.mem b bound index).mp (by rw [split]; simp)
  have hcap : field (discount counted index (unlink pre.getLast? index b s)) .capacity =
      field s .capacity := by simp
  rw [contents, contents, hcap]
  refine contentsBelow_gain hi ?_ taken (fun j ho => ?_) (fun j ho _ => ?_)
  · simp [usedSlot, storage_unlink_self s _ index b hap]
  · simp only [usedSlot, unlink_other ho]
  · simp only [Slot.entry, unlink_other ho]

lemma contentsBelow_succ (n : Nat) : contentsBelow s (n + 1) =
    if usedSlot s n then (storage s n).entry ::ₘ contentsBelow s n else contentsBelow s n := by
  have fresh : n ∉ (Finset.range n).filter (usedSlot s) := by simp
  rw [contentsBelow, range_add_one, filter_insert]
  split
  · rw [insert_val_of_notMem fresh, Multiset.map_cons, contentsBelow]
  · rfl

section Image

variable (image : t.image = s.image)
include image

lemma field_of_image {f : Field} : field t f = field s f := by
  simp only [field, image]

lemma Chained.of_image (hc : Chained layout s) : Chained layout t := by
  cases s
  cases t
  cases image
  exact ⟨hc.buckets, hc.chains, hc.low, hc.lwm⟩

lemma count_of_image : Nat.count (usedSlot t) (field t .capacity) =
    Nat.count (usedSlot s) (field s .capacity) := by
  cases s
  cases t
  cases image
  rfl

lemma contents_of_image : contents t = contents s := by
  cases s
  cases t
  cases image
  rfl

end Image

/-- A table with no used slot and no chain. -/
lemma empty_sound (buckets : 0 < field s .numHashBuckets) (heads : ∀ b, hashBuckets s b = none)
    (hun : ∀ i, ¬ usedSlot s i) (lwm : field s .lwm = 0)
    (size : field s .currentSize ≤ field s .capacity) : Sound layout s := by
  have table : TableOf layout s (fun _ => []) := by
    refine ⟨fun b _ => heads b, fun _ _ => List.nodup_nil, fun _ _ i => ?_⟩
    simp [hun i]
  refine ⟨⟨buckets, (chains_of_table table).2, ?_, ?_⟩, ?_, size⟩
  · simp [lwm]
  · simp [lwm]
  · rw [Nat.count_iff_forall_not.mpr fun i _ => hun i]
    exact Nat.zero_le _

lemma empty_contents (hun : ∀ i, ¬ usedSlot s i) : contents s = 0 := by
  rw [contents, contentsBelow, Finset.filter_false_of_mem fun i _ => hun i]
  rfl

section Growth

variable [Inhabited Data]

@[simp] lemma field_newSegment (f : Field) : field (newSegment layout s) f =
    match f with
    | .capacity => field s .capacity + layout.storageIncrement
    | .numHashBuckets => field s .numHashBuckets + layout.tableIncrement
    | .lwm => 0
    | f => field s f := by
  cases f <;> rfl

lemma unused_newSegment (i : Nat) : ¬ usedSlot (newSegment layout s) i := by
  simp [usedSlot, storage, newSegment, clean]

/-- What copying the first `n` slots of `s` into an empty segment leaves there. -/
structure Copied (layout : Layout) (s t : Memory Data File) (n : Nat) : Prop where
  chained : Chained layout t
  contents : contents t = contentsBelow s n
  count : Nat.count (usedSlot t) (field t .capacity) ≤ n
  fields : ∀ f, f ≠ .lwm → field t f = field (newSegment layout s) f
  files : ∀ k, files t k = files s k

lemma newSegment_copied (hs : Sound layout s) : Copied layout s (newSegment layout s) 0 := by
  have size : field s .currentSize ≤ field s .capacity + layout.storageIncrement :=
    hs.size.trans (Nat.le_add_right _ _)
  refine ⟨(empty_sound ?_ (fun _ => rfl) unused_newSegment rfl size).toChained,
    empty_contents unused_newSegment, ?_, fun _ _ => rfl, fun _ => rfl⟩
  · exact Nat.add_pos_left hs.buckets _
  · exact (Nat.count_iff_forall_not.mpr (fun i _ => unused_newSegment i)).le

lemma Copied.room (hcp : Copied layout s t i) (hs : Sound layout s)
    (bound : i < field s .currentSize) :
    Nat.count (usedSlot t) (field t .capacity) < field t .capacity := by
  have hcap : field t .capacity = field s .capacity + layout.storageIncrement :=
    (hcp.fields .capacity (by simp)).trans (by simp)
  have := hcp.count
  have := hs.size
  omega

lemma Copied.insert (hcp : Copied layout s t i) (hs : Sound layout s)
    (step : layout.lwmStep ≤ 1) (bound : i < field s .currentSize) (hu : usedSlot s i) :
    Copied layout s (insertEntry layout true (storage s i) t) (i + 1) := by
  have room := hcp.room hs bound
  refine ⟨(insertEntry_chained hcp.chained hu step room).1, ?_, ?_, fun f ho => ?_, fun k => ?_⟩
  · rw [contents_insertEntry _ hcp.chained hu room, hcp.contents, contentsBelow_succ,
      if_pos hu]
  · rw [count_insertEntry _ hcp.chained hu room]
    have := hcp.count
    omega
  · rw [field_insertEntry, if_neg ho, hcp.fields f ho]
  · rw [files_insertEntry, hcp.files]

lemma Copied.skip (hcp : Copied layout s t i) (hun : ¬ usedSlot s i) :
    Copied layout s t (i + 1) := by
  refine ⟨hcp.chained, ?_, hcp.count.trans (by omega), hcp.fields, hcp.files⟩
  rw [hcp.contents, contentsBelow_succ, if_neg hun]

lemma copyTable_copied (hs : Sound layout s) (step : layout.lwmStep ≤ 1) :
    Copied layout s (copyTable layout s (newSegment layout s)) (field s .currentSize) := by
  refine forEach_invariant (fun n t => Copied layout s t n) (newSegment_copied hs) ?_
  intro i t bound hcp
  by_cases hu : usedSlot s i
  · rw [if_pos (show (storage s i).lbid ≠ -1 from hu)]
    exact hcp.insert hs step bound hu
  · rw [if_neg (show ¬ (storage s i).lbid ≠ -1 from hu)]
    exact hcp.skip hu

/-- The segment a table grows into. -/
lemma grown_sound (hs : Sound layout s) (step : layout.lwmStep ≤ 1)
    (image : t.image = grown layout s) :
    Sound layout t ∧ contents t = contentsBelow s (field s .currentSize) := by
  have hcp := copyTable_copied hs step
  have size : field t .currentSize = field s .currentSize := by
    rw [field_of_image image, hcp.fields _ (by simp)]
    simp
  have hcap : field t .capacity = field s .capacity + layout.storageIncrement := by
    rw [field_of_image image, hcp.fields _ (by simp)]
    simp
  refine ⟨⟨hcp.chained.of_image image, ?_, ?_⟩, ?_⟩
  · rw [size, count_of_image image]
    exact hcp.count
  · have := hs.size
    omega
  · rw [contents_of_image image, hcp.contents]

end Growth

/-- The slot `getIndex` answers splits its chain. -/
lemma getIndex_eq_some {lbid verID : Int} {prev : Option Nat}
    (hf : getIndex layout s lbid verID = some (prev, index)) :
    ∃ pre post, chainOf s (bucketOf layout s lbid verID) = pre ++ index :: post ∧
      prev = pre.getLast? ∧ (storage s index).lbid = lbid ∧ (storage s index).verID = verID := by
  obtain ⟨pre, post, split, hit, last⟩ := findWithPrev_eq_some hf
  simp only [decide_eq_true_eq] at hit
  exact ⟨pre, post, split, by simpa using last, hit⟩

end SlotTable
