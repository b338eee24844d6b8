import EryDb.BlockView
import Mathlib.Data.List.Find

/-!
# What growing the version buffer block map keeps

`growVBBM` puts the slots below the recorded size into a new segment, in the order of their
indices. Removals leave holes and lower the size, so a used slot can lie at or behind it and
is then lost. A copy that is put in later hides an earlier one with the same key, so among
several copies of one version the last slot decides what a search finds afterwards.
-/

namespace SlotTable

open Finset Option ImageUndo ImageUndo.Undoable SlotScan HashChains

variable {Data File : Type} {layout : Layout} {s t : Memory Data File} {lbid verID : Int}

/-- What a search for a version answers. -/
def found (layout : Layout) (s : Memory Data File) (lbid verID : Int) : Option Data :=
  (slotOf layout s lbid verID).map fun i => (storage s i).data

/-- The slot is used for a version. -/
def Holds (s : Memory Data File) (lbid verID : Int) (i : Nat) : Prop :=
  usedSlot s i ∧ (storage s i).lbid = lbid ∧ (storage s i).verID = verID

instance (s : Memory Data File) (lbid verID : Int) (i : Nat) : Decidable (Holds s lbid verID i) :=
  inferInstanceAs (Decidable (_ ∧ _))

/-- The data of the last of the first `n` slots that holds a version. -/
def latest (s : Memory Data File) (lbid verID : Int) : Nat → Option Data
  | 0 => none
  | n + 1 => if Holds s lbid verID n then some (storage s n).data else latest s lbid verID n

lemma latest_eq_none {n : Nat} :
    latest s lbid verID n = none ↔ ∀ i, i < n → ¬ Holds s lbid verID i := by
  induction n with
  | zero => simp [latest]
  | succ n ih =>
    rw [latest]
    split
    · rename_i hd
      simp only [reduceCtorEq, false_iff, not_forall, not_not]
      exact ⟨n, by omega, hd⟩
    rename_i free
    rw [ih]
    constructor
    · intro none i bound
      by_cases hh : i = n
      · exact hh ▸ free
      · exact none i (by omega)
    · exact fun none i bound => none i (by omega)

lemma latest_eq_some {n : Nat} {d : Data} : latest s lbid verID n = some d ↔
    ∃ j, j < n ∧ Holds s lbid verID j ∧ (storage s j).data = d ∧
      ∀ k, j < k → k < n → ¬ Holds s lbid verID k := by
  induction n with
  | zero => simp [latest]
  | succ n ih =>
    rw [latest]
    split
    · rename_i hd
      constructor
      · intro he
        exact ⟨n, by omega, hd, Option.some.inj he, by omega⟩
      · rintro ⟨j, bound, -, rfl, last⟩
        by_cases hh : j = n
        · rw [hh]
        · exact absurd hd (last n (by omega) (by omega))
    · rename_i free
      rw [ih]
      constructor
      · rintro ⟨j, bound, hd, he, last⟩
        refine ⟨j, by omega, hd, he, fun k ha hl => ?_⟩
        by_cases hh : k = n
        · exact hh ▸ free
        · exact last k ha (by omega)
      rintro ⟨j, bound, hd, he, last⟩
      have hb : j ≠ n := by
        rintro rfl
        exact free hd
      exact ⟨j, by omega, hd, he, fun k ha hl => last k ha (by omega)⟩

/-- The entry that is put in is found first. -/
lemma found_insertEntry {e : Slot Data} {loading : Bool} (chained : Chained layout s)
    (real : e.lbid ≠ -1) (step : layout.lwmStep ≤ 1)
    (room : Nat.count (usedSlot s) (field s .capacity) < field s .capacity) :
    found layout (insertEntry layout loading e s) lbid verID =
      if e.lbid = lbid ∧ e.verID = verID then some e.data else found layout s lbid verID := by
  have chains : ∀ c, c < field s .numHashBuckets → chainOf (insertEntry layout loading e s) c =
      if c = bucketOf layout s e.lbid e.verID then insertIndex s :: chainOf s c
      else chainOf s c :=
    (insertEntry_chained chained real step room).2
  obtain ⟨inside, unused, -⟩ := insertIndex_spec chained room
  have home : bucketOf layout (insertEntry layout loading e s) lbid verID =
      bucketOf layout s lbid verID := by
    simp [bucketOf]
  have bound := bucketOf_lt chained lbid verID
  have fresh : insertIndex s ∉ chainOf s (bucketOf layout s lbid verID) := by
    intro member
    exact unused ((chained.chains.mem _ bound _).mp member).2.1
  have others : (chainOf s (bucketOf layout s lbid verID)).find? (fun i =>
        decide ((storage (insertEntry layout loading e s) i).lbid = lbid ∧
          (storage (insertEntry layout loading e s) i).verID = verID)) =
      slotOf layout s lbid verID := by
    rw [slotOf_eq]
    refine List.find?_congr fun j member => ?_
    rw [storage_insertEntry, if_neg]
    rintro rfl
    exact fresh member
  have kept : ∀ i, slotOf layout s lbid verID = some i →
      (storage (insertEntry layout loading e s) i).data = (storage s i).data := by
    intro i place
    rw [storage_insertEntry, if_neg]
    rintro rfl
    exact unused (slotOf_mem chained place).2.1
  rw [found, slotOf_eq, home, chains _ bound]
  by_cases own : e.lbid = lbid ∧ e.verID = verID
  · obtain ⟨rfl, rfl⟩ := own
    simp
  rw [if_neg own]
  refine (congrArg _ (?_ : _ = slotOf layout s lbid verID)).trans (map_congr kept)
  split
  · rw [List.find?_cons, others]
    simp [own]
  · exact others

lemma found_of_image (image : t.image = s.image) :
    found layout t lbid verID = found layout s lbid verID := by
  cases s
  cases t
  cases image
  rfl

lemma found_congr (he : SameChains s t) (slots : ∀ i, storage t i = storage s i) :
    found layout t lbid verID = found layout s lbid verID := by
  rw [found, found, slotOf, slotOf, he.getIndex]
  simp only [slots]

section Growth

variable [Inhabited Data]

/-- A search in the new segment finds the last slot that was copied. -/
lemma found_copyTable (hs : Sound layout s) (step : layout.lwmStep ≤ 1) :
    found layout (copyTable layout s (newSegment layout s)) lbid verID =
      latest s lbid verID (field s .currentSize) := by
  have hcp : Copied layout s (copyTable layout s (newSegment layout s)) (field s .currentSize) ∧
      found layout (copyTable layout s (newSegment layout s)) lbid verID =
        latest s lbid verID (field s .currentSize) := by
    refine forEach_invariant (fun n t => Copied layout s t n ∧
      found layout t lbid verID = latest s lbid verID n) ?_ ?_
    · refine ⟨newSegment_copied hs, ?_⟩
      have hem : slotOf layout (newSegment layout s) lbid verID = none := by
        by_contra some
        obtain ⟨i, place⟩ := ne_none_iff_exists'.mp some
        have hc := (newSegment_copied hs).chained
        exact unused_newSegment i (slotOf_mem hc place).2.1
      rw [found, hem]
      rfl
    · rintro i t bound ⟨hcp, finds⟩
      by_cases hu : usedSlot s i
      · rw [if_pos (show (storage s i).lbid ≠ -1 from hu)]
        refine ⟨hcp.insert hs step bound hu, ?_⟩
        rw [found_insertEntry hcp.chained hu step (hcp.room hs bound), finds, latest]
        simp [Holds, hu]
      · rw [if_neg (show ¬ (storage s i).lbid ≠ -1 from hu)]
        refine ⟨hcp.skip hu, ?_⟩
        rw [finds, latest, if_neg fun hd => hu hd.1]
  exact hcp.2

lemma found_grown (hs : Sound layout s) (step : layout.lwmStep ≤ 1)
    (image : t.image = grown layout s) :
    found layout t lbid verID = latest s lbid verID (field s .currentSize) := by
  rw [found_of_image (s := copyTable layout s (newSegment layout s)) image, found_copyTable hs step]

end Growth

/-- Every used slot lies below the recorded size. -/
def Dense (s : Memory Data File) : Prop :=
  ∀ i, i < field s .capacity → usedSlot s i → i < field s .currentSize

lemma card_contentsBelow_iff (hs : Sound layout s) :
    (contentsBelow s (field s .currentSize)).card = (contents s).card ↔ Dense s := by
  have hi : (Finset.range (field s .currentSize)).filter (usedSlot s) ⊆
      (Finset.range (field s .capacity)).filter (usedSlot s) :=
    filter_subset_filter _ (range_subset_range.mpr hs.size)
  rw [contents, contentsBelow, contentsBelow, Multiset.card_map, Multiset.card_map,
    card_val, card_val]
  constructor
  · intro he i bound hu
    have all := eq_of_subset_of_card_le hi he.ge
    have hm : i ∈ (Finset.range (field s .capacity)).filter (usedSlot s) :=
      mem_filter.mpr ⟨mem_range.mpr bound, hu⟩
    rw [← all] at hm
    exact mem_range.mp (mem_filter.mp hm).1
  · intro dense
    congr 1
    refine hi.antisymm fun i hm => ?_
    obtain ⟨bound, hu⟩ := mem_filter.mp hm
    exact mem_filter.mpr ⟨mem_range.mpr (dense i (mem_range.mp bound) hu), hu⟩

/-- A search finds the data of the last slot that holds the version. -/
def FindsLatest (layout : Layout) (s : Memory Data File) (lbid verID : Int) : Prop :=
  ∀ i j, slotOf layout s lbid verID = some i → j < field s .capacity → Holds s lbid verID j →
    (∀ k, j < k → k < field s .capacity → ¬ Holds s lbid verID k) →
    (storage s j).data = (storage s i).data

lemma slotOf_none_of_not_holds (hc : Chained layout s)
    (none : ∀ i, i < field s .capacity → ¬ Holds s lbid verID i) :
    slotOf layout s lbid verID = Option.none := by
  by_contra some
  obtain ⟨i, place⟩ := ne_none_iff_exists'.mp some
  obtain ⟨bound, hu, hn, hver⟩ := slotOf_mem hc place
  exact none i bound ⟨hu, hn, hver⟩

lemma slotOf_isSome_of_holds (hc : Chained layout s) {j : Nat}
    (bound : j < field s .capacity) (hd : Holds s lbid verID j) :
    ∃ i, slotOf layout s lbid verID = some i := by
  by_contra none
  have missing : getIndex layout s lbid verID = Option.none := by
    by_contra some
    obtain ⟨place, hf⟩ := ne_none_iff_exists'.mp some
    exact none ⟨place.2, by rw [slotOf, hf]; rfl⟩
  obtain ⟨hu, hn, hver⟩ := hd
  exact (getIndex_eq_none_iff hc).mp missing (storage s j).entry
    (mem_contents.mpr ⟨j, bound, hu, rfl⟩) ⟨hn, hver⟩

/-- In a dense table a search answers the same after growing exactly when it found the data
of the last slot before. -/
lemma latest_eq_found_iff (hs : Sound layout s) (dense : Dense s) :
    latest s lbid verID (field s .currentSize) = found layout s lbid verID ↔
      FindsLatest layout s lbid verID := by
  have hw : ∀ j, j < field s .capacity → Holds s lbid verID j → j < field s .currentSize :=
    fun j bound hd => dense j bound hd.1
  have hsm := hs.size
  constructor
  · intro he i j place bound hd last
    have picked : latest s lbid verID (field s .currentSize) = some (storage s j).data :=
      latest_eq_some.mpr ⟨j, hw j bound hd, hd, rfl, fun k ha hl => last k ha (by omega)⟩
    rw [picked, found, place] at he
    exact Option.some.inj he
  intro finds
  cases last : latest s lbid verID (field s .currentSize) with
  | none =>
    have hem := latest_eq_none.mp last
    rw [found, slotOf_none_of_not_holds hs.toChained fun i bound hd =>
      hem i (hw i bound hd) hd]
    rfl
  | some d =>
    obtain ⟨j, hl, hd, rfl, ha⟩ := latest_eq_some.mp last
    obtain ⟨i, place⟩ := slotOf_isSome_of_holds hs.toChained (by omega) hd
    rw [found, place, finds i j place (by omega) hd fun k later bound hd' =>
      ha k later (hw k bound hd') hd']
    rfl

end SlotTable

namespace Vbbm

open ImageUndo SlotTable

variable {hasher : Int → Int → Nat} {s t : VBBM}

/-- What growing has to keep of a map. -/
structure Carried (hasher : Int → Int → Nat) (s t : VBBM) : Prop where
  lookup : ∀ lbid verID, lookupReplicas hasher t lbid verID = lookupReplicas hasher s lbid verID
  size : field t .currentSize = field s .currentSize
  files : ∀ k, k < field s .ownCount → files t k = files s k
  stored : (contents t).card = (contents s).card

/-- The map grows without loss: it has no used slot at or behind its recorded size, and of
several copies of one version a search finds the last. -/
structure Growable (hasher : Int → Int → Nat) (s : VBBM) : Prop where
  dense : Dense s
  latest : ∀ lbid verID, 0 ≤ lbid → 0 ≤ verID → FindsLatest (vbbmLayout hasher) s lbid verID

lemma lookupReplicas_eq (lbid verID : Int) : lookupReplicas hasher s lbid verID =
    if lbid < 0 ∨ verID < 0 then .error .invalidArgument
    else .ok (found (vbbmLayout hasher) s lbid verID) := by
  rw [lookupReplicas, lookup]
  split
  · rfl
  · rw [found, slotOf]
    rfl

lemma carried_iff (hs : Sound (vbbmLayout hasher) s)
    (finds : ∀ lbid verID, found (vbbmLayout hasher) t lbid verID =
      latest s lbid verID (field s .currentSize))
    (entries : contents t = contentsBelow s (field s .currentSize))
    (size : field t .currentSize = field s .currentSize)
    (he : ∀ k, SlotTable.files t k = SlotTable.files s k) :
    Carried hasher s t ↔ Growable hasher s := by
  constructor
  · intro hcar
    have hsto := hcar.stored
    rw [entries] at hsto
    have dense := (card_contentsBelow_iff hs).mp hsto
    refine ⟨dense, fun lbid verID block hver => (latest_eq_found_iff hs dense).mp ?_⟩
    have answer := hcar.lookup lbid verID
    rw [lookupReplicas_eq, lookupReplicas_eq, if_neg (by omega), if_neg (by omega), finds] at answer
    exact Except.ok.inj answer
  · intro growable
    refine ⟨fun lbid verID => ?_, size, fun k _ => he k, ?_⟩
    · rw [lookupReplicas_eq, lookupReplicas_eq]
      split
      · rfl
      · rw [finds, (latest_eq_found_iff hs growable.dense).mpr
          (growable.latest lbid verID (by omega) (by omega))]
    · rw [entries]
      exact (card_contentsBelow_iff hs).mpr growable.dense

lemma growVBBM_carried_iff (hs : Sound (vbbmLayout hasher) s) :
    Carried hasher s (growVBBM hasher s) ↔ Growable hasher s := by
  have image : (growVBBM hasher s).image = grown (vbbmLayout hasher) s := rfl
  have step : (vbbmLayout hasher).lwmStep ≤ 1 := by simp [vbbmLayout]
  obtain ⟨-, -, he⟩ := growVBBM_fields hs
  exact carried_iff hs (fun _ _ => found_grown hs step image) (grown_sound hs step image).2
    (growVBBM_shrunk hs).size he

lemma growVBBMByFiles_carried_iff (hs : Sound (vbbmLayout hasher) s) (addAFile : Nat) :
    Carried hasher s (growVBBMByFiles hasher addAFile s) ↔ Growable hasher s := by
  set copy : VBBM := clean (grown (fileLayout hasher) s) with segment
  have image : copy.image = grown (fileLayout hasher) s := rfl
  have step : (fileLayout hasher).lwmStep ≤ 1 := by simp [fileLayout, vbbmLayout]
  have start := fileLayout_sound.mpr hs
  obtain ⟨shape, -, -, he⟩ := growVBBMByFiles_spec hs addAFile
  have grows : growVBBMByFiles hasher addAFile s =
      putField copy .ownCount (field s .ownCount + addAFile) := rfl
  refine carried_iff hs (fun lbid verID => ?_) ?_ shape.size he
  · rw [← found_grown start step image, grows]
    have chains : SameChains copy (putField copy .ownCount (field s .ownCount + addAFile)) := by
      refine ⟨fun f _ own => by simp [own], ?_, ?_, ?_, ?_⟩ <;> simp
    exact found_congr chains (by simp)
  · rw [grows, contents_congr (s := copy) (by simp) (by simp), (grown_sound start step image).2]

end Vbbm

namespace SlaveNode

open SlotTable Vss Vbbm

/-- For every reachable node, growing by entries or by one file keeps all copies exactly when
the map is dense and shows the last copy of every version. -/
theorem growth_carries_iff {cfg : NodeConfig} {n : SlaveDBRMNode} (reachable : Reachable cfg n) :
    (Carried cfg.vbbmHasher n.vbbm (growVBBM cfg.vbbmHasher n.vbbm) ↔
        Growable cfg.vbbmHasher n.vbbm) ∧
      (Carried cfg.vbbmHasher n.vbbm (growVBBMByFiles cfg.vbbmHasher 1 n.vbbm) ↔
        Growable cfg.vbbmHasher n.vbbm) :=
  have sound := (reachable_sound reachable).vbbm
  ⟨growVBBM_carried_iff sound, growVBBMByFiles_carried_iff sound 1⟩

/-- Transactions 5 and 6 copy blocks 7 and 8 into the first two slots, and transaction 6 rolls
back; the copy in the first slot stays when the map grows. -/
theorem growth_carries_copy : ∃ n, [Command.writeVBEntry 5 7 0 1 0, .writeVBEntry 6 8 0 1 1,
        .vbRollbackBlocks 6 [8]].foldlM (runConfirmed exampleConfig) initial = some n ∧
      contents n.vbbm = {⟨7, 0, (default : VbbmData).setReplica 0 1 0⟩} ∧
      Carried exampleConfig.vbbmHasher n.vbbm (growVBBM exampleConfig.vbbmHasher n.vbbm) ∧
      Carried exampleConfig.vbbmHasher n.vbbm
        (growVBBMByFiles exampleConfig.vbbmHasher 1 n.vbbm) := by
  refine exists_run 4 (fun n => Lists 1 n.vbbm {⟨7, 0, (default : VbbmData).setReplica 0 1 0⟩} ∧
    field n.vbbm .currentSize = 1) (by simp [Command.real]) (by decide +kernel)
    fun n reachable ⟨shown, size⟩ => ?_
  have sound := (reachable_sound reachable).vbbm
  have first : ∀ i, i < field n.vbbm .capacity → usedSlot n.vbbm i → i = 0 := fun i bound used =>
    Nat.lt_one_iff.mp (not_le.mp fun behind =>
      (unusedFrom_of_fits sound shown.1).unused i behind bound used)
  have growable : Growable exampleConfig.vbbmHasher n.vbbm := by
    refine ⟨fun i bound used => by rw [first i bound used, size]; exact Nat.one_pos, ?_⟩
    intro lbid verID _ _ i j finds bound holds _
    obtain ⟨prev, place⟩ :
      ∃ prev, getIndex (vbbmLayout exampleConfig.vbbmHasher) n.vbbm lbid verID =
        some (prev, i) := by
      simpa [slotOf] using finds
    obtain ⟨inside, used, -⟩ := getIndex_mem sound.toChained place
    rw [first j bound holds.1, first i inside used]
  exact ⟨shown.contents sound, (growth_carries_iff reachable).1.mpr growable,
    (growth_carries_iff reachable).2.mpr growable⟩

/-- Transactions 5 and 6 copy blocks 7 and 8 into the first two slots, and transaction 5 rolls
back; the copy in the second slot is lost when the map grows. -/
theorem growth_loses_copy : ∃ n, [Command.writeVBEntry 5 7 0 1 0, .writeVBEntry 6 8 0 1 1,
        .vbRollbackBlocks 5 [7]].foldlM (runConfirmed exampleConfig) initial = some n ∧
      Reachable exampleConfig n ∧
      lookupReplicas exampleConfig.vbbmHasher n.vbbm 8 0 =
        .ok (some ((default : VbbmData).setReplica 0 1 1)) ∧
      lookupReplicas exampleConfig.vbbmHasher (growVBBM exampleConfig.vbbmHasher n.vbbm) 8 0 =
        .ok none :=
  exists_run 4 _ (by simp [Command.real]) (by decide +kernel) fun _ => And.intro

end SlaveNode
