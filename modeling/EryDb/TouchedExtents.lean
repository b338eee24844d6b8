import EryDb.CasualPartitions
import EryDb.SlotTableChains
import EryDb.Vss

/-!
# The extents a transaction has touched

`getUncommittedExtentLBIDs` sorts the blocks with a version of the transaction and keeps the first
LBID of each extent it comes to. It asks for the number of a version only: one that the transaction
has committed counts as well.
-/

namespace TouchedExtents

open List BrmTypes ExtentMap CasualPartitions SlotScan SlotTable Vss

/-- The first and the last LBID of the extent that holds a block. -/
def lookup (lbid : Int) (s : Map) : Option (Int × Int) :=
  (extentOf lbid s).map fun i =>
    ((fExtentMap s i).range.start, (fExtentMap s i).range.blockEnd - 1)

/-- The ranges behind the current one, for blocks in ascending order. -/
def laterRanges (s : Map) : Int × Int → List Int → Option (List (Int × Int))
  | _, [] => some []
  | range, lbid :: lbids =>
    if range.2 < lbid then
      (lookup lbid s).bind fun range => (laterRanges s range lbids).map (range :: ·)
    else laterRanges s range lbids

def getUncommittedExtentLBIDs (transID : Int) (vss : VSS) (s : Map) : Option (List Int) :=
  match (getUncommittedLBIDs transID vss).mergeSort with
  | [] => some []
  | lbid :: lbids => (lookup lbid s).bind fun range =>
    (laterRanges s range lbids).map fun ranges => (range :: ranges).map Prod.fst

variable {s : Map} {vss : VSS} {transID lbid : Int} {range : Int × Int} {lbids : List Int}
  {ranges : List (Int × Int)} {i : Nat}

def Holds (s : Map) (i : Nat) (lbid : Int) : Prop :=
  i < emEntries s ∧ (fExtentMap s i).range.size ≠ 0 ∧
    (fExtentMap s i).range.start ≤ lbid ∧ lbid < (fExtentMap s i).range.blockEnd

/-- No block is in two extents. -/
def Apart (s : Map) : Prop := ∀ i j lbid, Holds s i lbid → Holds s j lbid → i = j

/-- The range of the extent that holds a block. -/
def RangeOf (s : Map) (lbid : Int) (range : Int × Int) : Prop := ∃ i, Holds s i lbid ∧
  range = ((fExtentMap s i).range.start, (fExtentMap s i).range.blockEnd - 1)

lemma lookup_found (held : Holds s i lbid) :
    ∃ range, lookup lbid s = some range ∧ RangeOf s lbid range := by
  obtain ⟨j, found⟩ : ∃ j, extentOf lbid s = some j :=
    firstIndex_isSome held.1 (decide_eq_true held.2)
  obtain ⟨holds, bound⟩ := firstIndex_eq_some found
  exact ⟨_, congrArg (Option.map _) found, j, ⟨bound, of_decide_eq_true holds⟩, rfl⟩

lemma mem_getUncommittedLBIDs : lbid ∈ getUncommittedLBIDs transID vss ↔
    ∃ e ∈ contents vss, e.verID = transID ∧ e.lbid = lbid := by
  simp only [getUncommittedLBIDs, mem_map, mem_filter, mem_range, decide_eq_true_eq, mem_contents]
  constructor
  · rintro ⟨i, ⟨bound, used, version⟩, rfl⟩
    exact ⟨_, ⟨i, bound, used, rfl⟩, version, rfl⟩
  · rintro ⟨_, ⟨i, bound, used, rfl⟩, version, rfl⟩
    exact ⟨i, ⟨bound, used, version⟩, rfl⟩

/-- The ranges are those of the extents with one of the blocks. -/
def Ranges (s : Map) (lbids : List Int) (ranges : List (Int × Int)) : Prop :=
  (∀ range ∈ ranges, ∃ lbid ∈ lbids, RangeOf s lbid range) ∧
    ∀ lbid ∈ lbids, ∃ range ∈ ranges, RangeOf s lbid range

lemma Ranges.within (found : Ranges s lbids ranges) (mem : range ∈ ranges)
    (isRange : RangeOf s lbid range) : Ranges s (lbid :: lbids) ranges := by
  refine ⟨fun r inside => ?_, forall_mem_cons.mpr ⟨⟨range, mem, isRange⟩, found.2⟩⟩
  obtain ⟨l, listed, isRange⟩ := found.1 r inside
  exact ⟨l, mem_cons_of_mem lbid listed, isRange⟩

lemma Ranges.beyond (found : Ranges s lbids ranges) (isRange : RangeOf s lbid range) :
    Ranges s (lbid :: lbids) (range :: ranges) := by
  constructor
  · rw [forall_mem_cons]
    refine ⟨⟨lbid, mem_cons_self, isRange⟩, fun r inside => ?_⟩
    obtain ⟨l, listed, isRange⟩ := found.1 r inside
    exact ⟨l, mem_cons_of_mem lbid listed, isRange⟩
  · rw [forall_mem_cons]
    refine ⟨⟨range, mem_cons_self, isRange⟩, fun l listed => ?_⟩
    obtain ⟨r, inside, isRange⟩ := found.2 l listed
    exact ⟨r, mem_cons_of_mem range inside, isRange⟩

lemma laterRanges_spec (apart : Apart s) (current : RangeOf s lbid range)
    (sorted : (lbid :: lbids).Pairwise (· ≤ ·)) (allocated : ∀ l ∈ lbids, ∃ i, Holds s i l) :
    ∃ ranges, laterRanges s range lbids = some ranges ∧
      ((range :: ranges).map Prod.fst).Pairwise (· < ·) ∧
      Ranges s (lbid :: lbids) (range :: ranges) := by
  induction lbids generalizing range lbid with
  | nil =>
    refine ⟨[], rfl, by simp, ?_⟩
    exact Ranges.beyond ⟨nofun, nofun⟩ current
  | cons l lbids ih =>
    obtain ⟨⟨i, placed⟩, others⟩ := forall_mem_cons.mp allocated
    obtain ⟨j, held, rfl⟩ := id current
    obtain ⟨before, sorted⟩ := pairwise_cons.mp sorted
    have after := before l mem_cons_self
    rw [laterRanges]
    split
    · rename_i beyond
      obtain ⟨next, found, isNext⟩ := lookup_found placed
      obtain ⟨ranges, rest, ascending, matched⟩ := ih isNext sorted others
      -- the next extent begins behind the current one, or it would hold the earlier block too
      have less : (fExtentMap s j).range.start < next.1 := by
        obtain ⟨k, ⟨bound, used, above, below⟩, rfl⟩ := isNext
        by_contra low
        have shared : Holds s k lbid := by
          have start := held.2.2.1
          exact ⟨bound, used, by omega, by omega⟩
        obtain rfl := apart j k lbid held shared
        omega
      refine ⟨next :: ranges, by rw [found, Option.bind_some, rest]; rfl, ?_,
        matched.beyond current⟩
      rw [map_cons, pairwise_cons, map_cons, forall_mem_cons]
      exact ⟨⟨less, fun x mem => less.trans ((pairwise_cons.mp ascending).1 x mem)⟩, ascending⟩
    · rename_i within
      have stays : Holds s j l :=
        ⟨held.1, held.2.1, held.2.2.1.trans after, by simp only at within; omega⟩
      obtain ⟨ranges, rest, ascending, matched⟩ := ih ⟨j, stays, rfl⟩ sorted others
      exact ⟨ranges, rest, ascending, matched.within mem_cons_self current⟩

/-- The call returns the first LBIDs of exactly the extents with a version of the transaction, each
once and in ascending order. -/
lemma listed_extents (apart : Apart s) (allocated : ∀ e ∈ contents vss, ∃ i, Holds s i e.lbid) :
    ∃ lbids, getUncommittedExtentLBIDs transID vss s = some lbids ∧ lbids.Pairwise (· < ·) ∧
      ∀ x, x ∈ lbids ↔ ∃ i, x = (fExtentMap s i).range.start ∧
        ∃ e ∈ contents vss, e.verID = transID ∧ Holds s i e.lbid := by
  have listed : ∀ l, l ∈ (getUncommittedLBIDs transID vss).mergeSort ↔
      ∃ e ∈ contents vss, e.verID = transID ∧ e.lbid = l := fun l => by
    rw [mem_mergeSort, mem_getUncommittedLBIDs]
  have sorted : ((getUncommittedLBIDs transID vss).mergeSort).Pairwise (· ≤ ·) :=
    pairwise_mergeSort' (· ≤ ·) _
  rw [getUncommittedExtentLBIDs]
  cases blocks : (getUncommittedLBIDs transID vss).mergeSort with
  | nil =>
    refine ⟨[], rfl, .nil, fun x => ⟨nofun, ?_⟩⟩
    rintro ⟨i, -, e, member, version, -⟩
    have := (listed e.lbid).mpr ⟨e, member, version, rfl⟩
    simp [blocks] at this
  | cons first rest =>
    rw [blocks] at listed sorted
    have places : ∀ l ∈ first :: rest, ∃ i, Holds s i l := fun l mem => by
      obtain ⟨e, member, -, rfl⟩ := (listed l).mp mem
      exact allocated e member
    obtain ⟨⟨_, placed⟩, others⟩ := forall_mem_cons.mp places
    obtain ⟨range, found, isRange⟩ := lookup_found placed
    obtain ⟨ranges, ran, ascending, matched⟩ := laterRanges_spec apart isRange sorted others
    refine ⟨_, by simp only [found, Option.bind_some, ran]; rfl, ascending, fun x => ?_⟩
    rw [mem_map]
    constructor
    · rintro ⟨r, mem, rfl⟩
      obtain ⟨l, inside, i, holds, rfl⟩ := matched.1 r mem
      obtain ⟨e, member, version, rfl⟩ := (listed l).mp inside
      exact ⟨i, rfl, e, member, version, holds⟩
    · rintro ⟨i, rfl, e, member, version, holds⟩
      obtain ⟨_, inside, j, also, rfl⟩ :=
        matched.2 e.lbid ((listed e.lbid).mpr ⟨e, member, version, rfl⟩)
      obtain rfl := apart i j _ holds also
      exact ⟨_, inside, rfl⟩

lemma Holds.start (held : Holds s i lbid) : Holds s i (fExtentMap s i).range.start :=
  ⟨held.1, held.2.1, le_rfl, held.2.2.1.trans_lt held.2.2.2⟩

/-- The call returns the first LBIDs of exactly the extents with a version of the transaction, each
once and in ascending order. These are the extents with a locked version exactly if every extent
with a version of the transaction has a locked one. -/
theorem touched_extents (apart : Apart s) (allocated : ∀ e ∈ contents vss, ∃ i, Holds s i e.lbid) :
    ∃ lbids, getUncommittedExtentLBIDs transID vss s = some lbids ∧ lbids.Pairwise (· < ·) ∧
      (∀ x, x ∈ lbids ↔ ∃ i, x = (fExtentMap s i).range.start ∧
        ∃ e ∈ contents vss, e.verID = transID ∧ Holds s i e.lbid) ∧
      ((∀ x, x ∈ lbids ↔ ∃ i, x = (fExtentMap s i).range.start ∧ ∃ e ∈ contents vss,
          e.verID = transID ∧ e.data.locked = true ∧ Holds s i e.lbid) ↔
        ∀ i, ∀ e ∈ contents vss, e.verID = transID → Holds s i e.lbid →
          ∃ e' ∈ contents vss, e'.verID = transID ∧ e'.data.locked = true ∧ Holds s i e'.lbid) := by
  obtain ⟨lbids, ran, ascending, listed⟩ := @listed_extents s vss transID apart allocated
  refine ⟨lbids, ran, ascending, listed, ?_⟩
  constructor
  · intro exact_locked i e member version held
    obtain ⟨j, same, e', member', version', locked, held'⟩ :=
      (exact_locked _).mp ((listed _).mpr ⟨i, rfl, e, member, version, held⟩)
    -- extents with the same first LBID are one
    obtain rfl := apart i j _ held.start (same ▸ held'.start)
    exact ⟨e', member', version', locked, held'⟩
  · intro covered x
    rw [listed]
    constructor
    · rintro ⟨i, start, e, member, version, held⟩
      exact ⟨i, start, covered i e member version held⟩
    · rintro ⟨i, start, e, member, version, -, held⟩
      exact ⟨i, start, e, member, version, held⟩

/-- A table with room for one version, which transaction 3 has committed. -/
def committedBlock : VSS := putSlot (putField initShmseg .capacity 1) 0 ⟨7, 3, ⟨false, false⟩, none⟩

def oneExtent : Map := tableOf [{ zeroEntry with range := ⟨0, 8⟩ }]

lemma mem_committedBlock {e : Entry VssData} (member : e ∈ contents committedBlock) :
    e = ⟨7, 3, ⟨false, false⟩⟩ := by
  obtain ⟨i, bound, -, rfl⟩ := mem_contents.mp member
  obtain rfl : i = 0 := Nat.lt_one_iff.mp bound
  rfl

/-- The block is listed, and no version is locked. -/
theorem committed_block_listed : getUncommittedExtentLBIDs 3 committedBlock oneExtent = some [0] ∧
    ∀ e ∈ contents committedBlock, e.data.locked = false := by
  refine ⟨?_, fun e member => mem_committedBlock member ▸ rfl⟩
  have listed : getUncommittedLBIDs 3 committedBlock = [7] := by decide
  rw [getUncommittedExtentLBIDs, listed, mergeSort_singleton]
  decide

/-- Transaction 3 holds blocks 7 and 9000 and has committed block 8; transaction 2 holds 20000. -/
def heldBlocks : VSS :=
  [(7, 3, true), (9000, 3, true), (8, 3, false), (20000, 2, true)].zipIdx.foldl
    (fun s p => putSlot s p.2 ⟨p.1.1, p.1.2.1, ⟨false, p.1.2.2⟩, none⟩)
    (putField initShmseg .capacity 4)

def threeExtents : Map :=
  tableOf ([0, 8192, 16384].map fun start => { zeroEntry with range := ⟨start, 8⟩ })

lemma mem_heldBlocks {e : Entry VssData} : e ∈ contents heldBlocks ↔
    e ∈ [⟨7, 3, ⟨false, true⟩⟩, ⟨9000, 3, ⟨false, true⟩⟩, ⟨8, 3, ⟨false, false⟩⟩,
      ⟨20000, 2, ⟨false, true⟩⟩] := by
  have capacity : field heldBlocks .capacity = 4 := by decide
  have slots : ∀ i : Fin 4, usedSlot heldBlocks i := by decide
  have listed : ∀ i : Fin 4, (storage heldBlocks i).entry ∈ [⟨7, 3, ⟨false, true⟩⟩,
      ⟨9000, 3, ⟨false, true⟩⟩, ⟨8, 3, ⟨false, false⟩⟩, ⟨20000, 2, ⟨false, true⟩⟩] := by decide
  simp only [mem_contents, capacity, mem_cons, not_mem_nil, or_false]
  constructor
  · rintro ⟨i, bound, -, rfl⟩
    simpa using listed ⟨i, bound⟩
  · rintro (rfl | rfl | rfl | rfl)
    · exact ⟨0, by decide, slots 0, rfl⟩
    · exact ⟨1, by decide, slots 1, rfl⟩
    · exact ⟨2, by decide, slots 2, rfl⟩
    · exact ⟨3, by decide, slots 3, rfl⟩

lemma holds_threeExtents {i : Nat} {lbid : Int} :
    Holds threeExtents i lbid ↔ i < 3 ∧ 8192 * i ≤ lbid ∧ lbid < 8192 * i + 8192 := by
  have entries : emEntries threeExtents = 3 := by decide
  rw [Holds, entries]
  refine and_congr_right fun bound => ?_
  obtain rfl | rfl | rfl : i = 0 ∨ i = 1 ∨ i = 2 := by omega
  · rw [show (fExtentMap threeExtents 0).range = ⟨0, 8⟩ from rfl]
    simp [InlineLBIDRange.blockEnd]
  · rw [show (fExtentMap threeExtents 1).range = ⟨8192, 8⟩ from rfl]
    simp [InlineLBIDRange.blockEnd]
  · rw [show (fExtentMap threeExtents 2).range = ⟨16384, 8⟩ from rfl]
    simp [InlineLBIDRange.blockEnd]

/-- Block 8 lies in the extent of block 7, which is held. -/
theorem touched_threeExtents : ∃ lbids,
    getUncommittedExtentLBIDs 3 heldBlocks threeExtents = some lbids ∧ lbids.Pairwise (· < ·) ∧
      ∀ x, x ∈ lbids ↔ ∃ i, x = (fExtentMap threeExtents i).range.start ∧
        ∃ e ∈ contents heldBlocks, e.verID = 3 ∧ e.data.locked = true ∧
          Holds threeExtents i e.lbid := by
  obtain ⟨lbids, ran, ascending, -, locked⟩ := @touched_extents threeExtents heldBlocks 3
    (fun i j _ left right => by rw [holds_threeExtents] at left right; omega) fun e member => by
      simp only [mem_heldBlocks, mem_cons, not_mem_nil, or_false] at member
      rcases member with rfl | rfl | rfl | rfl
      · exact ⟨0, holds_threeExtents.mpr (by decide)⟩
      · exact ⟨1, holds_threeExtents.mpr (by decide)⟩
      · exact ⟨0, holds_threeExtents.mpr (by decide)⟩
      · exact ⟨2, holds_threeExtents.mpr (by decide)⟩
  refine ⟨lbids, ran, ascending, locked.mpr fun i e member version held => ?_⟩
  simp only [mem_heldBlocks, mem_cons, not_mem_nil, or_false] at member
  rcases member with rfl | rfl | rfl | rfl
  · exact ⟨_, mem_heldBlocks.mpr (by simp), rfl, rfl, held⟩
  · exact ⟨_, mem_heldBlocks.mpr (by simp), rfl, rfl, held⟩
  · refine ⟨⟨7, 3, ⟨false, true⟩⟩, mem_heldBlocks.mpr (by simp), rfl, rfl, ?_⟩
    rw [holds_threeExtents] at held ⊢
    simp only at held ⊢
    omega
  · simp at version

end TouchedExtents
