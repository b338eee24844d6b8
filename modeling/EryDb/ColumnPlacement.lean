import EryDb.LiveExtents

/-!
# Where a new column extent goes

`createColumnExtentDBroot` reads the table twice: once for the last extent of the
column on the DBRoots, in the order partition, block offset, segment, and once for
the segment files of its partition and the next one. What the two scans find is
stated in terms of the live extents, and the position computed from it is one of
four: the next file of the stripe, a new stripe in the first file, a new file, or a
new partition.
-/

namespace ColumnPlacement

open List ImageUndo SlotScan BrmTypes ExtentMap ExtentCreation ExtentCalls LbidTiling LbidSpace
  LiveExtents

/-- The order in which extents of a column are filled. -/
def position (e : EMEntry) : ℕ ×ₗ ℕ ×ₗ ℕ :=
  toLex (e.partitionNum, toLex (e.blockOffset, e.segmentNum))

lemma le_position_iff {part offset seg : Nat} {e : EMEntry} :
    toLex (part, toLex (offset, seg)) ≤ position e ↔ part < e.partitionNum ∨
      (e.partitionNum = part ∧ offset < e.blockOffset) ∨
      (e.partitionNum = part ∧ e.blockOffset = offset ∧ seg ≤ e.segmentNum) := by
  simp only [position, Prod.Lex.toLex_le_toLex]
  omega

lemma position_le_iff {e e' : EMEntry} : position e ≤ position e' ↔
    e.partitionNum < e'.partitionNum ∨
      (e'.partitionNum = e.partitionNum ∧ e.blockOffset < e'.blockOffset) ∨
      (e'.partitionNum = e.partitionNum ∧ e'.blockOffset = e.blockOffset ∧
        e.segmentNum ≤ e'.segmentNum) := le_position_iff

/-- An extent of the column on exactly these DBRoots. -/
def Own (oid : Int) (dbRoot : DBRootsStruct) (e : EMEntry) : Prop :=
  e.fileID = oid ∧ e.dbRoots = dbRoot

instance (oid : Int) (dbRoot : DBRootsStruct) : DecidablePred (Own oid dbRoot) := fun e =>
  inferInstanceAs (Decidable (e.fileID = oid ∧ e.dbRoots = dbRoot))

section FirstPass

variable {em : Nat → EMEntry} {oid : Int} {dbRoot : DBRootsStruct} {partitionNum i n : Nat}
  {scan : HwmScan}

/-- What the first pass knows after `n` slots. -/
structure HwmKnown (em : Nat → EMEntry) (oid : Int) (dbRoot : DBRootsStruct)
    (partitionNum n : Nat) (scan : HwmScan) : Prop where
  last : Latest (fun i => (em i).range.size ≠ 0 ∧ Own oid dbRoot (em i))
    (fun i => position (em i)) n scan.lastExtentIndex
  high : toLex (scan.highestPartNum, toLex (scan.highestOffset, scan.highestSegNum)) =
    scan.lastExtentIndex.elim (toLex (0, toLex (0, 0))) (fun i => position (em i))
  empty : scan.lastExtentIndex = none → Highest (fun i => (em i).range.size ≠ 0 ∧
    (em i).fileID = oid ∧ (em i).partitionNum = partitionNum) (fun i => (em i).segmentNum) n
    scan.highEmptySegNum

lemma hwmStep_known (hk : HwmKnown em oid dbRoot partitionNum i scan) :
    HwmKnown em oid dbRoot partitionNum (i + 1) (hwmStep em oid dbRoot partitionNum i scan) := by
  obtain ⟨last, high, hem⟩ := hk
  by_cases hh : (em i).range.size ≠ 0 ∧ (em i).fileID = oid
  · by_cases hbt : (em i).dbRoots = dbRoot ∧ (scan.highestPartNum < (em i).partitionNum ∨
        ((em i).partitionNum = scan.highestPartNum ∧ scan.highestOffset < (em i).blockOffset) ∨
        ((em i).partitionNum = scan.highestPartNum ∧ (em i).blockOffset = scan.highestOffset ∧
          scan.highestSegNum ≤ (em i).segmentNum))
    · simp only [hwmStep, if_pos hh, if_pos hbt]
      refine ⟨last.take ⟨hh.1, hh.2, hbt.1⟩ fun k hf => ?_, rfl, by simp⟩
      have beats := le_position_iff.mpr hbt.2
      rwa [high, hf] at beats
    · have last' : Latest (fun i => (em i).range.size ≠ 0 ∧ Own oid dbRoot (em i))
          (fun i => position (em i)) (i + 1) scan.lastExtentIndex := by
        refine last.pass fun hpa => ?_
        have ahead : ¬ toLex (scan.highestPartNum,
            toLex (scan.highestOffset, scan.highestSegNum)) ≤ position (em i) := fun beats =>
          hbt ⟨hpa.2.2, le_position_iff.mp beats⟩
        cases hf : scan.lastExtentIndex with
        | none =>
          rw [high, hf] at ahead
          exact absurd (le_position_iff.mpr (by omega)) ahead
        | some k =>
          rw [high, hf] at ahead
          exact ⟨k, rfl, (not_le.mp ahead).le⟩
      by_cases hal : scan.lastExtentIndex = none ∧ (em i).partitionNum = partitionNum
      · have step : hwmStep em oid dbRoot partitionNum i scan = { scan with
            highEmptySegNum := some (scan.highEmptySegNum.elim (em i).segmentNum
              (max · (em i).segmentNum)) } := by
          simp only [hwmStep, if_pos hh, if_neg hbt, if_pos hal]
          cases seen : scan.highEmptySegNum with
          | none => rfl
          | some high =>
            by_cases hhi : high < (em i).segmentNum
            · simp [hhi, hhi.le]
            · have he : max high (em i).segmentNum = high := max_eq_left (not_lt.mp hhi)
              simp only [if_neg hhi, Option.elim_some, he]
              rw [← seen]
        rw [step]
        exact ⟨last', high, fun none => (hem none).raise ⟨hh.1, hh.2, hal.2⟩⟩
      · simp only [hwmStep, if_pos hh, if_neg hbt, if_neg hal]
        exact ⟨last', high, fun none => (hem none).pass fun hpa => hal ⟨none, hpa.2.2⟩⟩
  · simp only [hwmStep, if_neg hh]
    exact ⟨last.pass fun hpa => absurd ⟨hpa.1, hpa.2.1⟩ hh, high,
      fun none => (hem none).pass fun hpa => hh ⟨hpa.1, hpa.2.1⟩⟩

lemma hwmScan_known (s : Map) (oid : Int) (dbRoot : DBRootsStruct) (partitionNum : Nat) :
    HwmKnown (fExtentMap s) oid dbRoot partitionNum (emEntries s)
      (hwmScan s oid dbRoot partitionNum) :=
  forEach_invariant (HwmKnown (fExtentMap s) oid dbRoot partitionNum)
    ⟨Latest.start, rfl, fun _ => Highest.start⟩ (fun _ _ _ hk => hwmStep_known hk)

end FirstPass

section SecondPass

variable {em : Nat → EMEntry} {oid : Int} {dbRoot : DBRootsStruct} {part i n : Nat}
  {last : EMEntry} {scan : TargetScan}

lemma mem_keys_raiseSeg {k seg offset : Nat} (segs : List (Nat × Nat)) :
    k ∈ (raiseSeg seg offset segs).map Prod.fst ↔ k = seg ∨ k ∈ segs.map Prod.fst := by
  induction segs with
  | nil => simp [raiseSeg]
  | cons entry rest ih =>
    obtain ⟨key, high⟩ := entry
    by_cases he : key = seg
    · simp [raiseSeg, he]
    · simp only [raiseSeg, if_neg he, map_cons, mem_cons, ih]
      tauto

lemma nodup_keys_raiseSeg {seg offset : Nat} {segs : List (Nat × Nat)}
    (nodup : (segs.map Prod.fst).Nodup) : ((raiseSeg seg offset segs).map Prod.fst).Nodup := by
  induction segs with
  | nil => simp [raiseSeg]
  | cons entry rest ih =>
    obtain ⟨key, high⟩ := entry
    simp only [map_cons, nodup_cons] at nodup
    by_cases he : key = seg
    · simpa only [raiseSeg, if_pos he, map_cons, nodup_cons] using nodup
    · simp only [raiseSeg, if_neg he, map_cons, nodup_cons, mem_keys_raiseSeg]
      exact ⟨by tauto, ih nodup.2⟩

/-- Raising the mark of one file lowers none. -/
lemma covers_raiseSeg {k high seg offset : Nat} {segs : List (Nat × Nat)}
    (hm : (k, high) ∈ segs) : ∃ high', (k, high') ∈ raiseSeg seg offset segs ∧ high ≤ high' := by
  induction segs with
  | nil => simp at hm
  | cons entry rest ih =>
    obtain ⟨key, top⟩ := entry
    simp only [raiseSeg]
    split_ifs
    · rcases mem_cons.mp hm with heq | isLast
      · cases heq
        exact ⟨_, mem_cons_self, le_max_left _ _⟩
      · exact ⟨high, mem_cons_of_mem _ isLast, le_rfl⟩
    rcases mem_cons.mp hm with heq | isLast
    · exact ⟨high, heq ▸ mem_cons_self, le_rfl⟩
    · obtain ⟨high', ht, above⟩ := ih isLast
      exact ⟨high', mem_cons_of_mem _ ht, above⟩

lemma raised_raiseSeg (seg offset : Nat) (segs : List (Nat × Nat)) :
    ∃ high, (seg, high) ∈ raiseSeg seg offset segs ∧ offset ≤ high := by
  induction segs with
  | nil => exact ⟨offset, by simp [raiseSeg], le_rfl⟩
  | cons entry rest ih =>
    obtain ⟨key, top⟩ := entry
    by_cases he : key = seg
    · exact ⟨max top offset, by simp [raiseSeg, he], le_max_right _ _⟩
    · obtain ⟨high, ht, above⟩ := ih
      exact ⟨high, by simp [raiseSeg, he, ht], above⟩

/-- What the second pass knows after `n` slots about the partition of the last extent and the
one behind it. -/
structure TargetKnown (em : Nat → EMEntry) (oid : Int) (dbRoot : DBRootsStruct) (last : EMEntry)
    (n : Nat) (scan : TargetScan) : Prop where
  next : Highest (fun i => (em i).range.size ≠ 0 ∧ (em i).fileID = oid ∧
    (em i).partitionNum = u32 (last.partitionNum + 1)) (fun i => (em i).segmentNum) n
    scan.partHighSegNext
  highSeg : ∀ i, i < n → (em i).range.size ≠ 0 → (em i).fileID = oid →
    (em i).partitionNum = last.partitionNum → (em i).segmentNum ≤ scan.partHighSeg
  reached : scan.partHighSeg = last.segmentNum ∨ ∃ i, i < n ∧ (em i).range.size ≠ 0 ∧
    (em i).fileID = oid ∧ (em i).partitionNum = last.partitionNum ∧
    (em i).segmentNum = scan.partHighSeg
  files : ∀ k, k ∈ scan.segs.map Prod.fst ↔ k = last.segmentNum ∨ ∃ i, i < n ∧
    (em i).range.size ≠ 0 ∧ Own oid dbRoot (em i) ∧ (em i).partitionNum = last.partitionNum ∧
    (em i).segmentNum = k
  covered : ∀ i, i < n → (em i).range.size ≠ 0 → Own oid dbRoot (em i) →
    (em i).partitionNum = last.partitionNum →
    ∃ high, ((em i).segmentNum, high) ∈ scan.segs ∧ (em i).blockOffset ≤ high
  first : ∃ high, (last.segmentNum, high) ∈ scan.segs ∧ last.blockOffset ≤ high
  nodup : (scan.segs.map Prod.fst).Nodup

section Step

variable (known : TargetKnown em oid dbRoot last i scan)
include known

/-- A slot outside the partition and its successor, or of another column. -/
lemma TargetKnown.elsewhere (hh : ¬ ((em i).range.size ≠ 0 ∧ (em i).fileID = oid ∧
      (em i).partitionNum = last.partitionNum)) {high : Option Nat}
    (next : Highest (fun i => (em i).range.size ≠ 0 ∧ (em i).fileID = oid ∧
      (em i).partitionNum = u32 (last.partitionNum + 1)) (fun i => (em i).segmentNum) (i + 1)
      high) :
    TargetKnown em oid dbRoot last (i + 1) { scan with partHighSegNext := high } := by
  have earlier : ∀ j, j < i + 1 → (em j).range.size ≠ 0 → (em j).fileID = oid →
      (em j).partitionNum = last.partitionNum → j < i := by
    intro j hl hu object hpt
    rcases Nat.lt_succ_iff_lt_or_eq.mp hl with hb | rfl
    · exact hb
    · exact absurd ⟨hu, object, hpt⟩ hh
  refine ⟨next, fun j hl hu object hpt => ?_, ?_, fun k => ?_,
    fun j hl hu own hpt => ?_, known.first, known.nodup⟩
  · exact known.highSeg j (earlier j hl hu object hpt) hu object hpt
  · exact known.reached.imp_right fun ⟨j, hl, rest⟩ => ⟨j, hl.trans i.lt_succ_self, rest⟩
  · rw [known.files k]
    refine or_congr_right ⟨?_, ?_⟩
    · rintro ⟨j, hl, rest⟩
      exact ⟨j, hl.trans i.lt_succ_self, rest⟩
    · rintro ⟨j, hl, hu, own, hpt, he⟩
      exact ⟨j, earlier j hl hu own.1 hpt, hu, own, hpt, he⟩
  · exact known.covered j (earlier j hl hu own.1 hpt) hu own hpt

lemma TargetKnown.inPartition (hu : (em i).range.size ≠ 0) (object : (em i).fileID = oid)
    (hpt : (em i).partitionNum = last.partitionNum) {scan' : TargetScan}
    (highSeg : scan'.partHighSeg = max scan.partHighSeg (em i).segmentNum)
    (highNext : scan'.partHighSegNext = scan.partHighSegNext)
    (segs : scan'.segs = if (em i).dbRoots = dbRoot then
      raiseSeg (em i).segmentNum (em i).blockOffset scan.segs else scan.segs) :
    TargetKnown em oid dbRoot last (i + 1) scan' := by
  have ho : (em i).partitionNum ≠ u32 (last.partitionNum + 1) := by
    rw [hpt, u32]
    omega
  have raised : ∀ {k bound}, (∃ high, (k, high) ∈ scan.segs ∧ bound ≤ high) →
      ∃ high, (k, high) ∈ scan'.segs ∧ bound ≤ high := by
    rintro k bound ⟨high, hm, above⟩
    rw [segs]
    split
    · obtain ⟨high', ht, hhi⟩ := covers_raiseSeg hm
      exact ⟨high', ht, above.trans hhi⟩
    · exact ⟨high, hm, above⟩
  refine ⟨highNext ▸ known.next.pass fun hpa => ho hpa.2.2,
    fun j hl hu' object' hpt' => ?_, ?_, fun k => ?_, fun j hl hu' own hpt' => ?_,
    raised known.first, ?_⟩
  · rw [highSeg]
    rcases Nat.lt_succ_iff_lt_or_eq.mp hl with hb | rfl
    · exact (known.highSeg j hb hu' object' hpt').trans (le_max_left _ _)
    · exact le_max_right _ _
  · rw [highSeg]
    rcases le_total scan.partHighSeg (em i).segmentNum with hlo | hhi
    · exact Or.inr ⟨i, i.lt_succ_self, hu, object, hpt, (max_eq_right hlo).symm⟩
    · rw [max_eq_left hhi]
      exact known.reached.imp_right fun ⟨j, hl, rest⟩ => ⟨j, hl.trans i.lt_succ_self, rest⟩
  · have isLast : k = last.segmentNum ∨ (∃ j, j < i ∧ (em j).range.size ≠ 0 ∧
        Own oid dbRoot (em j) ∧ (em j).partitionNum = last.partitionNum ∧
        (em j).segmentNum = k) ∨ ((em i).dbRoots = dbRoot ∧ (em i).segmentNum = k) ↔
        k = last.segmentNum ∨ ∃ j, j < i + 1 ∧ (em j).range.size ≠ 0 ∧
        Own oid dbRoot (em j) ∧ (em j).partitionNum = last.partitionNum ∧
        (em j).segmentNum = k := by
      refine or_congr_right ⟨?_, ?_⟩
      · rintro (⟨j, hl, rest⟩ | ⟨own, he⟩)
        · exact ⟨j, hl.trans i.lt_succ_self, rest⟩
        · exact ⟨i, i.lt_succ_self, hu, ⟨object, own⟩, hpt, he⟩
      · rintro ⟨j, hl, hu', own, hpt', he⟩
        rcases Nat.lt_succ_iff_lt_or_eq.mp hl with hb | rfl
        · exact Or.inl ⟨j, hb, hu', own, hpt', he⟩
        · exact Or.inr ⟨own.2, he⟩
    rw [← isLast, segs]
    split_ifs with own
    · rw [mem_keys_raiseSeg, known.files k]
      simp only [own, true_and]
      rw [or_left_comm, @eq_comm _ k (em i).segmentNum]
      exact or_congr_right or_comm
    · rw [known.files k]
      simp only [own, false_and, or_false]
  · rcases Nat.lt_succ_iff_lt_or_eq.mp hl with hb | rfl
    · exact raised (known.covered j hb hu' own hpt')
    · rw [segs, if_pos own.2]
      exact raised_raiseSeg _ _ _
  · rw [segs]
    split
    · exact nodup_keys_raiseSeg known.nodup
    · exact known.nodup

end Step

lemma targetStep_known (hk : TargetKnown em oid dbRoot last i scan) :
    TargetKnown em oid dbRoot last (i + 1) (targetStep em oid dbRoot last.partitionNum i scan) := by
  simp only [targetStep]
  split_ifs with hh isNext hpt own
  · have ho : (em i).partitionNum ≠ last.partitionNum := by
      rw [isNext, u32]
      omega
    have raised := hk.next.raise ⟨hh.1, hh.2, isNext⟩
    cases seen : scan.partHighSegNext
    all_goals
      rw [seen] at raised
      exact hk.elsewhere (fun all => ho all.2.2) raised
  · exact hk.inPartition hh.1 hh.2 hpt rfl rfl (if_pos own).symm
  · exact hk.inPartition hh.1 hh.2 hpt rfl rfl (if_neg own).symm
  · exact hk.elsewhere (fun all => hpt all.2.2) (hk.next.pass fun hpa => isNext hpa.2.2)
  · exact hk.elsewhere (fun all => hh ⟨all.1, all.2.1⟩)
      (hk.next.pass fun hpa => hh ⟨hpa.1, hpa.2.1⟩)

lemma targetScan_known (s : Map) (oid : Int) (dbRoot : DBRootsStruct) (last : EMEntry) :
    TargetKnown (fExtentMap s) oid dbRoot last (emEntries s) (targetScan s oid dbRoot last) :=
  forEach_invariant (TargetKnown (fExtentMap s) oid dbRoot last)
    ⟨Highest.start, by simp, Or.inl rfl, by simp, by simp,
      ⟨_, mem_singleton_self _, le_rfl⟩, by simp⟩
    (fun _ _ _ hk => targetStep_known hk)

end SecondPass

/-- The place of the extent behind `last`: partition, segment and block offset. -/
inductive NextPlace (last : EMEntry) (scan : TargetScan) : Nat × Nat × Nat → Prop where
  | partition : NextPlace last scan (u32 (last.partitionNum + 1),
      scan.partHighSegNext.elim 0 (fun k => u16 (k + 1)), 0)
  | file {seg : Nat} (member : seg ∈ scan.segs.map Prod.fst) (after : last.segmentNum < seg)
      (nearest : ∀ k ∈ scan.segs.map Prod.fst, last.segmentNum < k → seg ≤ k) :
      NextPlace last scan (last.partitionNum, seg, last.blockOffset)
  | stripe {seg : Nat} (full : ∀ k ∈ scan.segs.map Prod.fst, k ≤ last.segmentNum)
      (member : seg ∈ scan.segs.map Prod.fst) (first : ∀ k ∈ scan.segs.map Prod.fst, seg ≤ k) :
      NextPlace last scan (last.partitionNum, seg, u32 (last.range.size * 1024 + last.blockOffset))
  | newFile (flat : ∀ entry ∈ scan.segs, entry.2 = 0) :
      NextPlace last scan (last.partitionNum, u16 (scan.partHighSeg + 1), 0)

lemma nextPosition_place (cfg : Config) (colWidth : Nat) {em : Nat → EMEntry} {oid : Int}
    {dbRoot : DBRootsStruct} {last : EMEntry} {n : Nat} {scan : TargetScan}
    (hk : TargetKnown em oid dbRoot last n scan) :
    NextPlace last scan (nextPosition cfg colWidth last scan) := by
  simp only [nextPosition]
  set files := scan.segs.map Prod.fst
  set top := files.foldl max last.segmentNum
  have own : last.segmentNum ∈ files := (hk.files _).mpr (Or.inl rfl)
  obtain ⟨minReached, -, least⟩ := foldl_max_spec (α := Natᵒᵈ) files last.segmentNum
  obtain ⟨maxReached, -, hgr⟩ := foldl_max_spec files last.segmentNum
  have minMember : files.foldl min last.segmentNum ∈ files := by
    rcases minReached with he | hm
    · exact he.symm ▸ own
    · exact hm
  split
  · exact .partition
  rename_i stays
  simp only [Bool.or_eq_true, Bool.and_eq_true, decide_eq_true_eq, any_eq_true,
    not_or, not_and] at stays
  by_cases lastFile : cfg.filesPerColumnPartition / cfg.dbRootCount ≤ scan.segs.length ∧
      last.segmentNum = top
  · simp only [lastFile.1, ← lastFile.2, decide_true, Bool.and_true, if_true, lt_self_iff_false,
      and_false, if_false]
    exact .stripe (fun k hm => lastFile.2 ▸ hgr k hm) minMember least
  have notLast : (decide (cfg.filesPerColumnPartition / cfg.dbRootCount ≤ scan.segs.length) &&
      decide (last.segmentNum = top)) = false := by
    simpa using lastFile
  simp only [notLast, Bool.false_eq_true, if_false]
  split
  · rename_i hcm
    -- The last extent is not in the last file, so a later file is waiting.
    have waiting : top ∈ files.filter (fun k => last.segmentNum < k) := by
      have above := hgr _ own
      have hdif : last.segmentNum ≠ top := fun he => lastFile ⟨hcm, he⟩
      refine mem_filter.mpr ⟨?_, by simpa using lt_of_le_of_ne above hdif⟩
      rcases maxReached with he | hm
      · exact absurd he.symm hdif
      · exact hm
    obtain ⟨seg, isMin⟩ : ∃ seg, (files.filter (fun k => last.segmentNum < k)).min? = some seg :=
      Option.ne_none_iff_exists'.mp fun none => by
        simp [min?_eq_none_iff.mp none] at waiting
    obtain ⟨hm, nearest⟩ := min?_eq_some_iff.mp isMin
    obtain ⟨isKey, ha⟩ := mem_filter.mp hm
    have ha : last.segmentNum < seg := by simpa using ha
    simp only [isMin, Option.getD_some]
    have place : NextPlace last scan (last.partitionNum, seg, last.blockOffset) :=
      .file isKey ha fun k key isLast => nearest k (mem_filter.mpr ⟨key, by simpa⟩)
    split
    · rename_i zero
      rwa [zero.1] at place
    · exact place
  · rename_i hcm
    have flat : ∀ entry ∈ scan.segs, entry.2 = 0 := fun entry hm => by
      by_contra high
      exact stays.1.2 (not_le.mp hcm) ⟨entry, hm, Nat.pos_of_ne_zero high⟩
    have zero : last.blockOffset = 0 := by
      obtain ⟨high, hm, above⟩ := hk.first
      have := flat _ hm
      omega
    simp only [zero, ite_self]
    exact .newFile flat

section Live

variable {s m : Map} {oid : Int} {dbRoot : DBRootsStruct}

/-- The last extent of the column on its DBRoots. -/
structure LastOwn (lives : Nat → Option EMEntry) (oid : Int) (dbRoot : DBRootsStruct) (l : Nat)
    (last : EMEntry) : Prop where
  here : lives l = some last
  own : Own oid dbRoot last
  largest : ∀ j e, lives j = some e → Own oid dbRoot e → position e ≤ position last

/-- The highest segment of the column in one partition. -/
structure HighSegment (lives : Nat → Option EMEntry) (oid : Int) (partitionNum : Nat)
    (high : Option Nat) : Prop where
  absent : high = none → ∀ i e, lives i = some e → e.fileID = oid → e.partitionNum ≠ partitionNum
  reached : ∀ h, high = some h → ∃ i e, lives i = some e ∧ e.fileID = oid ∧
    e.partitionNum = partitionNum ∧ e.segmentNum = h
  above : ∀ h, high = some h → ∀ i e, lives i = some e → e.fileID = oid →
    e.partitionNum = partitionNum → e.segmentNum ≤ h

lemma highSegment_of_highest {partitionNum : Nat} {high : Option Nat}
    (bound : ∀ i e, live s i = some e → i < emEntries s)
    (hhi : Highest (fun i => (fExtentMap s i).range.size ≠ 0 ∧ (fExtentMap s i).fileID = oid ∧
      (fExtentMap s i).partitionNum = partitionNum) (fun i => (fExtentMap s i).segmentNum)
      (emEntries s) high) : HighSegment (live s) oid partitionNum high := by
  refine ⟨fun none i e hh object hpt => ?_, fun h hk => ?_, fun h hk i e hh object hpt => ?_⟩
  · have hi := bound i e hh
    obtain ⟨rfl, hu⟩ := live_eq_some.mp hh
    exact hhi.absent none i hi ⟨hu, object, hpt⟩
  · obtain ⟨i, -, ⟨hu, object, hpt⟩, he⟩ := hhi.reached h hk
    exact ⟨i, _, live_of_used hu, object, hpt, he⟩
  · have hi := bound i e hh
    obtain ⟨rfl, hu⟩ := live_eq_some.mp hh
    exact hhi.above h hk i hi ⟨hu, object, hpt⟩

/-- What the second pass finds, in terms of the live extents. -/
structure FilesOf (lives : Nat → Option EMEntry) (oid : Int) (dbRoot : DBRootsStruct)
    (last : EMEntry) (scan : TargetScan) : Prop where
  next : HighSegment lives oid (u32 (last.partitionNum + 1)) scan.partHighSegNext
  this : HighSegment lives oid last.partitionNum (some scan.partHighSeg)
  files : ∀ k, k ∈ scan.segs.map Prod.fst ↔ ∃ i e, lives i = some e ∧ Own oid dbRoot e ∧
    e.partitionNum = last.partitionNum ∧ e.segmentNum = k
  covered : ∀ i e, lives i = some e → Own oid dbRoot e → e.partitionNum = last.partitionNum →
    ∃ high, (e.segmentNum, high) ∈ scan.segs ∧ e.blockOffset ≤ high

lemma filesOf_targetScan (bound : ∀ i e, live s i = some e → i < emEntries s) {l : Nat}
    {last : EMEntry} (isLast : LastOwn (live s) oid dbRoot l last) :
    FilesOf (live s) oid dbRoot last (targetScan s oid dbRoot last) := by
  have hk := targetScan_known s oid dbRoot last
  refine ⟨highSegment_of_highest bound hk.next, ⟨by simp, ?_, ?_⟩, fun k => ?_,
    fun i e hh own hpt => ?_⟩
  · rintro _ ⟨⟩
    rcases hk.reached with he | ⟨i, -, hu, object, hpt, he⟩
    · exact ⟨l, last, isLast.here, isLast.own.1, rfl, he.symm⟩
    · exact ⟨i, _, live_of_used hu, object, hpt, he⟩
  · rintro _ ⟨⟩ i e hh object hpt
    have hi := bound i e hh
    obtain ⟨rfl, hu⟩ := live_eq_some.mp hh
    exact hk.highSeg i hi hu object hpt
  · rw [hk.files k]
    constructor
    · rintro (rfl | ⟨i, -, hu, own, hpt, he⟩)
      · exact ⟨l, last, isLast.here, isLast.own, rfl, rfl⟩
      · exact ⟨i, _, live_of_used hu, own, hpt, he⟩
    · rintro ⟨i, e, hh, own, hpt, he⟩
      have hi := bound i e hh
      obtain ⟨rfl, hu⟩ := live_eq_some.mp hh
      exact Or.inr ⟨i, hi, hu, own, hpt, he⟩
  · have hi := bound i e hh
    obtain ⟨rfl, hu⟩ := live_eq_some.mp hh
    exact hk.covered i hi hu own hpt

/-- A new column extent goes behind the last one, or into the given partition if the column
has none on the DBRoots. -/
lemma choosePosition_place (cfg : Config) (colWidth partitionNum : Nat)
    (bound : ∀ i e, live s i = some e → i < emEntries s) :
    (∃ high, (∀ i e, live s i = some e → ¬ Own oid dbRoot e) ∧
      HighSegment (live s) oid partitionNum high ∧
      choosePosition cfg s oid colWidth dbRoot partitionNum =
        (partitionNum, high.elim 0 (fun k => u16 (k + 1)), 0)) ∨
    ∃ l last scan, LastOwn (live s) oid dbRoot l last ∧ FilesOf (live s) oid dbRoot last scan ∧
      NextPlace last scan (choosePosition cfg s oid colWidth dbRoot partitionNum) := by
  have hk := hwmScan_known s oid dbRoot partitionNum
  simp only [choosePosition]
  cases hf : (hwmScan s oid dbRoot partitionNum).lastExtentIndex with
  | none =>
    refine Or.inl ⟨_, fun i e hh own => ?_, highSegment_of_highest bound (hk.empty hf),
      rfl⟩
    have hi := bound i e hh
    obtain ⟨rfl, hu⟩ := live_eq_some.mp hh
    exact hk.last.absent hf i hi ⟨hu, own⟩
  | some l =>
    obtain ⟨-, hu, own⟩ := hk.last.found l hf
    have isLast : LastOwn (live s) oid dbRoot l (fExtentMap s l) := by
      refine ⟨live_of_used hu, own, fun j e hh own' => ?_⟩
      have hi := bound j e hh
      obtain ⟨rfl, hu'⟩ := live_eq_some.mp hh
      exact hk.last.largest l hf j hi ⟨hu', own'⟩
    exact Or.inr ⟨l, _, _, isLast, filesOf_targetScan bound isLast,
      nextPosition_place cfg colWidth (targetScan_known s oid dbRoot (fExtentMap s l))⟩

/-- Where the extents of a column put a new one. -/
inductive PlaceFor (lives : Nat → Option EMEntry) (oid : Int) (dbRoot : DBRootsStruct)
    (partitionNum : Nat) (place : Nat × Nat × Nat) : Prop where
  | first {high : Option Nat} (none : ∀ i e, lives i = some e → ¬ Own oid dbRoot e)
      (highest : HighSegment lives oid partitionNum high)
      (same : place = (partitionNum, high.elim 0 (fun k => u16 (k + 1)), 0))
  | behind {l : Nat} {last : EMEntry} {scan : TargetScan} (isLast : LastOwn lives oid dbRoot l last)
      (files : FilesOf lives oid dbRoot last scan) (next : NextPlace last scan place)

lemma placeFor_of_ready (cfg : Config) (colWidth partitionNum : Nat) (ready : ReadyFor s m) :
    PlaceFor (live s) oid dbRoot partitionNum
      (choosePosition cfg m oid colWidth dbRoot partitionNum) := by
  rw [← show live m = live s from funext ready.lives]
  rcases choosePosition_place cfg colWidth partitionNum ready.bound with
    ⟨high, none, hhi, he⟩ | ⟨l, last, scan, isLast, files, next⟩
  · exact .first none hhi he
  · exact .behind isLast files next

/-- A successful creation fills an unused slot with a column entry at that place. -/
lemma createColumnExtentDBroot_ok {cfg : Config} {colWidth partitionNum : Nat}
    {colDataType : ColDataType} {answer : CreatedExtent} {t : Map} (hv : Valid s)
    (width : colWidth ∈ columnWidths)
    (hok : createColumnExtentDBroot cfg oid colWidth dbRoot colDataType partitionNum s =
      (.ok answer, t)) :
    ∃ i range place, live s i = none ∧ range.size = extentSize colWidth / 1024 ∧
      PlaceFor (live s) oid dbRoot partitionNum place ∧
      ∀ j, live t j = if j = i then some (columnEntry range oid colWidth dbRoot colDataType
        place.1 place.2.1 place.2.2) else live s j := by
  unfold createColumnExtentDBroot created at hok
  split at hok
  · simp at hok
  rename_i lbid e t' hreq
  cases hok
  obtain ⟨m, i, ready, -, hun, rfl, lives⟩ := allocateExtent_ok hv
    (extentSize_positive width) (extentSize_small colWidth) (fun _ _ => rfl) hreq
  exact ⟨i, ⟨lbid, extentSize colWidth / 1024⟩, _, hun, rfl,
    placeFor_of_ready cfg colWidth partitionNum ready, lives⟩

end Live

end ColumnPlacement
