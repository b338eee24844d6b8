import EryDb.BlockView
import EryDb.VssLookup

/-!
# Which blocks are locked, and which versions are too old

Two queries that decide from a scan of the chains. `isLocked` stops at the first locked
entry it meets, and answers no when that entry belongs to the asking transaction, whatever
lies behind it. `isTooOld` takes the least version of a block, but starts its minimum at
version 0. For both the exact condition is stated under which the answer is the one asked
for.
-/

namespace Vss

open List SlotTable

variable {hasher : Int → Nat} {s : VSS} {lbid verID transID : Int}

lemma foldl_least (l : List VSSEntry) (start : Int) :
    verID < l.foldl (fun least e => if e.lbid = lbid ∧ e.verID < least then e.verID else least)
        start ↔
      verID < start ∧ ∀ e ∈ l, e.lbid = lbid → verID < e.verID := by
  induction l generalizing start with
  | nil => simp
  | cons e l ih =>
    rw [foldl_cons, ih, forall_mem_cons, ← and_assoc]
    refine and_congr_left fun _ => ?_
    split
    · rename_i hsm
      obtain ⟨hn, less⟩ := hsm
      constructor
      · intro hl
        exact ⟨hl.trans less, fun _ => hl⟩
      · rintro ⟨-, hl⟩
        exact hl hn
    · rename_i larger
      constructor
      · intro hl
        refine ⟨hl, fun hn => ?_⟩
        have : ¬ e.verID < start := fun less => larger ⟨hn, less⟩
        omega
      · exact And.left

lemma isTooOld_iff (hc : Chained (vssLayout hasher) s) : isTooOld hasher s lbid verID = true ↔
      verID < 0 ∧ ∀ e ∈ contents s, e.lbid = lbid → verID < e.verID := by
  rw [isTooOld, decide_eq_true_eq, foldl_least]
  refine and_congr_right fun _ => ⟨fun all e hi hn => ?_, fun all x hm hn => ?_⟩
  · obtain ⟨x, hk, he, rfl⟩ := (mem_chainEntries_iff hc).mpr ⟨hi, hn⟩
    exact all x hk he
  · obtain ⟨hi, -⟩ := (mem_chainEntries_iff hc).mp ⟨x, hm, hn, rfl⟩
    exact all x.entry hi hn

/-- All versions of the block are newer than the one asked for, and there is one. -/
def TooOld (s : VSS) (lbid verID : Int) : Prop :=
  (∃ e ∈ contents s, e.lbid = lbid) ∧ ∀ e ∈ contents s, e.lbid = lbid → verID < e.verID

/-- The answer is right for a negative version of a block that has entries, and for any other
version unless all entries of the block are newer. -/
theorem isTooOld_right_iff (chained : Chained (vssLayout hasher) s) (lbid verID : Int) :
    (isTooOld hasher s lbid verID = true ↔ TooOld s lbid verID) ↔
      if verID < 0 then ∃ e ∈ contents s, e.lbid = lbid
      else ∀ e ∈ contents s, e.lbid = lbid → ∃ e' ∈ contents s, e'.lbid = lbid ∧
        e'.verID ≤ verID := by
  rw [isTooOld_iff chained, TooOld]
  split
  · rename_i negative
    constructor
    · intro same
      by_contra none
      have all : ∀ e ∈ contents s, e.lbid = lbid → verID < e.verID := fun e inside named =>
        absurd ⟨e, inside, named⟩ none
      exact none (same.mp ⟨negative, all⟩).1
    · intro present
      exact ⟨fun both => ⟨present, both.2⟩, fun both => ⟨negative, both.2⟩⟩
  · rename_i natural
    constructor
    · intro same e inside named
      by_contra none
      push Not at none
      exact natural (same.mpr ⟨⟨e, inside, named⟩, none⟩).1
    intro older
    refine ⟨fun both => absurd both.1 natural, ?_⟩
    rintro ⟨⟨e, inside, named⟩, newer⟩
    obtain ⟨e', member, same, le⟩ := older e inside named
    have := newer e' member same
    omega

/-- The table with the one entry of version 3: version 5 is not too old. -/
theorem isTooOld_right_oneVersion :
    isTooOld (fun _ => 0) VssLookup.oneVersion 7 5 = true ↔ TooOld VssLookup.oneVersion 7 5 := by
  refine (isTooOld_right_iff VssLookup.oneVersion_sound.toChained 7 5).mpr ?_
  rw [if_neg (by decide), VssLookup.contents_oneVersion]
  intro e _ _
  exact ⟨_, Multiset.mem_singleton_self _, rfl, by decide⟩

/-- Version 1 is older than every version of block 7, and is not found too old. -/
theorem isTooOld_misses_oneVersion :
    isTooOld (fun _ => 0) VssLookup.oneVersion 7 1 = false ∧ TooOld VssLookup.oneVersion 7 1 := by
  constructor
  · rw [Bool.eq_false_iff, ne_eq, isTooOld_iff VssLookup.oneVersion_sound.toChained]
    exact fun both => absurd both.1 (by decide)
  · rw [TooOld, VssLookup.contents_oneVersion]
    simp

/-- The locked entries of a range in the order in which a scan of its blocks meets them. -/
def lockedEntries (hasher : Int → Nat) (s : VSS) (range : LBIDRange) : List VSSEntry :=
  range.lbids.flatMap fun lbid =>
    (chainEntries hasher s lbid).filter fun e => decide (e.lbid = lbid ∧ e.data.locked = true)

/-- Some block of the range has a locked entry of another transaction. -/
def ForeignLock (s : VSS) (range : LBIDRange) (transID : Int) : Prop :=
  ∃ e ∈ contents s, e.lbid ∈ range.lbids ∧ e.data.locked = true ∧ e.verID ≠ transID

lemma findSome?_find? {α β : Type} (p : α → β → Bool) (chain : α → List β) (l : List α) :
    l.findSome? (fun a => (chain a).find? (p a)) =
      (l.flatMap fun a => (chain a).filter (p a)).head? := by
  induction l with
  | nil => rfl
  | cons a l ih =>
    rw [findSome?_cons, flatMap_cons, head?_append, head?_filter, ih]
    cases (chain a).find? (p a) <;> rfl

variable (hc : Chained (vssLayout hasher) s)
include hc

variable (range : LBIDRange)

lemma foreignLock_iff :
    ForeignLock s range transID ↔ ∃ x ∈ lockedEntries hasher s range, x.verID ≠ transID := by
  simp only [lockedEntries, mem_flatMap, mem_filter, decide_eq_true_eq]
  constructor
  · rintro ⟨e, hi, hw, hlo, ho⟩
    obtain ⟨x, hm, hn, rfl⟩ := (mem_chainEntries_iff hc).mpr ⟨hi, rfl⟩
    exact ⟨x, ⟨_, hw, hm, hn, hlo⟩, ho⟩
  · rintro ⟨x, ⟨lbid, hw, hm, hn, hlo⟩, ho⟩
    obtain ⟨hi, -⟩ := (mem_chainEntries_iff hc).mp ⟨x, hm, hn, rfl⟩
    exact ⟨x.entry, hi, by rw [← hn] at hw; exact hw, hlo, ho⟩

/-- If the scan meets an entry of the transaction itself first, there is no other. -/
def NoneBehindOwn (hasher : Int → Nat) (s : VSS) (range : LBIDRange) (transID : Int) : Prop :=
  ∀ first rest, lockedEntries hasher s range = first :: rest → first.verID = transID →
    ∀ e ∈ rest, e.verID = transID

lemma isLocked_iff : isLocked hasher s range transID = true ↔
      ForeignLock s range transID ∧ NoneBehindOwn hasher s range transID := by
  rw [isLocked, findSome?_find?, ← lockedEntries, foreignLock_iff hc, NoneBehindOwn]
  cases lockedEntries hasher s range with
  | nil => simp
  | cons first rest =>
    simp only [head?_cons, decide_eq_true_eq, List.cons.injEq]
    constructor
    · intro ho
      refine ⟨⟨first, mem_cons_self, ho⟩, ?_⟩
      rintro f r ⟨rfl, -⟩ own
      exact absurd own ho
    · rintro ⟨⟨x, hm, ho⟩, hal⟩ own
      rcases mem_cons.mp hm with rfl | hbe
      · exact ho own
      · exact ho (hal first rest ⟨rfl, rfl⟩ own x hbe)

lemma noneBehindOwn_of_free {range : LBIDRange} (free : ¬ ForeignLock s range transID) :
    NoneBehindOwn hasher s range transID := by
  rw [foreignLock_iff hc] at free
  intro first rest scan _ e hbe
  by_contra ho
  exact free ⟨e, by rw [scan]; exact mem_cons_of_mem first hbe, ho⟩

lemma isLocked_right_iff : (isLocked hasher s range transID = true ↔ ForeignLock s range transID) ↔
      NoneBehindOwn hasher s range transID := by
  rw [isLocked_iff hc]
  constructor
  · intro he
    by_cases foreign : ForeignLock s range transID
    · exact (he.mpr foreign).2
    · exact noneBehindOwn_of_free hc foreign
  · exact fun hal => ⟨And.left, fun foreign => ⟨foreign, hal⟩⟩

end Vss

namespace SlaveNode

open SlotTable Vss Vbbm

variable {cfg : NodeConfig} {n : SlaveDBRMNode}

/-- The version buffer has room for the blocks that are asked for. -/
def HasRoom (cfg : NodeConfig) (n : SlaveDBRMNode) (vbOID : BrmTypes.DBRootsStruct)
    (dbrIndex : Fin 4) (ranges : List LBIDRange) : Prop :=
  ∃ free vss vbbm, getBlocks cfg.vbbmHasher cfg.vssHasher cfg.repSize cfg.fileBlocks
    (BrmTypes.u32 (ranges.map LBIDRange.size).sum) (vbOID.get dbrIndex) n.vss n.vbbm =
      some (.ok free, vss, vbbm)

lemma beginVBCopy_succeeds_iff (transID : Int) (vbOID : BrmTypes.DBRootsStruct)
    (dbrIndex : Fin 4) (ranges : List LBIDRange) :
    (∃ r t, beginVBCopy cfg transID vbOID dbrIndex ranges n = some (r, t) ∧ r.code = .ok) ↔
      HasRoom cfg n vbOID dbrIndex ranges ∧
        ¬ (dbrIndex = 0 ∧ ∃ r ∈ ranges, isLocked cfg.vssHasher n.vss r transID = true) := by
  rw [beginVBCopy, HasRoom]
  have scan : (ranges.any fun r => isLocked cfg.vssHasher n.vss r transID) = true ↔
      ∃ r ∈ ranges, isLocked cfg.vssHasher n.vss r transID = true := List.any_eq_true
  split
  · rename_i held
    rw [scan] at held
    simp [held]
  rename_i free
  rw [scan] at free
  constructor
  · rintro ⟨r, t, ran, ok⟩
    split at ran
    · cases ran
    · cases ran
      cases ok
    · rename_i freeList vss vbbm got
      exact ⟨⟨freeList, vss, vbbm, got⟩, free⟩
  · rintro ⟨⟨freeList, vss, vbbm, got⟩, -⟩
    exact ⟨⟨.ok, freeList⟩, ⟨vss, vbbm⟩, by rw [got], rfl⟩

/-- A range is found locked by another transaction exactly when no foreign lock lies behind
an own one, and then `beginVBCopy` for the first replica refuses it. -/
theorem isLocked_and_beginVBCopy_right_iff (chained : Chained (vssLayout cfg.vssHasher) n.vss)
    (transID : Int) : (∀ range, (isLocked cfg.vssHasher n.vss range transID = true ↔
        ForeignLock n.vss range transID) ↔ NoneBehindOwn cfg.vssHasher n.vss range transID) ∧
      ∀ vbOID dbrIndex ranges,
        ((∃ r t, beginVBCopy cfg transID vbOID dbrIndex ranges n = some (r, t) ∧ r.code = .ok) →
            ∀ range ∈ ranges, ¬ ForeignLock n.vss range transID) ↔
          (∀ range ∈ ranges, ¬ ForeignLock n.vss range transID) ∨
            ¬ HasRoom cfg n vbOID dbrIndex ranges ∨
            (dbrIndex = 0 ∧ ∃ range ∈ ranges, ForeignLock n.vss range transID ∧
              NoneBehindOwn cfg.vssHasher n.vss range transID) := by
  refine ⟨fun range => isLocked_right_iff chained range, fun vbOID dbrIndex ranges => ?_⟩
  rw [beginVBCopy_succeeds_iff]
  have scan : (∃ range ∈ ranges, isLocked cfg.vssHasher n.vss range transID = true) ↔
      ∃ range ∈ ranges, ForeignLock n.vss range transID ∧
        NoneBehindOwn cfg.vssHasher n.vss range transID := by
    simp only [isLocked_iff chained]
  rw [scan, imp_iff_not_or, not_and_or, not_not, or_comm]

/-- Transaction 5 holds block 7, and for transaction 9 the block is found locked. -/
theorem isLocked_right_heldBlock :
    ∃ n, [Command.writeVBEntry 5 7 0 1 0].foldlM (runConfirmed exampleConfig) initial = some n ∧
      ForeignLock n.vss ⟨7, 1⟩ 9 ∧ isLocked exampleConfig.vssHasher n.vss ⟨7, 1⟩ 9 = true := by
  refine exists_run 4 (fun n => Lists 4 n.vss {⟨7, 0, ⟨true, false⟩⟩, ⟨7, 5, ⟨false, true⟩⟩})
    (by simp [Command.real]) (by decide +kernel) ?_
  intro n reachable entries
  have sound := (reachable_sound reachable).vss
  have held := entries.contents sound
  have foreign : ForeignLock n.vss ⟨7, 1⟩ 9 :=
    ⟨⟨7, 5, ⟨false, true⟩⟩, by simp [held], by decide, rfl, by decide⟩
  refine ⟨foreign, (((isLocked_and_beginVBCopy_right_iff sound.toChained 9).1 ⟨7, 1⟩).mpr
    ?_).mpr foreign⟩
  -- transaction 9 has no entry of its own
  intro first rest scan own
  have met : first ∈ lockedEntries exampleConfig.vssHasher n.vss ⟨7, 1⟩ := by simp [scan]
  simp only [lockedEntries, List.mem_flatMap, List.mem_filter, decide_eq_true_eq] at met
  obtain ⟨lbid, -, chain, named, -⟩ := met
  obtain ⟨inside, -⟩ := (mem_chainEntries_iff sound.toChained).mp ⟨first, chain, named, rfl⟩
  rw [held] at inside
  simp [Slot.entry, own] at inside

/-- Transaction 5 holds block 7 and transaction 6 block 8; the scan for transaction 5 stops
at its own entry. -/
theorem isLocked_misses_foreign :
    ∃ n, [Command.writeVBEntry 5 7 0 1 0, .writeVBEntry 6 8 0 1 1].foldlM
        (runConfirmed exampleConfig) initial = some n ∧
      isLocked exampleConfig.vssHasher n.vss ⟨7, 2⟩ 5 = false ∧ ForeignLock n.vss ⟨7, 2⟩ 5 := by
  refine exists_run 4 (fun n => isLocked exampleConfig.vssHasher n.vss ⟨7, 2⟩ 5 = false ∧
      Lists 4 n.vss {⟨7, 0, ⟨true, false⟩⟩, ⟨7, 5, ⟨false, true⟩⟩, ⟨8, 0, ⟨true, false⟩⟩,
        ⟨8, 6, ⟨false, true⟩⟩}) (by simp [Command.real]) (by decide +kernel) ?_
  rintro n reachable ⟨own, entries⟩
  refine ⟨own, ⟨8, 6, ⟨false, true⟩⟩, ?_, by decide, rfl, by decide⟩
  simp [entries.contents (reachable_sound reachable).vss]

/-- However commands were confirmed or undone, the hash chains of both tables lead to exactly the
entries that the tables hold. -/
theorem searches_find_iff (reachable : Reachable cfg n) (lbid verID : Int) :
    ((getIndex (vssLayout cfg.vssHasher) n.vss lbid verID).isSome ↔
        ∃ e ∈ contents n.vss, e.lbid = lbid ∧ e.verID = verID) ∧
      ((getIndex (vbbmLayout cfg.vbbmHasher) n.vbbm lbid verID).isSome ↔
        ∃ e ∈ contents n.vbbm, e.lbid = lbid ∧ e.verID = verID) := by
  have sound := reachable_sound reachable
  simp [Option.isSome_iff_ne_none, getIndex_eq_none_iff sound.vss.toChained,
    getIndex_eq_none_iff sound.vbbm.toChained]

theorem exampleRun_found : ∃ n, Reachable exampleConfig n ∧
    (getIndex (vbbmLayout exampleConfig.vbbmHasher) n.vbbm 7 0).isSome := by
  obtain ⟨n, -, reachable, -, copies, -⟩ := exampleRun
  refine ⟨n, reachable, (searches_find_iff reachable 7 0).2.mpr ?_⟩
  simp [copies]

end SlaveNode
