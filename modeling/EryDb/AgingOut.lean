import EryDb.BlockAllocation
import EryDb.VbbmGrowth
import EryDb.VssQueries

/-!
# What is aged out of the version buffer

A pass over the map takes out every copy that lies in the blocks to age out, or stops at one
that a transaction may fall back to. It needs that no version has two copies: a removal
takes the first copy of a version that is found, which need not be the one that was seen.
-/

namespace SlotTable

open Multiset SlotScan

variable {Data File : Type} {layout : Layout} {s : Memory Data File}

/-- No version has two entries. -/
def OneEach (s : Memory Data File) : Prop := ((contents s).map Entry.key).Nodup

lemma OneEach.slot_unique (huq : OneEach s) {i j : Nat} (first : i < field s .capacity)
    (second : j < field s .capacity) (hu : usedSlot s i) (hu' : usedSlot s j)
    (he : (storage s i).entry.key = (storage s j).entry.key) : i = j := by
  rw [OneEach, contents, contentsBelow, map_map] at huq
  refine inj_on_of_nodup_map huq i ?_ j ?_ he
  · exact Finset.mem_filter.mpr ⟨Finset.mem_range.mpr first, hu⟩
  · exact Finset.mem_filter.mpr ⟨Finset.mem_range.mpr second, hu'⟩

/-- A search for the version in a slot finds that slot. -/
lemma OneEach.getIndex_slot (huq : OneEach s) (hc : Chained layout s) {i : Nat}
    (bound : i < field s .capacity) (hu : usedSlot s i) :
    ∃ prev, getIndex layout s (storage s i).lbid (storage s i).verID = some (prev, i) := by
  cases hf : getIndex layout s (storage s i).lbid (storage s i).verID with
  | none =>
    have missing := (getIndex_eq_none_iff hc).mp hf
    exact absurd ⟨rfl, rfl⟩ (missing (storage s i).entry (mem_contents.mpr ⟨i, bound, hu, rfl⟩))
  | some place =>
    obtain ⟨prev, index⟩ := place
    obtain ⟨hi, busy, hn, hver⟩ := getIndex_mem hc hf
    obtain rfl := huq.slot_unique hi bound busy hu (Prod.ext hn hver)
    exact ⟨prev, rfl⟩

end SlotTable

namespace SlaveNode

open SlotScan SlotTable Vss Vbbm

variable {cfg : NodeConfig} {a b : Aging} {v w : View}

/-- A copy whose replica in the file `dbr` lies in the given blocks. -/
def InBlocks (repSize dbr firstFBO lastFBO : Nat) (d : VbbmData) : Prop :=
  ∃ oi, replicaIn repSize dbr d = some oi ∧ firstFBO ≤ d.vbFbo.get oi ∧ d.vbFbo.get oi ≤ lastFBO

/-- The version a block falls back to when the transaction that holds it is rolled back. -/
def Fallback (v : View) (x : Entry VbbmData) : Prop :=
  (∃ e ∈ v.versions, e.lbid = x.lbid ∧ e.data.locked = true) ∧
    RollbackVersion v.versions x.lbid x.verID

/-- A copy of the given kind is aged out with its version. -/
def AgeStepIn (P : VbbmData → Prop) (v w : View) : Prop :=
  ∃ x ∈ v.copies, P x.data ∧ ¬ Fallback v x ∧
    Removes x.lbid x.verID v.versions w.versions ∧ Drops x.lbid x.verID v.copies w.copies

variable {P : VbbmData → Prop}

lemma AgeStepIn.copies_le (step : AgeStepIn P v w) : w.copies ≤ v.copies := by
  obtain ⟨x, -, -, -, -, hdr⟩ := step
  exact hdr.le

lemma aged_copies_le (path : Relation.ReflTransGen (AgeStepIn P) v w) : w.copies ≤ v.copies := by
  induction path with
  | refl => exact le_rfl
  | tail _ step ih => exact step.copies_le.trans ih

/-- A pass over the slots below `n`. -/
structure Passed (cfg : NodeConfig) (P : VbbmData → Prop) (n : Nat) (a b : Aging) : Prop where
  sound : AgingSound cfg b
  room : SameRoom a.vbbm b.vbbm
  path : Relation.ReflTransGen (AgeStepIn P) (Aging.view a) (Aging.view b)
  cleared : b.overflow = false → ∀ j, j < n → usedSlot b.vbbm j → ¬ P (storage b.vbbm j).data
  stopped : b.overflow = true → ∃ x ∈ contents b.vbbm, P x.data ∧ Fallback (Aging.view b) x

/-- One slot is left, makes the pass stop, or is freed. -/
lemma ageSlot_cases (hs : AgingSound cfg b) (hrun : b.overflow = false)
    (repSize dbr firstFBO lastFBO i : Nat) :
    (¬ (usedSlot b.vbbm i ∧ InBlocks repSize dbr firstFBO lastFBO (storage b.vbbm i).data) ∧
      ageSlot cfg.vbbmHasher cfg.vssHasher repSize dbr firstFBO lastFBO i b = b) ∨
    (usedSlot b.vbbm i ∧ InBlocks repSize dbr firstFBO lastFBO (storage b.vbbm i).data ∧
      Fallback (Aging.view b) (storage b.vbbm i).entry ∧
      ageSlot cfg.vbbmHasher cfg.vssHasher repSize dbr firstFBO lastFBO i b =
        { b with overflow := true }) ∨
    (usedSlot b.vbbm i ∧ InBlocks repSize dbr firstFBO lastFBO (storage b.vbbm i).data ∧
      ¬ Fallback (Aging.view b) (storage b.vbbm i).entry ∧
      ageSlot cfg.vbbmHasher cfg.vssHasher repSize dbr firstFBO lastFBO i b =
        ⟨false, Vss.removeEntry cfg.vssHasher (storage b.vbbm i).lbid
          (storage b.vbbm i).verID b.vss,
          Vbbm.removeEntry cfg.vbbmHasher (storage b.vbbm i).lbid (storage b.vbbm i).verID
            b.vbbm⟩) := by
  simp only [ageSlot, hrun, Bool.false_eq_true, if_false]
  cases replica : replicaIn repSize dbr (storage b.vbbm i).data with
  | none =>
    left
    refine ⟨?_, rfl⟩
    rintro ⟨-, oi, ho, -⟩
    rw [replica] at ho
    cases ho
  | some oi =>
    have blocks : InBlocks repSize dbr firstFBO lastFBO (storage b.vbbm i).data ↔
        firstFBO ≤ (storage b.vbbm i).data.vbFbo.get oi ∧
          (storage b.vbbm i).data.vbFbo.get oi ≤ lastFBO := by
      simp [InBlocks, replica]
    dsimp only
    split_ifs with hi locked
    · have held := (isEntryLocked_iff hs.vss.toChained hi.1).mp locked
      exact Or.inr (Or.inl ⟨hi.1, blocks.mpr hi.2, held, rfl⟩)
    · exact Or.inr (Or.inr ⟨hi.1, blocks.mpr hi.2, fun held =>
        locked ((isEntryLocked_iff hs.vss.toChained hi.1).mpr held), rfl⟩)
    · exact Or.inl ⟨fun both => hi ⟨both.1, blocks.mp both.2⟩, rfl⟩

lemma Passed.oneEach {n : Nat} (passed : Passed cfg P n a b) (huq : OneEach a.vbbm) :
    OneEach b.vbbm := by
  exact Multiset.nodup_of_le (Multiset.map_le_map (aged_copies_le passed.path)) huq

variable {dbr firstFBO lastFBO : Nat}

lemma Passed.slot {repSize i : Nat} (huq : OneEach a.vbbm) (bound : i < field a.vbbm .capacity)
    (passed : Passed cfg (InBlocks repSize dbr firstFBO lastFBO) i a b) :
    Passed cfg (InBlocks repSize dbr firstFBO lastFBO) (i + 1) a
      (ageSlot cfg.vbbmHasher cfg.vssHasher repSize dbr firstFBO lastFBO i b) := by
  have one := passed.oneEach huq
  obtain ⟨hs, room, path, hcl, stopped⟩ := passed
  by_cases hov : b.overflow = true
  · rw [ageSlot, if_pos hov]
    refine ⟨hs, room, path, fun hrun => ?_, stopped⟩
    rw [hov] at hrun
    cases hrun
  have hrun : b.overflow = false := by simpa using hov
  have hi : i < field b.vbbm .capacity := by rw [room.capacity]; exact bound
  rcases ageSlot_cases hs hrun repSize dbr firstFBO lastFBO i with
    ⟨hout, he⟩ | ⟨hu, aged, held, he⟩ | ⟨hu, aged, free, he⟩
  · rw [he]
    refine ⟨hs, room, path, fun _ j hl hu => ?_, stopped⟩
    by_cases hh : j = i
    · subst hh
      exact fun aged => hout ⟨hu, aged⟩
    · exact hcl hrun j (by omega) hu
  · rw [he]
    refine ⟨⟨hs.vss, hs.vbbm⟩, room, path, ?_, fun _ => ?_⟩
    · intro hrun
      cases hrun
    · exact ⟨_, mem_contents.mpr ⟨i, hi, hu, rfl⟩, aged, held⟩
  · rw [he]
    obtain ⟨prev, hf⟩ := one.getIndex_slot hs.vbbm.toChained hi hu
    refine ⟨⟨removeEntry_sound hs.vss _ _, (removeEntry_cases hs.vbbm _ _).1⟩,
      room.trans ⟨capacity_removeEntry _ _ _, ownCount_removeEntry _ _ _⟩, path.tail ?_, ?_, ?_⟩
    · exact ⟨(storage b.vbbm i).entry, mem_contents.mpr ⟨i, hi, hu, rfl⟩, aged, free,
        removes_removeEntry hs.vss _ _, drops_removeEntry hs.vbbm _ _⟩
    · intro _ j hl busy
      obtain ⟨ho, hb, entry⟩ := used_removeEntry hs.vbbm hf busy
      rw [show (storage _ j).data = (storage b.vbbm j).data from congrArg Entry.data entry]
      exact hcl hrun j (by omega) hb
    · intro hov
      cases hov

/-- What a range ages out: every copy in the blocks of its chunks, or it stops at a copy that
is still needed. -/
lemma ageRange_passed (hs : AgingSound cfg a) (hrun : a.overflow = false)
    (huq : OneEach a.vbbm) (repSize dbr fileSize : Nat) {r : VBRange}
    (blocks : agedBlocks fileSize r = some (firstFBO, lastFBO)) :
    Passed cfg (InBlocks repSize dbr firstFBO lastFBO) (field a.vbbm .capacity) a
      (ageRange cfg.vbbmHasher cfg.vssHasher repSize dbr fileSize a r) := by
  rw [ageRange, blocks]
  refine forEach_invariant (fun n b => Passed cfg (InBlocks repSize dbr firstFBO lastFBO) n a b)
    ⟨hs, .refl _, .refl, fun _ j hl => absurd hl (Nat.not_lt_zero j), ?_⟩ ?_
  · intro hov
    rw [hrun] at hov
    cases hov
  · intro i b bound passed
    exact passed.slot huq bound

lemma Passed.clear (passed : Passed cfg P (field a.vbbm .capacity) a b)
    (hrun : b.overflow = false) : ∀ x ∈ contents b.vbbm, ¬ P x.data := by
  intro x hi
  obtain ⟨j, bound, hu, rfl⟩ := mem_contents.mp hi
  rw [passed.room.capacity] at bound
  exact passed.cleared hrun j bound hu

end SlaveNode
