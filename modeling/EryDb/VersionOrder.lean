import EryDb.BlockView

/-!
# The versions of one block as a stack

A block that no transaction has written has no entries. Any other block has its current
version, which is not in the version buffer, on top of older versions that are. The steps
below are what the commands of a node do to one such block; they are stated over the
entries of the block alone, and the order of its versions is kept by each of them.
-/

namespace SlaveNode

open Multiset SlotTable Vss Vbbm

structure Block where
  versions : Versions
  copies : Copies

def Block.empty : Block := ⟨0, 0⟩

def View.block (v : View) (l : Int) : Block := ⟨versionsOf v.versions l, copiesOf v.copies l⟩

/-- The current version of a block over its older ones, and the copies of some of these. -/
structure Stacked (top : Entry VssData) (older : Versions) (d : Copies) : Prop where
  current : top.data.vbFlag = false
  flagged : ∀ e ∈ older, e.data.vbFlag = true
  natural : ∀ e ∈ older, 0 ≤ e.verID
  below : ∀ e ∈ older, e.verID < top.verID
  distinct : (older.map Entry.verID).Nodup
  fallback : ∃ e, e ∈ older
  committed : ∃ e ∈ top ::ₘ older, e.data.locked = false
  copied : ∀ x ∈ d, ∃ e ∈ older, e.verID = x.verID
  single : (d.map Entry.verID).Nodup

def Block.Orderly (b : Block) : Prop :=
  b = .empty ∨ ∃ top older, b.versions = top ::ₘ older ∧ Stacked top older b.copies

def withoutVersion (d : Copies) (v : Int) : Copies := d.filter fun x => x.verID ≠ v

/-- The copies of some versions of a block are gone or have other replicas. -/
structure Recopied (b b' : Block) : Prop where
  versions : b'.versions = b.versions
  copies : b'.copies.map Entry.verID ≤ b.copies.map Entry.verID

/-- What a command other than a write can do to the entries of the block `l`. -/
inductive BlockStep (l : Int) : Block → Block → Prop where
  | committed {c : Versions} {d : Copies} (transID : Int) :
      BlockStep l ⟨c, d⟩ ⟨c.map (unlocked transID), d⟩
  | popped {top e : Entry VssData} {older : Versions} {d : Copies}
      (stacked : Stacked top (e ::ₘ older) d) (highest : ∀ e' ∈ older, e'.verID < e.verID)
      (more : ∃ e', e' ∈ older) (free : ∃ e' ∈ e ::ₘ older, e'.data.locked = false) :
      BlockStep l ⟨top ::ₘ e ::ₘ older, d⟩
        ⟨⟨l, e.verID, ⟨false, e.data.locked⟩⟩ ::ₘ older, withoutVersion d e.verID⟩
  | dropped {top e : Entry VssData} {older : Versions} {d : Copies}
      (stacked : Stacked top (e ::ₘ older) d)
      (more : ∃ e', e' ∈ older) (free : ∃ e' ∈ top ::ₘ older, e'.data.locked = false) :
      BlockStep l ⟨top ::ₘ e ::ₘ older, d⟩ ⟨top ::ₘ older, withoutVersion d e.verID⟩
  | emptied {b : Block} : BlockStep l b .empty

section Steps

variable {l : Int} {b b' : Block} {top e : Entry VssData} {older : Versions} {d d' : Copies}

lemma mem_withoutVersion {v : Int} {x : Entry VbbmData} :
    x ∈ withoutVersion d v ↔ x ∈ d ∧ x.verID ≠ v :=
  mem_filter

lemma withoutVersion_single {v : Int} (single : (d.map Entry.verID).Nodup) :
    ((withoutVersion d v).map Entry.verID).Nodup :=
  nodup_of_le (map_le_map (filter_le _ d)) single

/-- Fewer copies of the same versions keep a stack. -/
lemma Stacked.recopied (hst : Stacked top older d)
    (hfe : d'.map Entry.verID ≤ d.map Entry.verID) : Stacked top older d' := by
  refine { hst with copied := fun x hi => ?_, single := ?_ }
  · have hk : x.verID ∈ d.map Entry.verID := mem_of_le hfe (mem_map_of_mem Entry.verID hi)
    obtain ⟨y, held, he⟩ := mem_map.mp hk
    obtain ⟨e, hm, hver⟩ := hst.copied y held
    exact ⟨e, hm, hver.trans he⟩
  · exact nodup_of_le hfe hst.single

variable (transID : Int)

lemma unlocked_verID (e : Entry VssData) : (unlocked transID e).verID = e.verID := by
  rw [unlocked]
  split <;> rfl

lemma unlocked_vbFlag (e : Entry VssData) : (unlocked transID e).data.vbFlag = e.data.vbFlag := by
  rw [unlocked]
  split <;> rfl

lemma unlocked_lbid (e : Entry VssData) : (unlocked transID e).lbid = e.lbid := by
  rw [unlocked]
  split <;> rfl

lemma unlocked_free (free : e.data.locked = false) : (unlocked transID e).data.locked = false := by
  rw [unlocked]
  split
  · rfl
  · exact free

lemma Stacked.committed_by (hst : Stacked top older d) :
    Stacked (unlocked transID top) (older.map (unlocked transID)) d := by
  constructor
  case current => rw [unlocked_vbFlag, hst.current]
  case distinct =>
    rw [map_map]
    simpa only [Function.comp_def, unlocked_verID] using hst.distinct
  case single => exact hst.single
  case fallback =>
    obtain ⟨e, hm⟩ := hst.fallback
    exact ⟨_, mem_map_of_mem _ hm⟩
  case committed =>
    obtain ⟨e, hm, free⟩ := hst.committed
    rw [← map_cons]
    exact ⟨_, mem_map_of_mem _ hm, unlocked_free transID free⟩
  case copied =>
    intro x hi
    obtain ⟨e, hm, hver⟩ := hst.copied x hi
    exact ⟨_, mem_map_of_mem _ hm, (unlocked_verID transID e).trans hver⟩
  all_goals
    intro e hm
    obtain ⟨e', hi, rfl⟩ := mem_map.mp hm
    simp only [unlocked_verID, unlocked_vbFlag]
  · exact hst.flagged e' hi
  · exact hst.natural e' hi
  · exact hst.below e' hi

/-- A new version goes on top of the one that is copied out. -/
lemma Stacked.pushed {transID : Int} {data : VbbmData} (hst : Stacked top older d)
    (newer : top.verID < transID) :
    Stacked ⟨l, transID, ⟨false, true⟩⟩ (⟨l, top.verID, ⟨true, top.data.locked⟩⟩ ::ₘ older)
      (⟨l, top.verID, data⟩ ::ₘ d) := by
  obtain ⟨low, hi⟩ := hst.fallback
  have hp := hst.below low hi
  have natural := hst.natural low hi
  have fresh : ∀ e ∈ older, e.verID ≠ top.verID := fun e hm =>
    ne_of_lt (hst.below e hm)
  constructor
  case current => rfl
  case flagged => exact forall_mem_cons.mpr ⟨rfl, hst.flagged⟩
  case natural => exact forall_mem_cons.mpr ⟨natural.trans hp.le, hst.natural⟩
  case below => exact forall_mem_cons.mpr ⟨newer, fun e later => (hst.below e later).trans newer⟩
  case distinct =>
    rw [map_cons, nodup_cons]
    refine ⟨fun hm => ?_, hst.distinct⟩
    obtain ⟨e, later, he⟩ := mem_map.mp hm
    exact fresh e later he
  case fallback => exact ⟨_, mem_cons_self _ _⟩
  case committed =>
    obtain ⟨e, hm, free⟩ := hst.committed
    rcases mem_cons.mp hm with rfl | later
    · exact ⟨⟨l, e.verID, ⟨true, e.data.locked⟩⟩, by simp, free⟩
    · exact ⟨e, by simp [later], free⟩
  case copied =>
    intro x hm
    rcases mem_cons.mp hm with rfl | later
    · exact ⟨_, mem_cons_self _ _, rfl⟩
    · obtain ⟨e, held, hver⟩ := hst.copied x later
      exact ⟨e, mem_cons_of_mem held, hver⟩
  case single =>
    rw [map_cons, nodup_cons]
    refine ⟨fun hm => ?_, hst.single⟩
    obtain ⟨x, later, he⟩ := mem_map.mp hm
    obtain ⟨e, held, hver⟩ := hst.copied x later
    exact fresh e held (hver.trans he)

variable (hst : Stacked top (e ::ₘ older) d)
include hst

lemma Stacked.beneath : (∀ e' ∈ older, e'.data.vbFlag = true) ∧ (∀ e' ∈ older, 0 ≤ e'.verID) ∧
      (∀ e' ∈ older, e'.verID ≠ e.verID) ∧ (older.map Entry.verID).Nodup := by
  have hdi := hst.distinct
  rw [map_cons, nodup_cons] at hdi
  refine ⟨fun e' hm => hst.flagged e' (mem_cons_of_mem hm),
    fun e' hm => hst.natural e' (mem_cons_of_mem hm),
    fun e' hm he => hdi.1 ?_, hdi.2⟩
  rw [← he]
  exact mem_map_of_mem Entry.verID hm

lemma Stacked.copied_below : ∀ x ∈ withoutVersion d e.verID, ∃ e' ∈ older, e'.verID = x.verID := by
  intro x hi
  obtain ⟨held, ho⟩ := mem_withoutVersion.mp hi
  obtain ⟨e', hm, hver⟩ := hst.copied x held
  rcases mem_cons.mp hm with rfl | later
  · exact absurd hver.symm ho
  · exact ⟨e', later, hver⟩

lemma Stacked.others : ∀ u ∈ top ::ₘ older, u.verID ≠ e.verID :=
  forall_mem_cons.mpr ⟨(hst.below e (mem_cons_self _ _)).ne', hst.beneath.2.2.1⟩

omit hst in
/-- A stack with one older version has copies of that version only. -/
lemma Stacked.no_copies (hst : Stacked top (e ::ₘ 0) d) : withoutVersion d e.verID = 0 := by
  apply eq_zero_of_forall_notMem
  intro x hi
  obtain ⟨e', none, -⟩ := hst.copied_below x hi
  cases none

/-- The version under the top becomes the current one again. -/
lemma Stacked.popped (hhi : ∀ e' ∈ older, e'.verID < e.verID) (more : ∃ e', e' ∈ older)
    (free : ∃ e' ∈ e ::ₘ older, e'.data.locked = false) :
    Stacked ⟨l, e.verID, ⟨false, e.data.locked⟩⟩ older (withoutVersion d e.verID) := by
  obtain ⟨hfl, hna, -, hdi⟩ := hst.beneath
  refine ⟨rfl, hfl, hna, hhi, hdi, more, ?_, hst.copied_below, withoutVersion_single hst.single⟩
  obtain ⟨e', hm, hunh⟩ := free
  rcases mem_cons.mp hm with rfl | later
  · exact ⟨_, mem_cons_self _ _, hunh⟩
  · exact ⟨e', mem_cons_of_mem later, hunh⟩

/-- An older version goes from under the top. -/
lemma Stacked.dropped (more : ∃ e', e' ∈ older)
    (free : ∃ e' ∈ top ::ₘ older, e'.data.locked = false) :
    Stacked top older (withoutVersion d e.verID) := by
  obtain ⟨hfl, hna, -, hdi⟩ := hst.beneath
  exact ⟨hst.current, hfl, hna, fun e' hm => hst.below e' (mem_cons_of_mem hm), hdi, more, free,
    hst.copied_below, withoutVersion_single hst.single⟩

omit hst

/-- A version that is flagged is under the top. -/
lemma Stacked.under (hst : Stacked top older d) (hi : e ∈ top ::ₘ older)
    (hfl : e.data.vbFlag = true) : e ∈ older := by
  rcases mem_cons.mp hi with rfl | hun
  · rw [hst.current] at hfl
    cases hfl
  · exact hun

lemma stacked_started {transID : Int} {data : VbbmData} (hp : 0 < transID) :
    Stacked ⟨l, transID, ⟨false, true⟩⟩ {⟨l, 0, ⟨true, false⟩⟩} {⟨l, 0, data⟩} := by
  constructor
  case fallback => exact ⟨_, mem_singleton_self _⟩
  case committed => exact ⟨⟨l, 0, ⟨true, false⟩⟩, by simp, rfl⟩
  all_goals simp [hp]

lemma Recopied.orderly (recopied : Recopied b b') (hor : b.Orderly) : b'.Orderly := by
  rcases hor with rfl | ⟨top, older, held, hst⟩
  · obtain ⟨versions, hfe⟩ := recopied
    have none : b'.copies = 0 := map_eq_zero.mp (le_zero.mp hfe)
    left
    cases b'
    exact congrArg₂ Block.mk versions none
  · exact Or.inr ⟨top, older, recopied.versions.trans held, hst.recopied recopied.copies⟩

lemma BlockStep.orderly (step : BlockStep l b b') (hor : b.Orderly) : b'.Orderly := by
  cases step with
  | committed transID =>
    rcases hor with none | ⟨top, older, held, hst⟩
    · obtain ⟨rfl, rfl⟩ := Block.mk.inj none
      exact Or.inl rfl
    · obtain rfl := held
      exact Or.inr ⟨_, _, map_cons _ _ _, hst.committed_by transID⟩
  | popped hst hhi more free =>
    exact Or.inr ⟨_, _, rfl, hst.popped hhi more free⟩
  | dropped hst more free => exact Or.inr ⟨_, _, rfl, hst.dropped more free⟩
  | emptied => exact Or.inl rfl

end Steps

section Reduction

variable {l v transID : Int} {c c' : Versions} {d d' : Copies} {top : Entry VssData}
  {older : Versions}

/-- Some version of a block is in the version buffer or not committed. -/
def Needed (c : Versions) : Prop := ∃ e ∈ c, e.data.vbFlag = true ∨ e.data.locked = true

instance (c : Versions) : Decidable (Needed c) := Multiset.decidableExistsMultiset

/-- What garbage collection leaves of a block. -/
def settled (c : Versions) : Versions := if Needed c then c else 0

variable {e : Entry VssData}

lemma settled_of_flagged (hm : e ∈ c) (hfl : e.data.vbFlag = true) : settled c = c :=
  if_pos ⟨e, hm, Or.inl hfl⟩

lemma settled_singleton (hcu : e.data.vbFlag = false) (free : e.data.locked = false) :
    settled {e} = 0 := by
  apply if_neg
  rintro ⟨e', hm, hnd⟩
  obtain rfl := mem_singleton.mp hm
  simp [hcu, free] at hnd

lemma versionsOf_collected_self : versionsOf (collected l c) l = settled (versionsOf c l) := by
  have he : Busy l c ↔ Needed (versionsOf c l) := by
    constructor
    · rintro ⟨e, hm, hn, hnd⟩
      exact ⟨e, mem_versionsOf.mpr ⟨hm, hn⟩, hnd⟩
    · rintro ⟨e, hm, hnd⟩
      obtain ⟨hi, hn⟩ := mem_versionsOf.mp hm
      exact ⟨e, hi, hn, hnd⟩
  by_cases busy : Busy l c
  · rw [collected, settled, if_pos busy, if_pos (he.mp busy)]
  · rw [collected, settled, if_neg busy, if_neg (fun hnd => busy (he.mpr hnd)), versionsOf,
      filter_filter, filter_eq_nil]
    rintro e - ⟨hn, ho⟩
    exact ho hn

/-- The only entry of a version goes, and the rest of the block is settled. -/
lemma Removes.settles {rest : Versions} (hrem : Removes l v c c')
    (shape : versionsOf c l = e ::ₘ rest) (hver : e.verID = v) (hos : ∀ e' ∈ rest, e'.verID ≠ v) :
    versionsOf c' l = settled rest := by
  have hk : e ∈ versionsOf c l := by simp [shape]
  obtain ⟨hi, hn⟩ := mem_versionsOf.mp hk
  rcases hrem with ⟨-, missing⟩ | ⟨gone, left, ⟨hn', hver'⟩, rfl, rfl⟩
  · exact absurd ⟨hn, hver⟩ (missing e hi)
  rw [versionsOf_cons_eq hn'] at shape
  rw [versionsOf_collected_self]
  rcases cons_eq_cons.mp shape with ⟨-, he⟩ | ⟨-, hl, -, rfl⟩
  · rw [he]
  · exact absurd hver' (hos gone (mem_cons_self _ _))

lemma withoutVersion_cons_eq {x : Entry VbbmData} (he : x.verID = v) :
    withoutVersion (x ::ₘ d) v = withoutVersion d v :=
  filter_cons_of_neg _ (not_not.mpr he)

lemma withoutVersion_eq_self (missing : ∀ x ∈ d, x.verID ≠ v) : withoutVersion d v = d :=
  filter_eq_self.mpr missing

lemma Drops.block (hdr : Drops l v d d') (single : ((copiesOf d l).map Entry.verID).Nodup) :
    copiesOf d' l = withoutVersion (copiesOf d l) v := by
  rcases hdr with ⟨rfl, missing⟩ | ⟨x, ⟨hn, hver⟩, rfl⟩
  · refine (withoutVersion_eq_self fun x hm he => ?_).symm
    obtain ⟨hi, hn⟩ := mem_copiesOf.mp hm
    exact missing x hi ⟨hn, he⟩
  rw [copiesOf_cons_eq hn, map_cons, nodup_cons] at single
  rw [copiesOf_cons_eq hn, withoutVersion_cons_eq hver]
  refine (withoutVersion_eq_self fun x hm he => single.1 ?_).symm
  rw [hver, ← he]
  exact mem_map_of_mem Entry.verID hm

lemma Flags.block {vbFlag : Bool} (flags : Flags l v vbFlag c c') :
    ∃ e rest, e.verID = v ∧ versionsOf c l = e ::ₘ rest ∧
      versionsOf c' l = ⟨l, v, ⟨vbFlag, e.data.locked⟩⟩ ::ₘ rest := by
  obtain ⟨e, rest, ⟨hn, hver⟩, rfl, rfl⟩ := flags
  exact ⟨e, versionsOf rest l, hver, versionsOf_cons_eq hn, versionsOf_cons_eq rfl⟩

/-- An entry with another version than the top lies under it. -/
lemma split_beneath {rest : Versions} (he : top ::ₘ older = e ::ₘ rest) (ho : e.verID ≠ top.verID) :
    ∃ below, older = e ::ₘ below ∧ rest = top ::ₘ below := by
  rcases cons_eq_cons.mp he with ⟨rfl, -⟩ | ⟨-, below, first, second⟩
  · exact absurd rfl ho
  · exact ⟨below, first, second⟩

/-- The newest copied version up to the top is the highest one under it. -/
lemma highestInVB_under {max : Int} (hst : Stacked top older d)
    (shape : versionsOf c l = top ::ₘ older) (hhi : HighestInVB c l max v) :
    (∃ e ∈ older, e.verID = v) ∧ ∀ e ∈ older, e.verID ≤ max → e.verID ≤ v := by
  obtain ⟨e, hi, hn, hfl, hver⟩ := hhi.inside
  have hm : e ∈ versionsOf c l := mem_versionsOf.mpr ⟨hi, hn⟩
  rw [shape] at hm
  refine ⟨⟨e, hst.under hm hfl, hver⟩, fun e' later hbo => ?_⟩
  have hk : e' ∈ versionsOf c l := by
    rw [shape]
    exact mem_cons_of_mem later
  obtain ⟨hi', hn'⟩ := mem_versionsOf.mp hk
  exact hhi.highest e' hi' hn' (hst.flagged e' later) hbo

end Reduction

end SlaveNode
