import EryDb.VersionOrder

/-!
# The commands as steps of single blocks

On a block in order every relation between views that a command stands for is one step of
the block. A rollback is such a step only for a block on which its transaction holds a
locked entry; for any other block it would take a version from under the current one.
-/

namespace SlaveNode

open Multiset SlotTable Vss Vbbm

variable {v w : View} {l lbid transID : Int} {top : Entry VssData} {older : Versions}

variable {e : Entry VssData} {rest : Versions} {d : Copies}

/-- A rollback of the current version uncovers the one under it. -/
lemma RolledBack.pops (hst : Stacked top older (copiesOf v.copies l))
    (shape : versionsOf v.versions l = top ::ₘ older) (own : top.verID = transID)
    (hrol : RolledBack transID l v w) :
    ∃ e rest, older = e ::ₘ rest ∧ (∀ e' ∈ rest, e'.verID < e.verID) ∧
      versionsOf w.versions l = settled (⟨l, e.verID, ⟨false, e.data.locked⟩⟩ ::ₘ rest) ∧
      copiesOf w.copies l = withoutVersion (copiesOf v.copies l) e.verID := by
  cases hrol with
  | untouched none copies hrem =>
    obtain ⟨e, hm⟩ := hst.fallback
    have hk : e ∈ versionsOf v.versions l := by simp [shape, hm]
    obtain ⟨hi, hn⟩ := mem_versionsOf.mp hk
    have hlo := hst.below e hm
    refine absurd ⟨hst.natural e hm, ?_⟩ (none e hi hn (hst.flagged e hm))
    omega
  | unflagged hhi hdr flags hrem =>
    rename_i oldVerID c
    obtain ⟨⟨e₀, hun, hver₀⟩, hmax⟩ := highestInVB_under hst shape hhi
    have hlo := hst.below e₀ hun
    obtain ⟨e, rest, hver, split, hcl⟩ := flags.block
    obtain ⟨hl, rfl, rfl⟩ := split_beneath (shape.symm.trans split) (by omega)
    obtain ⟨-, -, hap, -⟩ := hst.beneath
    rw [cons_swap] at hcl
    have ha := hrem.settles hcl own fun e' hm => ?_
    refine ⟨e, hl, rfl, fun e' hm => ?_, ?_, ?_⟩
    · have bound := hst.below e' (mem_cons_of_mem hm)
      have := hmax e' (mem_cons_of_mem hm) (by omega)
      have := hap e' hm
      omega
    · rw [ha, hver]
    · rw [hdr.block hst.single, hver]
    rcases mem_cons.mp hm with rfl | later
    · show oldVerID ≠ transID
      omega
    · have := hst.below e' (mem_cons_of_mem later)
      omega

/-- A rollback of a version under the current one takes it out. -/
lemma RolledBack.unstacks (hst : Stacked top older (copiesOf v.copies l))
    (shape : versionsOf v.versions l = top ::ₘ older) (own : ∃ e ∈ older, e.verID = transID)
    (hrol : RolledBack transID l v w) : ∃ e rest, older = e ::ₘ rest ∧ e.verID = transID ∧
      versionsOf w.versions l = settled (top ::ₘ rest) ∧
      copiesOf w.copies l = withoutVersion (copiesOf v.copies l) e.verID := by
  obtain ⟨e₁, hun₁, rfl⟩ := own
  have hlo := hst.below e₁ hun₁
  have hna := hst.natural e₁ hun₁
  cases hrol with
  | untouched none copies hrem =>
    have hk : e₁ ∈ versionsOf v.versions l := by simp [shape, hun₁]
    obtain ⟨hi, hn⟩ := mem_versionsOf.mp hk
    exact absurd ⟨hna, le_rfl⟩ (none e₁ hi hn (hst.flagged e₁ hun₁))
  | unflagged hhi hdr flags hrem =>
    rename_i oldVerID c
    obtain ⟨-, hmax⟩ := highestInVB_under hst shape hhi
    obtain rfl : oldVerID = e₁.verID := by
      have := hmax e₁ hun₁ le_rfl
      have := hhi.bounds
      omega
    obtain ⟨e, rest, hver, split, hcl⟩ := flags.block
    obtain ⟨hl, rfl, rfl⟩ := split_beneath (shape.symm.trans split) (by omega)
    refine ⟨e, hl, rfl, hver, hrem.settles hcl rfl (hver ▸ hst.others), ?_⟩
    rw [hdr.block hst.single, hver]

lemma step_of_pop (hst : Stacked top (e ::ₘ rest) d) (held : top.data.locked = true)
    (hhi : ∀ e' ∈ rest, e'.verID < e.verID) : BlockStep l ⟨top ::ₘ e ::ₘ rest, d⟩
      ⟨settled (⟨l, e.verID, ⟨false, e.data.locked⟩⟩ ::ₘ rest), withoutVersion d e.verID⟩ := by
  obtain ⟨u, hm, free⟩ := hst.committed
  have free : ∃ u ∈ e ::ₘ rest, u.data.locked = false := by
    rcases mem_cons.mp hm with rfl | later
    · rw [held] at free
      cases free
    · exact ⟨u, later, free⟩
  by_cases more : ∃ e', e' ∈ rest
  · obtain ⟨e', hl⟩ := more
    rw [settled_of_flagged (mem_cons_of_mem hl) (hst.flagged e' (mem_cons_of_mem hl))]
    exact .popped hst hhi ⟨e', hl⟩ free
  obtain rfl : rest = 0 := eq_zero_of_forall_notMem fun e' hl => more ⟨e', hl⟩
  obtain ⟨u, only, free⟩ := free
  obtain rfl := mem_singleton.mp only
  have none : withoutVersion d u.verID = 0 := hst.no_copies
  have gone : settled (⟨l, u.verID, ⟨false, u.data.locked⟩⟩ ::ₘ 0) = 0 :=
    settled_singleton rfl free
  rw [none, gone]
  exact .emptied

lemma step_of_drop (hst : Stacked top (e ::ₘ rest) d)
    (free : ∃ u ∈ top ::ₘ rest, u.data.locked = false) : BlockStep l ⟨top ::ₘ e ::ₘ rest, d⟩
      ⟨settled (top ::ₘ rest), withoutVersion d e.verID⟩ := by
  by_cases more : ∃ e', e' ∈ rest
  · obtain ⟨e', hl⟩ := more
    rw [settled_of_flagged (mem_cons_of_mem hl) (hst.flagged e' (mem_cons_of_mem hl))]
    exact .dropped hst ⟨e', hl⟩ free
  obtain rfl : rest = 0 := eq_zero_of_forall_notMem fun e' hl => more ⟨e', hl⟩
  obtain ⟨u, only, free⟩ := free
  obtain rfl := mem_singleton.mp only
  have none : withoutVersion d e.verID = 0 := hst.no_copies
  have gone : settled (u ::ₘ 0) = 0 := settled_singleton hst.current free
  rw [none, gone]
  exact .emptied

/-- A rollback of a block its transaction holds. -/
lemma RolledBack.block_step (hor : (v.block l).Orderly)
    (held : ∃ e ∈ versionsOf v.versions l, e.verID = transID ∧ e.data.locked = true)
    (hrol : RolledBack transID l v w) : BlockStep l (v.block l) (w.block l) := by
  obtain ⟨own, hm, hver, hlo⟩ := held
  rcases hor with hem | ⟨top, older, shape, hst⟩
  · have none : versionsOf v.versions l = 0 := congrArg Block.versions hem
    simp [none] at hm
  have shape : versionsOf v.versions l = top ::ₘ older := shape
  have hst : Stacked top older (copiesOf v.copies l) := hst
  rw [shape] at hm
  simp only [View.block, shape]
  rcases mem_cons.mp hm with rfl | hun
  · obtain ⟨e, rest, rfl, hhi, versions, copies⟩ := hrol.pops hst shape hver
    rw [versions, copies]
    exact step_of_pop hst hlo hhi
  obtain ⟨e, rest, rfl, number, versions, copies⟩ := hrol.unstacks hst shape ⟨own, hun, hver⟩
  rw [versions, copies]
  obtain ⟨-, -, hap, -⟩ := hst.beneath
  have he : own = e := by
    rcases mem_cons.mp hun with hh | hl
    · exact hh
    · exact absurd (hver.trans number.symm) (hap own hl)
  obtain ⟨u, hk, free⟩ := hst.committed
  rw [cons_swap] at hk
  refine step_of_drop hst ⟨u, (mem_cons.mp hk).resolve_left ?_, free⟩
  rintro rfl
  rw [← he, hlo] at free
  cases free

/-- The current version of a stacked block is its top. -/
lemma Current.eq_top {oldVerID : Int} {c : Versions} (hst : Stacked top older d)
    (shape : versionsOf c l = top ::ₘ older) (hcu : Current c l oldVerID) :
    oldVerID = top.verID := by
  rcases hcu with ⟨e, hi, hn, hunf, rfl⟩ | ⟨-, hfl⟩
  · have hm : e ∈ versionsOf c l := mem_versionsOf.mpr ⟨hi, hn⟩
    rw [shape] at hm
    rcases mem_cons.mp hm with rfl | hun
    · rfl
    · rw [hst.flagged e hun] at hunf
      cases hunf
  · have hm : top ∈ versionsOf c l := by simp [shape]
    obtain ⟨hi, hn⟩ := mem_versionsOf.mp hm
    have contrary := hst.current
    rw [hfl top hi hn] at contrary
    cases contrary

lemma absent_of_empty (hem : v.block l = .empty) : ∀ e ∈ v.versions, e.lbid ≠ l := fun e hi hn => by
  have hm : e ∈ versionsOf v.versions l := mem_versionsOf.mpr ⟨hi, hn⟩
  rw [show versionsOf v.versions l = 0 from congrArg Block.versions hem] at hm
  cases hm

/-- A write of a block in order starts it, puts a version on it, or changes a copy. -/
lemma Written.block_cases {dbrIdx : Fin 4} {vbOID vbFBO : Nat} (hor : (v.block l).Orderly)
    (hwr : Written transID l dbrIdx vbOID vbFBO v w) :
    ((w.block l).versions = (v.block l).versions ∧
        (w.block l).copies.map Entry.verID = (v.block l).copies.map Entry.verID ∧
        ∃ e ∈ (v.block l).versions, e.verID = transID ∧ e.data.vbFlag = false) ∨
      (v.block l = .empty ∧ 0 < transID ∧ w.block l =
        ⟨⟨l, transID, ⟨false, true⟩⟩ ::ₘ {⟨l, 0, ⟨true, false⟩⟩},
          {⟨l, 0, (default : VbbmData).setReplica dbrIdx vbOID vbFBO⟩}⟩) ∨
      ∃ top older, v.block l = ⟨top ::ₘ older, copiesOf v.copies l⟩ ∧
        Stacked top older (copiesOf v.copies l) ∧ top.verID < transID ∧ w.block l =
        ⟨⟨l, transID, ⟨false, true⟩⟩ ::ₘ ⟨l, top.verID, ⟨true, top.data.locked⟩⟩ ::ₘ older,
          ⟨l, top.verID, (default : VbbmData).setReplica dbrIdx vbOID vbFBO⟩ ::ₘ
            copiesOf v.copies l⟩ := by
  cases hwr with
  | replica hcu hhi key hb ha versions =>
    left
    obtain ⟨hn, hver⟩ := key
    refine ⟨by rw [View.block, View.block, versions], ?_, ?_⟩
    · simp [View.block, hb, ha, copiesOf_cons_eq hn, copiesOf_cons_eq rfl, hver]
    rcases hor with hem | ⟨top, older, shape, hst⟩
    · obtain ⟨e, hi, hk, -⟩ := hhi.inside
      exact absurd hk (absent_of_empty hem e hi)
    · exact ⟨top, by simp [shape], (hcu.eq_top hst shape).symm, hst.current⟩
  | flagged hcu newer hp flags versions copies =>
    right
    right
    rename_i oldVerID c
    rcases hor with hem | ⟨top, older, shape, hst⟩
    · have := hcu.of_absent (absent_of_empty hem)
      omega
    · have shape : versionsOf v.versions l = top ::ₘ older := shape
      obtain rfl := hcu.eq_top hst shape
      obtain ⟨e, rest, hver, split, flagged⟩ := flags.block
      obtain ⟨rfl, rfl⟩ : e = top ∧ rest = older := by
        rcases cons_eq_cons.mp (shape.symm.trans split) with ⟨rfl, rfl⟩ | ⟨-, hl, rfl, -⟩
        · exact ⟨rfl, rfl⟩
        · have := hst.below e (mem_cons_self _ _)
          omega
      refine ⟨e, rest, ?_, hst, newer, ?_⟩
      · rw [View.block, shape]
      · simp [View.block, versions, copies, versionsOf_cons_eq, copiesOf_cons_eq, flagged]
  | started hcu newer old versions copies =>
    right
    left
    rename_i oldVerID
    rcases hor with hem | ⟨top, older, shape, hst⟩
    · have none : versionsOf v.versions l = 0 := congrArg Block.versions hem
      have bare : copiesOf v.copies l = 0 := congrArg Block.copies hem
      obtain rfl := hcu.of_absent (absent_of_empty hem)
      refine ⟨hem, newer, ?_⟩
      simp only [View.block, versions, copies, versionsOf_cons_eq, copiesOf_cons_eq, none, bare]
      rfl
    · have := hcu.eq_top hst shape
      obtain ⟨e, hun⟩ := hst.fallback
      have := hst.below e hun
      have := hst.natural e hun
      omega

lemma block_eq (versions : versionsOf w.versions l = versionsOf v.versions l)
    (copies : copiesOf w.copies l = copiesOf v.copies l) : w.block l = v.block l := by
  rw [View.block, View.block, versions, copies]

lemma RolledBack.block_frame (hrol : RolledBack transID lbid v w) (ho : l ≠ lbid) :
    w.block l = v.block l :=
  block_eq (hrol.frame ho).1 (hrol.frame ho).2

lemma Written.block_frame {dbrIdx : Fin 4} {vbOID vbFBO : Nat}
    (hwr : Written transID lbid dbrIdx vbOID vbFBO v w) (ho : l ≠ lbid) :
    w.block l = v.block l := by
  have hap : lbid ≠ l := Ne.symm ho
  cases hwr with
  | replica hcu hhi key hb ha versions =>
    obtain ⟨hn, -⟩ := key
    apply block_eq
    · rw [versions]
    · rw [hb, ha, copiesOf_cons_ne hap, copiesOf_cons_ne (by rwa [hn])]
  | flagged hcu newer hp flags versions copies =>
    apply block_eq
    · rw [versions, versionsOf_cons_ne hap, flags.frame ho]
    · rw [copies, copiesOf_cons_ne hap]
  | started hcu newer old versions copies =>
    apply block_eq
    · rw [versions, versionsOf_cons_ne hap, versionsOf_cons_ne hap]
    · rw [copies, copiesOf_cons_ne hap]

/-- The version a held block falls back to. -/
def FallsBackTo (c : Versions) (e : Entry VssData) : Prop :=
  (∃ u ∈ c, u.data.locked = true) ∧ e.data.locked = false ∧
    ∀ u ∈ c, u.data.locked = false → u.verID ≤ e.verID

/-- The version a locked block falls back to is not aged out, so an unlocked one is left. -/
lemma unlocked_left (hst : Stacked top (e ::ₘ rest) d)
    (hung : ¬ FallsBackTo (top ::ₘ e ::ₘ rest) e) : ∃ u ∈ top ::ₘ rest, u.data.locked = false := by
  by_contra held
  have all : ∀ u ∈ top ::ₘ rest, u.data.locked = true := fun u hm =>
    by_contra fun free => held ⟨u, hm, by simpa using free⟩
  have only : ∀ u ∈ top ::ₘ e ::ₘ rest, u.data.locked = false → u = e := by
    intro u hm free
    rw [cons_swap] at hm
    rcases mem_cons.mp hm with hh | ht
    · exact hh
    · rw [all u ht] at free
      cases free
  obtain ⟨u, hm, free⟩ := hst.committed
  obtain rfl := only u hm free
  refine hung ⟨⟨top, mem_cons_self _ _, all top (mem_cons_self _ _)⟩, free, ?_⟩
  intro u' hm' free'
  rw [only u' hm' free']

/-- What is left of a block when a copy goes with its version. -/
lemma aged_block {x : Entry VbbmData} (hor : (v.block x.lbid).Orderly) (held : x ∈ v.copies)
    (hrem : Removes x.lbid x.verID v.versions w.versions)
    (hdr : Drops x.lbid x.verID v.copies w.copies) :
    ∃ top e rest, versionsOf v.versions x.lbid = top ::ₘ e ::ₘ rest ∧
      Stacked top (e ::ₘ rest) (copiesOf v.copies x.lbid) ∧ e.verID = x.verID ∧
      w.block x.lbid =
        ⟨settled (top ::ₘ rest), withoutVersion (copiesOf v.copies x.lbid) e.verID⟩ := by
  have hm : x ∈ copiesOf v.copies x.lbid := mem_copiesOf.mpr ⟨held, rfl⟩
  rcases hor with hem | ⟨top, older, shape, hst⟩
  · have none : copiesOf v.copies x.lbid = 0 := congrArg Block.copies hem
    simp [none] at hm
  have shape : versionsOf v.versions x.lbid = top ::ₘ older := shape
  have hst : Stacked top older (copiesOf v.copies x.lbid) := hst
  obtain ⟨e, hun, hver⟩ := hst.copied x hm
  obtain ⟨rest, rfl⟩ := exists_cons_of_mem hun
  rw [← hver] at hdr hrem
  have swapped := shape
  rw [cons_swap] at swapped
  have versions := hrem.settles swapped rfl hst.others
  exact ⟨top, e, rest, shape, hst, hver,
    congrArg₂ Block.mk versions (hdr.block hst.single)⟩

/-- A step of aging as a step of a block: the version a held block falls back to stays. -/
lemma AgeStep.block_cases (hor : ∀ l, (v.block l).Orderly) (step : AgeStep v w) (l : Int) :
    w.block l = v.block l ∨ ∃ top e rest, v.block l = ⟨top ::ₘ e ::ₘ rest, copiesOf v.copies l⟩ ∧
        Stacked top (e ::ₘ rest) (copiesOf v.copies l) ∧
        ¬ FallsBackTo (top ::ₘ e ::ₘ rest) e ∧
        w.block l = ⟨settled (top ::ₘ rest), withoutVersion (copiesOf v.copies l) e.verID⟩ := by
  obtain ⟨x, held, hung, hrem, hdr⟩ := step
  by_cases ho : l = x.lbid
  swap
  · exact Or.inl (block_eq (hrem.frame ho) (hdr.frame ho))
  subst ho
  obtain ⟨top, e, rest, shape, hst, hver, ha⟩ := aged_block (hor _) held hrem hdr
  refine Or.inr ⟨top, e, rest, by rw [View.block, shape], hst, ?_, ha⟩
  have hk : ∀ u, u ∈ top ::ₘ e ::ₘ rest ↔ u ∈ v.versions ∧ u.lbid = x.lbid := fun u => by
    rw [← shape, mem_versionsOf]
  rintro ⟨⟨u, hi, hlo⟩, free, hmax⟩
  have present : e ∈ top ::ₘ e ::ₘ rest := by simp
  rw [← hver] at hung
  refine hung ⟨⟨u, ((hk u).mp hi).1, ((hk u).mp hi).2, hlo⟩, hst.natural e (mem_cons_self _ _),
    Or.inr ⟨e, ((hk e).mp present).1, ((hk e).mp present).2, free, rfl⟩, ?_⟩
  intro u' hi' hn' free'
  exact hmax u' ((hk u').mpr ⟨hi', hn'⟩) free'

lemma AgeStep.block_step (hor : ∀ l, (v.block l).Orderly) (step : AgeStep v w) (l : Int) :
    w.block l = v.block l ∨ BlockStep l (v.block l) (w.block l) := by
  rcases step.block_cases hor l with he | ⟨top, e, rest, hb, hst, hung, ha⟩
  · exact Or.inl he
  · rw [hb, ha]
    exact Or.inr (step_of_drop hst (unlocked_left hst hung))

lemma DropsAll.block {keys : List (Int × Int)} {d' : Copies} (hdr : DropsAll keys d d')
    (single : ((copiesOf d l).map Entry.verID).Nodup) :
    copiesOf d' l = (copiesOf d l).filter fun x => (l, x.verID) ∉ keys := by
  induction hdr with
  | nil => simp
  | @cons lbid verID keys d d' d'' first rest ih =>
    by_cases hh : l = lbid
    · subst hh
      have once := first.block single
      have left : ((copiesOf d' l).map Entry.verID).Nodup := by
        rw [once]
        exact withoutVersion_single single
      rw [ih left, once, withoutVersion, filter_filter]
      refine filter_congr fun x _ => ?_
      simp [and_comm]
    · have he := first.frame hh
      rw [ih (by rwa [he]), he]
      refine filter_congr fun x _ => ?_
      simp [hh]

/-- A sweep empties the blocks it names and leaves the others. -/
lemma Swept.block_step {lbids : List Int} (hor : ∀ l, (v.block l).Orderly)
    (swept : Swept lbids v w) (l : Int) :
    w.block l = v.block l ∨ BlockStep l (v.block l) (w.block l) := by
  obtain ⟨versions, gone, members, hdr⟩ := swept
  have single : ((copiesOf v.copies l).map Entry.verID).Nodup := by
    rcases hor l with hem | ⟨top, older, -, hst⟩
    · rw [show copiesOf v.copies l = 0 from congrArg Block.copies hem]
      exact nodup_zero
    · exact hst.single
  have copies := hdr.block single
  have hk : ∀ e, e ∈ gone ↔ e ∈ v.versions ∧ e.lbid ∈ lbids := by
    intro e
    rw [← mem_coe, members, mem_filter]
  by_cases hn : l ∈ lbids
  · right
    have hem : w.block l = .empty := by
      refine congrArg₂ Block.mk ?_ ?_
      · rw [versions, versionsOf, filter_filter, filter_eq_nil]
        rintro e - ⟨he, hout⟩
        exact hout (he ▸ hn)
      rw [copies, filter_eq_nil]
      intro x hi kept
      rcases hor l with none | ⟨top, older, shape, hst⟩
      · rw [show copiesOf v.copies l = 0 from congrArg Block.copies none] at hi
        cases hi
      obtain ⟨e, hun, hver⟩ := hst.copied x hi
      have hm : e ∈ versionsOf v.versions l := by
        rw [show versionsOf v.versions l = top ::ₘ older from shape]
        exact mem_cons_of_mem hun
      obtain ⟨held, he⟩ := mem_versionsOf.mp hm
      refine kept (List.mem_map.mpr ⟨e, List.mem_filter.mpr ⟨?_, hst.flagged e hun⟩, ?_⟩)
      · exact (hk e).mpr ⟨held, he ▸ hn⟩
      · rw [he, hver]
    rw [hem]
    exact .emptied
  · left
    apply block_eq
    · rw [versions, versionsOf, versionsOf, filter_filter]
      refine filter_congr fun e _ => ⟨fun both => both.1, fun he => ⟨he, ?_⟩⟩
      rwa [he]
    rw [copies, filter_eq_self]
    rintro x - hm
    obtain ⟨e, hfl, he⟩ := List.mem_map.mp hm
    have hout := ((hk e).mp (List.mem_filter.mp hfl).1).2
    rw [show e.lbid = l from congrArg Prod.fst he] at hout
    exact hn hout

lemma versionsOf_map_unlocked (transID : Int) (c : Versions) (l : Int) :
    versionsOf (c.map (unlocked transID)) l = (versionsOf c l).map (unlocked transID) := by
  rw [versionsOf, versionsOf, filter_map]
  congr 1
  refine filter_congr fun e _ => ?_
  rw [Function.comp_apply, unlocked_lbid]

section Runs

variable {I : Block → Prop} (orderly : ∀ b, I b → b.Orderly)
  (steps : ∀ {l : Int} {b b' : Block}, BlockStep l b b' → I b → I b')

include orderly steps

lemma aged_preserves (path : Relation.ReflTransGen AgeStep v w) (start : ∀ l, I (v.block l)) :
    ∀ l, I (w.block l) := by
  induction path with
  | refl => exact start
  | tail _ step ih =>
    intro l
    rcases step.block_step (fun l => orderly _ (ih l)) l with he | step
    · rw [he]
      exact ih l
    · exact steps step (ih l)

lemma sweptAll_preserves {ranges : List LBIDRange} (swept : SweptAll ranges v w)
    (start : ∀ l, I (v.block l)) : ∀ l, I (w.block l) := by
  induction swept with
  | nil => exact start
  | cons first _ ih =>
    refine ih fun l => ?_
    rcases first.block_step (fun l => orderly _ (start l)) l with he | step
    · rw [he]
      exact start l
    · exact steps step (start l)

/-- A rollback of distinct blocks that the transaction holds. -/
lemma rolledBackAll_preserves {lbids : List Int} (hrol : RolledBackAll transID lbids v w)
    (hdi : lbids.Nodup)
    (held : ∀ l ∈ lbids, ∃ e ∈ versionsOf v.versions l, e.verID = transID ∧ e.data.locked = true)
    (start : ∀ l, I (v.block l)) : ∀ l, I (w.block l) := by
  induction hrol with
  | nil => exact start
  | @cons lbid lbids v w u first _ ih =>
    obtain ⟨fresh, hdi⟩ := List.nodup_cons.mp hdi
    refine ih hdi (fun l later => ?_) fun l => ?_
    · have hap : l ≠ lbid := by
        rintro rfl
        exact fresh later
      rw [(first.frame hap).1]
      exact held l (List.mem_cons_of_mem lbid later)
    by_cases hh : l = lbid
    · subst hh
      exact steps (first.block_step (orderly _ (start l)) (held l List.mem_cons_self)) (start l)
    · rw [first.block_frame hh]
      exact start l

omit orderly in
lemma commit_preserves (transID : Int) (start : ∀ l, I (v.block l)) :
    ∀ l, I (View.block ⟨v.versions.map (unlocked transID), v.copies⟩ l) := by
  intro l
  rw [View.block, versionsOf_map_unlocked]
  exact steps (l := l) (.committed transID) (start l)

end Runs

end SlaveNode
