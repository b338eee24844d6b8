import EryDb.StepEffects

/-!
# A rollback takes back what its transaction wrote

The inverse law needs that the versions of every block are in order. A run keeps them so
as long as a rollback names distinct blocks that its transaction holds, and no command is
undone while records of an earlier one are pending. Without the first condition a rollback
can leave a block with several versions outside the version buffer, and the next rollback
of that block takes all of them.
-/

namespace SlaveNode

open Multiset (cons_eq_cons map_le_map mem_cons_self)
open List SlotTable Vss Vbbm

variable {cfg : NodeConfig} {n t u : SlaveDBRMNode} {c : Command}

/-- A rollback names distinct blocks, on each of which its transaction holds a version. -/
def RollsBackOwn (n : SlaveDBRMNode) (c : Command) : Prop :=
  ∀ transID lbids, c.rollsBack = some (transID, lbids) →
    lbids.Nodup ∧ ∀ l ∈ lbids, LockedBy n transID l

/-- A step that meets the condition. -/
inductive CarefulStep (cfg : NodeConfig) (n : SlaveDBRMNode) (c : Command) :
    SlaveDBRMNode → Prop where
  | confirmed {r : Reply} {t : SlaveDBRMNode} (own : RollsBackOwn n c)
      (ran : c.run cfg n = some (r, t)) (ok : r.code = .ok) :
      CarefulStep cfg n c (confirmChanges c t)
  | undone {r : Reply} {t u : SlaveDBRMNode} (own : RollsBackOwn n c) (quiet : Quiet n)
      (ran : c.run cfg n = some (r, t)) (undo : undoChanges c t = some u) :
      CarefulStep cfg n c u

inductive CarefullyReachable (cfg : NodeConfig) : SlaveDBRMNode → Prop where
  | initial : CarefullyReachable cfg initial
  | step {n t : SlaveDBRMNode} {c : Command} (before : CarefullyReachable cfg n) (real : c.real)
      (next : CarefulStep cfg n c t) : CarefullyReachable cfg t

lemma CarefulStep.step (next : CarefulStep cfg n c t) : Step cfg n c t := by
  cases next with
  | confirmed _ ran ok => exact .confirmed ran ok
  | undone _ _ ran undo => exact .undone ran undo

lemma CarefullyReachable.confirmed (careful : CarefullyReachable cfg n) (real : c.real)
    (keeps : c.rollsBack = none) (ran : runConfirmed cfg n c = some t) :
    CarefullyReachable cfg t := by
  obtain ⟨r, u, run, ok, rfl⟩ := runConfirmed_cases ran
  refine careful.step real (.confirmed (fun transID lbids rolls => ?_) run ok)
  cases keeps.symm.trans rolls

lemma CarefullyReachable.reachable (hca : CarefullyReachable cfg n) : Reachable cfg n := by
  induction hca with
  | initial => exact .initial
  | step _ real next ih => exact ih.step real next.step

lemma CarefulStep.effect (hs : NodeSound cfg n) (real : c.real)
    (next : CarefulStep cfg n c t) : Effect c n t ∧ RollsBackOwn n c := by
  cases next with
  | confirmed own ran ok => exact ⟨confirmed_effect hs real ran ok, own⟩
  | undone own hq ran undo => exact ⟨undone_effect hs hq real ran undo, own⟩

lemma copies_keys (d : Copies) (l : Int) : (copiesOf d l).map Entry.verID =
    ((d.map Entry.key).filter fun k => k.1 = l).map Prod.snd := by
  rw [copiesOf, Multiset.filter_map, Multiset.map_map]
  rfl

lemma recopied_of_keys {v w : View} (versions : w.versions = v.versions)
    (hfe : w.copies.map Entry.key ≤ v.copies.map Entry.key) (l : Int) :
    Recopied (v.block l) (w.block l) := by
  refine ⟨by rw [View.block, View.block, versions], ?_⟩
  simp only [View.block, copies_keys]
  exact map_le_map (Multiset.filter_le_filter _ hfe)

lemma LockedBy.versionsOf {transID l : Int} (held : LockedBy n transID l) :
    ∃ e ∈ SlaveNode.versionsOf (view n).versions l, e.verID = transID ∧ e.data.locked = true := by
  obtain ⟨e, hi, hn, hver, hlo⟩ := held
  exact ⟨e, mem_versionsOf.mpr ⟨hi, hn⟩, hver, hlo⟩

lemma Written.orderly {transID lbid : Int} {dbrIdx : Fin 4} {vbOID vbFBO : Nat} {v w : View}
    (hwr : Written transID lbid dbrIdx vbOID vbFBO v w) (start : ∀ l, (v.block l).Orderly)
    (l : Int) : (w.block l).Orderly := by
  by_cases hh : l = lbid
  swap
  · rw [hwr.block_frame hh]
    exact start l
  subst hh
  rcases hwr.block_cases (start l) with ⟨versions, keys, -⟩ | ⟨-, hp, ha⟩ |
      ⟨top, older, -, hst, newer, ha⟩
  · have recopied : Recopied (v.block l) (w.block l) := ⟨versions, keys.le⟩
    exact recopied.orderly (start l)
  · rw [ha]
    exact Or.inr ⟨_, _, rfl, stacked_started hp⟩
  · rw [ha]
    exact Or.inr ⟨_, _, rfl, hst.pushed newer⟩

lemma Effect.orderly (effect : Effect c n u) (own : RollsBackOwn n c)
    (start : ∀ l, ((view n).block l).Orderly) : ∀ l, ((view u).block l).Orderly := by
  have steps : ∀ {l : Int} {b b' : Block}, BlockStep l b b' → b.Orderly → b'.Orderly :=
    fun step => step.orderly
  cases effect with
  | @begun transID vbOID dbrIndex ranges d command hfe kept aged =>
    refine aged_preserves (fun _ => id) steps aged fun l => ?_
    have recopied := recopied_of_keys (v := view n) (w := ⟨contents n.vss, d⟩) rfl
      (map_le_map hfe) l
    exact recopied.orderly (start l)
  | written command written => exact written.orderly start
  | committed command unlocks =>
    rw [unlocks]
    exact commit_preserves steps _ start
  | rolledBack command hrol =>
    obtain ⟨hdi, held⟩ := own _ _ command
    exact rolledBackAll_preserves (fun _ => id) steps hrol hdi
      (fun l hn => (held l hn).versionsOf) start
  | deleted command swept => exact sweptAll_preserves (fun _ => id) steps swept start
  | reverted versions copies kept =>
    intro l
    exact (recopied_of_keys (v := view n) (w := view u) versions copies l).orderly (start l)

lemma carefullyReachable_orderly (hca : CarefullyReachable cfg n) :
    ∀ l, ((view n).block l).Orderly := by
  induction hca with
  | initial =>
    intro l
    left
    rw [view_initial]
    rfl
  | step hb real next ih =>
    obtain ⟨effect, own⟩ := next.effect (reachable_sound hb.reachable) real
    exact effect.orderly own ih

section Inverse

variable {transID l : Int} {v w : View}

structure VBWrite where
  lbid : Int
  vbOID : Nat
  vbFBO : Nat

def VBWrite.command (transID : Int) (e : VBWrite) : Command :=
  .writeVBEntry transID e.lbid 0 e.vbOID e.vbFBO

/-- The writes of one transaction, one after the other. -/
inductive WrittenAll (transID : Int) : List VBWrite → View → View → Prop where
  | nil {v : View} : WrittenAll transID [] v v
  | cons {e : VBWrite} {writes : List VBWrite} {v w u : View}
      (first : Written transID e.lbid 0 e.vbOID e.vbFBO v w)
      (rest : WrittenAll transID writes w u) : WrittenAll transID (e :: writes) v u

lemma writtenAll_of_run (hr : Reachable cfg n) {writes : List VBWrite}
    (real : ∀ e ∈ writes, e.lbid ≠ -1)
    (ran : (writes.map (VBWrite.command transID)).foldlM (runConfirmed cfg) n = some t) :
    Reachable cfg t ∧ WrittenAll transID writes (view n) (view t) := by
  induction writes generalizing n with
  | nil =>
    cases ran
    exact ⟨hr, .nil⟩
  | cons e writes ih =>
    rw [map_cons, foldlM_cons] at ran
    obtain ⟨m, first, rest⟩ := Option.bind_eq_some_iff.mp ran
    have hn : (e.command transID).real := real e mem_cons_self
    have next := hr.confirmed hn first
    obtain ⟨final, hwr⟩ := ih next (fun e' later => real e' (mem_cons_of_mem e later)) rest
    obtain ⟨r, m', done, ok, rfl⟩ := runConfirmed_cases first
    have once := written_of_run (reachable_sound hr) hn done ok
    rw [← view_confirmChanges (e.command transID) m'] at once
    exact ⟨final, .cons once hwr⟩

/-- Among distinct blocks each one is written once. -/
lemma WrittenAll.block {writes : List VBWrite} (hwr : WrittenAll transID writes v w)
    (hdi : (writes.map VBWrite.lbid).Nodup) (l : Int) :
    (l ∉ writes.map VBWrite.lbid ∧ w.block l = v.block l) ∨
      ∃ (e : VBWrite) (v' w' : View), l ∈ writes.map VBWrite.lbid ∧ v'.block l = v.block l ∧
        Written transID l 0 e.vbOID e.vbFBO v' w' ∧ w.block l = w'.block l := by
  induction hwr with
  | nil => exact Or.inl ⟨by simp, rfl⟩
  | @cons e writes v w u first _ ih =>
    rw [map_cons] at hdi ⊢
    obtain ⟨fresh, hdi⟩ := nodup_cons.mp hdi
    by_cases hh : l = e.lbid
    · subst hh
      rcases ih hdi with ⟨-, he⟩ | ⟨e', v', w', later, -⟩
      · exact Or.inr ⟨e, v, w, mem_cons_self, rfl, first, he⟩
      · exact absurd later fresh
    · rcases ih hdi with ⟨hout, he⟩ | ⟨e', v', w', later, hb, once, ha⟩
      · exact Or.inl ⟨by simp [hh, hout], he.trans (first.block_frame hh)⟩
      · exact Or.inr ⟨e', v', w', mem_cons_of_mem _ later,
          hb.trans (first.block_frame hh), once, ha⟩

/-- Among distinct blocks each one is rolled back once. -/
lemma RolledBackAll.block {lbids : List Int} (hrol : RolledBackAll transID lbids v w)
    (hdi : lbids.Nodup) (l : Int) : (l ∉ lbids ∧ w.block l = v.block l) ∨
      ∃ v' w' : View, l ∈ lbids ∧ v'.block l = v.block l ∧ RolledBack transID l v' w' ∧
        w.block l = w'.block l := by
  induction hrol with
  | nil => exact Or.inl ⟨by simp, rfl⟩
  | @cons lbid lbids v w u first _ ih =>
    obtain ⟨fresh, hos⟩ := nodup_cons.mp hdi
    by_cases hh : l = lbid
    · subst hh
      rcases ih hos with ⟨-, he⟩ | ⟨v', w', later, -⟩
      · exact Or.inr ⟨v, w, mem_cons_self, rfl, first, he⟩
      · exact absurd later fresh
    · rcases ih hos with ⟨hout, he⟩ | ⟨v', w', later, hb, once, ha⟩
      · exact Or.inl ⟨by simp [hh, hout], he.trans (first.block_frame hh)⟩
      · exact Or.inr ⟨v', w', mem_cons_of_mem _ later, hb.trans (first.block_frame hh), once, ha⟩

/-- Writing one block and rolling it back. -/
lemma RolledBack.inverse {v' w' : View} {dbrIdx : Fin 4} {vbOID vbFBO : Nat}
    (hor : (v.block l).Orderly) (fresh : ∀ e ∈ (v.block l).versions, e.verID ≠ transID)
    (hwr : Written transID l dbrIdx vbOID vbFBO v w) (meanwhile : v'.block l = w.block l)
    (hrol : RolledBack transID l v' w') : w'.block l = v.block l := by
  have versions := congrArg Block.versions meanwhile
  have copies := congrArg Block.copies meanwhile
  rcases hwr.block_cases hor with ⟨-, -, e, hm, hver, -⟩ | ⟨hem, hp, ha⟩ |
      ⟨top, older, shape, hst, newer, ha⟩
  · exact absurd hver (fresh e hm)
  · rw [ha] at versions copies
    simp only [View.block] at versions copies
    obtain ⟨e, rest, split, -, left, hdr⟩ := RolledBack.pops
      (by rw [copies]; exact stacked_started hp) versions rfl hrol
    obtain ⟨rfl, rfl⟩ : e = ⟨l, 0, ⟨true, false⟩⟩ ∧ rest = 0 := by
      rcases cons_eq_cons.mp (show _ ::ₘ 0 = _ from split) with ⟨he, none⟩ | ⟨-, _, none, -⟩
      · exact ⟨he.symm, none.symm⟩
      · exact absurd none (Multiset.zero_ne_cons)
    rw [hem, View.block, left, hdr, copies]
    refine congrArg₂ Block.mk (settled_singleton rfl rfl) ?_
    exact withoutVersion_cons_eq (d := 0) rfl
  · rw [ha] at versions copies
    simp only [View.block] at versions copies
    obtain ⟨e, rest, split, hhi, left, hdr⟩ := RolledBack.pops
      (by rw [copies]; exact hst.pushed newer) versions rfl hrol
    obtain ⟨rfl, rfl⟩ : e = ⟨l, top.verID, ⟨true, top.data.locked⟩⟩ ∧ rest = older := by
      rcases cons_eq_cons.mp split with ⟨he, hos⟩ | ⟨-, hl, hun, hos⟩
      · exact ⟨he.symm, hos.symm⟩
      · have hlo := hst.below e (by rw [hun]; exact mem_cons_self _ _)
        have hhig := hhi ⟨l, top.verID, ⟨true, top.data.locked⟩⟩ (by simp [hos])
        simp only at hhig
        omega
    have held : versionsOf v.versions l = top ::ₘ rest := congrArg Block.versions shape
    have hn : top.lbid = l := (mem_versionsOf.mp (show top ∈ versionsOf v.versions l by
      simp [held])).2
    have hres : (⟨l, top.verID, ⟨false, top.data.locked⟩⟩ : Entry VssData) = top := by
      rw [← hn, ← hst.current]
    obtain ⟨e, hun⟩ := hst.fallback
    rw [shape, View.block, left, hdr, copies, hres,
      settled_of_flagged (Multiset.mem_cons_of_mem hun) (hst.flagged e hun),
      withoutVersion_cons_eq rfl]
    refine congrArg (Block.mk _) (withoutVersion_eq_self fun x hi => ?_)
    obtain ⟨e', hl, hver⟩ := hst.copied x hi
    have := hst.below e' hl
    simp only
    omega

end Inverse

/-- In every run that meets the condition, a rollback of what a new transaction just wrote
leaves both tables as they were. -/
theorem rollback_restores (careful : CarefullyReachable cfg n) {transID : Int}
    (fresh : ∀ e ∈ contents n.vss, e.verID ≠ transID) {writes : List VBWrite}
    (real : ∀ e ∈ writes, e.lbid ≠ -1) (distinct : (writes.map VBWrite.lbid).Nodup)
    {m : SlaveDBRMNode}
    (wrote : (writes.map (VBWrite.command transID)).foldlM (runConfirmed cfg) n = some m)
    {lbids : List Int} (command : c.rollsBack = some (transID, lbids))
    (same : lbids.Perm (writes.map VBWrite.lbid)) (rolledBack : runConfirmed cfg m c = some t) :
    contents t.vss = contents n.vss ∧ contents t.vbbm = contents n.vbbm := by
  have orderly := carefullyReachable_orderly careful
  obtain ⟨reachable, written⟩ := writtenAll_of_run careful.reachable real wrote
  obtain ⟨r, m', done, -, rfl⟩ := runConfirmed_cases rolledBack
  have rolled := rolledBack_of_run (reachable_sound reachable) command done
  rw [← view_confirmChanges c m'] at rolled
  have blocks : ∀ l, (view (confirmChanges c m')).block l = (view n).block l := by
    intro l
    rcases rolled.block (same.nodup_iff.mpr distinct) l with ⟨outside, kept⟩ |
        ⟨v', w', inside, before, once, after⟩ <;>
      rcases written.block distinct l with ⟨unwritten, first⟩ |
        ⟨e, v, w, member, start, wrote, final⟩
    · exact kept.trans first
    · exact absurd (same.mem_iff.mpr member) outside
    · exact absurd (same.mem_iff.mp inside) unwritten
    · have clear : ∀ e ∈ (v.block l).versions, e.verID ≠ transID := by
        rw [start]
        exact fun e held => fresh e (mem_versionsOf.mp held).1
      rw [after, once.inverse (by rw [start]; exact orderly l) clear wrote
        (before.trans final), start]
  exact ⟨eq_of_blocks fun l => congrArg Block.versions (blocks l),
    eq_of_blocks fun l => congrArg Block.copies (blocks l)⟩

/-- Transaction 5 writes block 7 and commits; transaction 6 writes the blocks 7 and 8 and rolls
back. -/
theorem rollback_restores_twoBlocks :
    ∃ n₁ n m t, runConfirmed exampleConfig initial (.writeVBEntry 5 7 0 1 0) = some n₁ ∧
      runConfirmed exampleConfig n₁ (.vbCommit 5) = some n ∧
      contents n.vss = {⟨7, 5, ⟨false, false⟩⟩, ⟨7, 0, ⟨true, false⟩⟩} ∧
      ([⟨7, 1, 1⟩, ⟨8, 1, 2⟩].map (VBWrite.command 6)).foldlM (runConfirmed exampleConfig) n =
        some m ∧
      runConfirmed exampleConfig m (.vbRollbackBlocks 6 [8, 7]) = some t ∧
      contents t.vss = contents n.vss ∧ contents t.vbbm = contents n.vbbm := by
  obtain ⟨n₁, ran₁, n, ran, held, m₁, wrote₁, m, wrote, t, back, -⟩ : ∃ n₁,
      runConfirmed exampleConfig initial (.writeVBEntry 5 7 0 1 0) = some n₁ ∧
      ∃ n, runConfirmed exampleConfig n₁ (.vbCommit 5) = some n ∧
      contents n.vss = {⟨7, 5, ⟨false, false⟩⟩, ⟨7, 0, ⟨true, false⟩⟩} ∧
      ∃ m₁, runConfirmed exampleConfig n (VBWrite.command 6 ⟨7, 1, 1⟩) = some m₁ ∧
      ∃ m, runConfirmed exampleConfig m₁ (VBWrite.command 6 ⟨8, 1, 2⟩) = some m ∧
      ∃ t, runConfirmed exampleConfig m (.vbRollbackBlocks 6 [8, 7]) = some t ∧ True :=
    exists_step 6 (fun n₁ => (stepBelow 6 exampleConfig n₁ _).any (fun n => decide
        (Lists 6 n.vss _ ∧ (stepBelow 6 exampleConfig n _).any (fun m₁ => decide
          ((stepBelow 6 exampleConfig m₁ _).any (fun m => decide
            ((stepBelow 6 exampleConfig m _).any (fun _ => decide True) = true)) = true)) = true)) =
        true) .initial (by decide +kernel) (show (7 : Int) ≠ -1 by decide)
      fun _ reachable₁ shown => exists_step 6 _ reachable₁ shown trivial
        fun _ reachable ⟨held, shown⟩ => ⟨held.contents (reachable_sound reachable).vss,
          exists_step 6 _ reachable shown (show (7 : Int) ≠ -1 by decide)
            fun _ written₁ shown => exists_step 6 _ written₁ shown (show (8 : Int) ≠ -1 by decide)
              fun _ written shown => exists_step 6 _ written shown trivial fun _ _ done => done⟩
  have careful : CarefullyReachable exampleConfig n :=
    (CarefullyReachable.initial.confirmed (c := .writeVBEntry 5 7 0 1 0)
      (show (7 : Int) ≠ -1 by decide) rfl ran₁).confirmed
        (c := .vbCommit 5) trivial rfl ran
  have both : ([⟨7, 1, 1⟩, ⟨8, 1, 2⟩].map (VBWrite.command 6)).foldlM
      (runConfirmed exampleConfig) n = some m := by
    simp [wrote₁, wrote]
  exact ⟨n₁, n, m, t, ran₁, ran, held, both, back, rollback_restores careful (by simp [held])
    (by decide) (by decide) both rfl (by decide) back⟩

/-- After the rollback by a transaction that never wrote block 7, the block has two versions
outside the version buffer, and a later write with its rollback takes both. -/
theorem rollback_collects_committed :
    ∃ n m t, [Command.writeVBEntry 5 7 0 1 0, .vbCommit 5, .vbRollbackBlocks 7 [7]].foldlM
        (runConfirmed exampleConfig) initial = some n ∧ Reachable exampleConfig n ∧
      (∀ e ∈ contents n.vss, e.verID ≠ 9) ∧
      getCurrentVersion exampleConfig.vssHasher n.vss 7 < 9 ∧
      runConfirmed exampleConfig n (.writeVBEntry 9 7 0 1 1) = some m ∧
      runConfirmed exampleConfig m (.vbRollbackBlocks 9 [7]) = some t ∧
      contents t.vss ≠ contents n.vss := by
  obtain ⟨n, run, reachable, held, current, shown⟩ : ∃ n, [Command.writeVBEntry 5 7 0 1 0,
        .vbCommit 5, .vbRollbackBlocks 7 [7]].foldlM (runConfirmed exampleConfig) initial = some n ∧
      Reachable exampleConfig n ∧ Lists 2 n.vss {⟨7, 5, ⟨false, false⟩⟩, ⟨7, 0, ⟨false, false⟩⟩} ∧
      getCurrentVersion exampleConfig.vssHasher n.vss 7 < 9 ∧
      (stepBelow 4 exampleConfig n (.writeVBEntry 9 7 0 1 1)).any (fun m => decide
        ((stepBelow 4 exampleConfig m (.vbRollbackBlocks 9 [7])).any (fun t => decide
          (Lists 2 t.vss 0)) = true)) = true :=
    exists_run 4 _ (by simp [Command.real]) (by decide +kernel) fun _ => And.intro
  have versions := held.contents (reachable_sound reachable).vss
  obtain ⟨m, wrote, t, back, none⟩ :=
    exists_step 4 _ reachable shown (show (7 : Int) ≠ -1 by decide)
    fun m reachable shown => exists_step 4 _ reachable shown trivial
      fun t reachable none => none.contents (reachable_sound reachable).vss
  refine ⟨n, m, t, run, reachable, by simp [versions], current, wrote, back, ?_⟩
  rw [none, versions]
  decide

end SlaveNode
