import EryDb.AgingOut
import EryDb.RollbackInverse

/-!
# An uncommitted block can be rolled back

While each block is written by one transaction at a time, every older version of a block is
committed and has its copy in the version buffer. The newest of them is what a rollback
looks for, and what aging out does not touch. Where a second transaction writes a block
that a first one holds, and commits, the version under both is aged out.
-/

namespace SlaveNode

open Multiset SlotTable Vss Vbbm BrmTypes

variable {cfg : NodeConfig} {n t u : SlaveDBRMNode} {c : Command}

/-- The versions of a block in order, each older one committed and with a copy. -/
structure Block.Restorable (b : Block) : Prop where
  orderly : b.Orderly
  kept : ∀ e ∈ b.versions, e.data.vbFlag = true →
    e.data.locked = false ∧ ∃ x ∈ b.copies, x.verID = e.verID

section Steps

variable {l : Int} {b b' : Block}

lemma restorable_empty : Block.empty.Restorable :=
  ⟨Or.inl rfl, fun _ none => absurd none (notMem_zero _)⟩

lemma Block.Restorable.recopied (hres : b.Restorable) (versions : b'.versions = b.versions)
    (copies : b'.copies.map Entry.verID = b.copies.map Entry.verID) : b'.Restorable := by
  have recopied : Recopied b b' := ⟨versions, copies.le⟩
  refine ⟨recopied.orderly hres.orderly, fun e hi hfl => ?_⟩
  rw [versions] at hi
  obtain ⟨free, x, held, hver⟩ := hres.kept e hi hfl
  refine ⟨free, ?_⟩
  have hk : e.verID ∈ b'.copies.map Entry.verID := by
    rw [copies, ← hver]
    exact mem_map_of_mem _ held
  obtain ⟨y, ht, he⟩ := mem_map.mp hk
  exact ⟨y, ht, he⟩

/-- The copies of the versions that stay are kept when another version goes. -/
lemma kept_without {c : Versions} {d : Copies} {v : Int} (kept : ∀ e ∈ c, e.data.vbFlag = true →
      e.data.locked = false ∧ ∃ x ∈ d, x.verID = e.verID) (hos : ∀ e ∈ c, e.verID ≠ v) :
    ∀ e ∈ c, e.data.vbFlag = true →
      e.data.locked = false ∧ ∃ x ∈ withoutVersion d v, x.verID = e.verID := by
  intro e hi hfl
  obtain ⟨free, x, held, hver⟩ := kept e hi hfl
  exact ⟨free, x, mem_withoutVersion.mpr ⟨held, fun he => hos e hi (hver.symm.trans he)⟩, hver⟩

lemma BlockStep.restorable (step : BlockStep l b b') (restorable : b.Restorable) :
    b'.Restorable := by
  refine ⟨step.orderly restorable.orderly, ?_⟩
  have kept := restorable.kept
  cases step with
  | committed transID =>
    intro e inside flagged
    obtain ⟨e', before, rfl⟩ := mem_map.mp inside
    rw [unlocked_vbFlag] at flagged
    obtain ⟨free, x, held, version⟩ := kept e' before flagged
    exact ⟨unlocked_free transID free, x, held, version.trans (unlocked_verID transID e').symm⟩
  | @popped top e older d stacked highest more free =>
    intro e' inside flagged
    rcases mem_cons.mp inside with rfl | later
    · cases flagged
    · exact kept_without (c := older) (fun e₁ member => kept e₁ (by simp [member]))
        stacked.beneath.2.2.1 e' later flagged
  | @dropped top e older d stacked more free =>
    intro e' inside flagged
    rcases mem_cons.mp inside with rfl | later
    · rw [stacked.current] at flagged
      cases flagged
    · exact kept_without (c := older) (fun e₁ member => kept e₁ (by simp [member]))
        stacked.beneath.2.2.1 e' later flagged
  | emptied => exact restorable_empty.kept

end Steps

/-- Only the first replica is written. -/
def Command.singleReplica : Command → Prop
  | .beginVBCopy _ _ dbrIndex _ => dbrIndex = 0
  | .writeVBEntry _ _ dbrIdx _ _ => dbrIdx = 0
  | _ => True

/-- A rollback names exactly the blocks its transaction has not committed. -/
def RollsBackUncommitted (n : SlaveDBRMNode) (c : Command) : Prop :=
  ∀ transID lbids, c.rollsBack = some (transID, lbids) →
    lbids.Nodup ∧ ∀ l, l ∈ lbids ↔ LockedBy n transID l

/-- A block is written while no other transaction holds it. -/
def WritesAlone (n : SlaveDBRMNode) : Command → Prop
  | .writeVBEntry transID lbid _ _ _ => ∀ other, LockedBy n other lbid → other = transID
  | _ => True

/-- Runs with a single replica in which the map does not grow; they start with any version
buffer files and no versions. -/
inductive VBRun (cfg : NodeConfig) (Allowed : SlaveDBRMNode → Command → Prop) :
    SlaveDBRMNode → Prop where
  | start {n : SlaveDBRMNode} (sound : NodeSound cfg n) (quiet : Quiet n)
      (empty : view n = ⟨0, 0⟩) : VBRun cfg Allowed n
  | step {n t : SlaveDBRMNode} {c : Command} (before : VBRun cfg Allowed n) (real : c.real)
      (single : c.singleReplica) (rollback : RollsBackUncommitted n c) (allowed : Allowed n c)
      (next : Step cfg n c t) (room : SameRoom n.vbbm t.vbbm) : VBRun cfg Allowed t

lemma Quiet.guarded (hs : NodeSound cfg n) (hq : Quiet n) : NodeGuarded cfg n :=
  ⟨.of_empty hs.vss hq.vss, .of_empty hs.vbbm hq.vbbm⟩

/-- With a single replica no records stay behind. -/
lemma step_quiet (single : c.singleReplica) (hq : Quiet n) (next : Step cfg n c t) : Quiet t := by
  have locks : c.locksVSS = true ∧ (c.locksVBBM = true ∨ ∃ transID, c = .vbCommit transID) := by
    cases c with
    | beginVBCopy transID vbOID dbrIndex ranges =>
      have first : dbrIndex = 0 := single
      simp [Command.locksVSS, Command.locksVBBM, first]
    | vbCommit transID => exact ⟨rfl, Or.inr ⟨transID, rfl⟩⟩
    | _ => exact ⟨rfl, Or.inl rfl⟩
  obtain ⟨vss, vbbm⟩ := locks
  cases next with
  | @confirmed r t ran ok =>
    refine ⟨by simp only [confirmChanges, vss]; rfl, ?_⟩
    rcases vbbm with locks | ⟨transID, rfl⟩
    · simp only [confirmChanges, locks]
      rfl
    · cases ran
      exact hq.vbbm
  | undone ran undo =>
    obtain ⟨first, second⟩ := undoChanges_tables undo
    refine ⟨by rw [((undone_table second).1 vss).2]; rfl, ?_⟩
    rcases vbbm with locks | ⟨transID, rfl⟩
    · rw [((undone_table first).1 locks).2]
      rfl
    · cases ran
      rw [(undone_table first).2 rfl]
      exact hq.vbbm

lemma step_effect (hs : NodeSound cfg n) (hq : Quiet n) (real : c.real)
    (next : Step cfg n c t) : Effect c n t := by
  cases next with
  | confirmed ran ok => exact confirmed_effect hs real ran ok
  | undone ran undo => exact undone_effect hs hq real ran undo

lemma Written.restorable {transID lbid : Int} {dbrIdx : Fin 4} {vbOID vbFBO : Nat} {v w : View}
    (hwr : Written transID lbid dbrIdx vbOID vbFBO v w)
    (hal : ∀ e ∈ v.versions, e.lbid = lbid → e.data.locked = true → e.verID = transID)
    (start : ∀ l, (v.block l).Restorable) (l : Int) : (w.block l).Restorable := by
  by_cases hh : l = lbid
  swap
  · rw [hwr.block_frame hh]
    exact start l
  subst hh
  have hor := hwr.orderly (fun l => (start l).orderly) l
  rcases hwr.block_cases (start l).orderly with ⟨versions, keys, -⟩ | ⟨-, hp, ha⟩ |
      ⟨top, older, hb, hst, newer, ha⟩
  · exact (start l).recopied versions keys
  · refine ⟨hor, ?_⟩
    rw [ha]
    simp
  have shape : versionsOf v.versions l = top ::ₘ older := congrArg Block.versions hb
  have hm : top ∈ versionsOf v.versions l := by simp [shape]
  obtain ⟨hi, hn⟩ := mem_versionsOf.mp hm
  have free : top.data.locked = false := by
    by_contra hlo
    have := hal top hi hn (by simpa using hlo)
    omega
  have kept := (start l).kept
  rw [hb] at kept
  refine ⟨hor, ?_⟩
  rw [ha]
  intro e ht hfl
  rcases mem_cons.mp ht with rfl | ht
  · cases hfl
  rcases mem_cons.mp ht with rfl | ht
  · exact ⟨free, _, mem_cons_self _ _, rfl⟩
  · obtain ⟨hunh, x, hcp, hver⟩ := kept e (mem_cons_of_mem ht) hfl
    exact ⟨hunh, x, mem_cons_of_mem hcp, hver⟩

lemma Effect.restorable (effect : Effect c n u) (rollback : RollsBackUncommitted n c)
    (hal : WritesAlone n c) (room : SameRoom n.vbbm u.vbbm)
    (start : ∀ l, ((view n).block l).Restorable) : ∀ l, ((view u).block l).Restorable := by
  have hor : ∀ b : Block, b.Restorable → b.Orderly := fun _ => Block.Restorable.orderly
  have steps : ∀ {l : Int} {b b' : Block}, BlockStep l b b' → b.Restorable → b'.Restorable :=
    fun step => step.restorable
  cases effect with
  | @begun transID vbOID dbrIndex ranges d command hfe kept aged =>
    rw [kept room] at aged
    exact aged_preserves hor steps aged start
  | written command written =>
    subst command
    refine written.restorable (fun e hi hn hlo => ?_) start
    exact hal e.verID ⟨e, hi, hn, rfl, hlo⟩
  | committed command unlocks =>
    rw [unlocks]
    exact commit_preserves steps _ start
  | rolledBack command hrol =>
    obtain ⟨hdi, held⟩ := rollback _ _ command
    exact rolledBackAll_preserves hor steps hrol hdi (fun l hn => ((held l).mp hn).versionsOf) start
  | deleted command swept => exact sweptAll_preserves hor steps swept start
  | reverted versions copies kept =>
    intro l
    refine (start l).recopied (by rw [View.block, View.block, view, view, versions]) ?_
    simp only [View.block, copies_keys, view, kept room]

lemma VBRun.restorable (run : VBRun cfg WritesAlone n) :
    NodeSound cfg n ∧ Quiet n ∧ ∀ l, ((view n).block l).Restorable := by
  induction run with
  | start hs hq hem =>
    refine ⟨hs, hq, fun l => ?_⟩
    rw [hem]
    exact restorable_empty
  | step _ real single rollback hal next room ih =>
    obtain ⟨hs, hq, hres⟩ := ih
    exact ⟨(step_guarded (hq.guarded hs) real next).sound, step_quiet single hq next,
      (step_effect hs hq real next).restorable rollback hal room hres⟩

/-- Whoever holds a block finds the version under it: committed, flagged, with its copy, found
by a rollback and kept by aging out. -/
theorem uncommitted_has_fallback (run : VBRun cfg WritesAlone n) {transID l : Int}
    (held : LockedBy n transID l) :
    ∃ e ∈ contents n.vss, e.lbid = l ∧ e.data.vbFlag = true ∧ e.data.locked = false ∧
      e.verID < transID ∧ (∃ x ∈ contents n.vbbm, x.lbid = l ∧ x.verID = e.verID) ∧
      getHighestVerInVB cfg.vssHasher n.vss l transID = e.verID ∧
      isEntryLocked cfg.vssHasher n.vss l e.verID = true := by
  obtain ⟨sound, -, restorable⟩ := run.restorable
  obtain ⟨own, inside, named, rfl, locked⟩ := held
  have member : own ∈ versionsOf (contents n.vss) l := mem_versionsOf.mpr ⟨inside, named⟩
  obtain ⟨orderly, kept⟩ := restorable l
  rcases orderly with empty | ⟨top, older, shape, stacked⟩
  · have none : versionsOf (contents n.vss) l = 0 := congrArg Block.versions empty
    simp [none] at member
  have shape : versionsOf (contents n.vss) l = top ::ₘ older := shape
  have stacked : Stacked top older (copiesOf (contents n.vbbm) l) := stacked
  have kept : ∀ e ∈ top ::ₘ older, e.data.vbFlag = true → e.data.locked = false ∧
      ∃ x ∈ copiesOf (contents n.vbbm) l, x.verID = e.verID := by
    rw [← shape]
    exact kept
  rw [shape] at member
  -- An entry that is locked is not flagged, so it is the top.
  obtain rfl : own = top := by
    rcases mem_cons.mp member with same | under
    · exact same
    · have free := (kept own member (stacked.flagged own under)).1
      rw [locked] at free
      cases free
  have highest : HighestInVB (contents n.vss) l own.verID
      (getHighestVerInVB cfg.vssHasher n.vss l own.verID) := by
    rcases getHighestVerInVB_spec sound.vss.toChained l own.verID with found | ⟨-, none⟩
    · exact found
    obtain ⟨e, under⟩ := stacked.fallback
    have there : e ∈ versionsOf (contents n.vss) l := by simp [shape, under]
    obtain ⟨inside', named'⟩ := mem_versionsOf.mp there
    exact absurd ⟨stacked.natural e under, (stacked.below e under).le⟩
      (none e inside' named' (stacked.flagged e under))
  obtain ⟨⟨e, under, version⟩, above⟩ := highestInVB_under stacked shape highest
  have there : e ∈ versionsOf (contents n.vss) l := by simp [shape, under]
  obtain ⟨inside', named'⟩ := mem_versionsOf.mp there
  obtain ⟨free, x, copied, same⟩ := kept e (mem_cons_of_mem under) (stacked.flagged e under)
  obtain ⟨held, block⟩ := mem_copiesOf.mp copied
  refine ⟨e, inside', named', stacked.flagged e under, free, stacked.below e under,
    ⟨x, held, block, same⟩, version.symm, ?_⟩
  obtain ⟨i, -, used, entry⟩ := mem_contents.mp inside
  have real : l ≠ -1 := by
    rw [← named, ← entry]
    exact used
  refine (isEntryLocked_iff sound.vss.toChained real).mpr ⟨⟨own, inside, named, locked⟩, ?_⟩
  refine ⟨stacked.natural e under, Or.inr ⟨e, inside', named', free, rfl⟩, ?_⟩
  intro e' inside₁ named₁ free₁
  have member₁ : e' ∈ versionsOf (contents n.vss) l := mem_versionsOf.mpr ⟨inside₁, named₁⟩
  rw [shape] at member₁
  rcases mem_cons.mp member₁ with rfl | under₁
  · rw [locked] at free₁
    cases free₁
  · rw [version]
    exact above e' under₁ (stacked.below e' under₁).le

/-- A confirmed command as a step of a run. -/
lemma VBRun.confirmed {Allowed : SlaveDBRMNode → Command → Prop} (run : VBRun cfg Allowed n)
    (real : c.real) (single : c.singleReplica) (rollback : RollsBackUncommitted n c)
    (allowed : Allowed n c) (ran : runConfirmed cfg n c = some t)
    (room : SameRoom n.vbbm t.vbbm) : VBRun cfg Allowed t := by
  obtain ⟨r, m, done, ok, rfl⟩ := runConfirmed_cases ran
  exact run.step real single rollback allowed (.confirmed done ok) room

/-- After its first write a transaction finds version 0 under its own. -/
theorem uncommitted_has_fallback_firstWrite :
    ∃ n, runConfirmed exampleConfig initial (.writeVBEntry 5 7 0 1 0) = some n ∧
      ∃ e ∈ contents n.vss, e.lbid = 7 ∧ e.data.vbFlag = true ∧ e.data.locked = false ∧
        e.verID < 5 ∧ ∃ x ∈ contents n.vbbm, x.lbid = 7 ∧ x.verID = e.verID := by
  obtain ⟨n, ran, room, held⟩ := firstWrite
  have start : contents initial.vss = 0 := congrArg View.versions view_initial
  have empty : VBRun exampleConfig WritesAlone initial :=
    .start (reachable_sound .initial) ⟨rfl, rfl⟩ view_initial
  have alone : WritesAlone initial (.writeVBEntry 5 7 0 1 0) := by
    rintro other ⟨e, inside, -⟩
    simp [start] at inside
  have run := empty.confirmed (c := .writeVBEntry 5 7 0 1 0) (show (7 : Int) ≠ -1 by decide) rfl
    (fun _ _ none => by cases none) alone ran room
  have locked : LockedBy n 5 7 := ⟨⟨7, 5, ⟨false, true⟩⟩, by simp [held], rfl, rfl, rfl⟩
  obtain ⟨e, inside, named, flagged, free, below, copied, -⟩ := uncommitted_has_fallback run locked
  exact ⟨n, ran, e, inside, named, flagged, free, below, copied⟩

instance (s t : VBBM) : Decidable (SameRoom s t) :=
  decidable_of_iff (field t .capacity = field s .capacity ∧ field t .ownCount = field s .ownCount)
    ⟨fun same => ⟨same.1, same.2⟩, fun same => ⟨same.capacity, same.files⟩⟩

/-- A confirmed command that adds no room. -/
def stepInRoom (n : SlaveDBRMNode) (c : Command) : Option SlaveDBRMNode :=
  (stepBelow 4 exampleConfig n c).filter fun t => decide (SameRoom n.vbbm t.vbbm)

/-- Commands that roll nothing back, on a run of any kind. -/
lemma VBRun.forward {cs : List Command} (run : VBRun exampleConfig (fun _ _ => True) n)
    (reachable : Reachable exampleConfig n)
    (forward : ∀ c ∈ cs, c.real ∧ c.singleReplica ∧ c.rollsBack = none)
    (ran : cs.foldlM stepInRoom n = some t) : cs.foldlM (runConfirmed exampleConfig) n = some t ∧
      Reachable exampleConfig t ∧ VBRun exampleConfig (fun _ _ => True) t := by
  induction cs generalizing n with
  | nil =>
    cases ran
    exact ⟨rfl, reachable, run⟩
  | cons c rest ih =>
    rw [List.foldlM_cons] at ran ⊢
    obtain ⟨m, first, later⟩ := Option.bind_eq_some_iff.mp ran
    obtain ⟨done, room⟩ := Option.filter_eq_some_iff.mp first
    obtain ⟨real, single, none⟩ := forward c List.mem_cons_self
    have once := runConfirmed_of_stepBelow (reachable_sound reachable) done
    rw [once]
    exact ih (run.confirmed real single (fun _ _ back => by simp [none] at back) trivial once
        (of_decide_eq_true room)) (reachable.confirmed real once)
      (fun c later => forward c (List.mem_cons_of_mem _ later)) later

/-- Transactions 5 and 6 both have blocks for block 7 and write it, 6 commits, and a request of
transaction 8 ages out version 0: nothing is left under the version transaction 5 holds. -/
theorem fallback_aged_out : ∃ n₀ n, runConfirmed exampleConfig initial
        (.beginVBCopy 5 (DBRootsStruct.zero.set 0 2) 0 []) = some n₀ ∧
      [Command.beginVBCopy 5 (DBRootsStruct.zero.set 0 1) 0 [⟨0, 100⟩],
        .beginVBCopy 6 (DBRootsStruct.zero.set 0 2) 0 [⟨7, 1⟩],
        .writeVBEntry 5 7 0 1 7, .writeVBEntry 6 7 0 2 0, .vbCommit 6,
        .beginVBCopy 8 (DBRootsStruct.zero.set 0 1) 0 [⟨200, 1⟩]].foldlM
          (runConfirmed exampleConfig) n₀ = some n ∧
      VBRun exampleConfig (fun _ _ => True) n ∧ LockedBy n 5 7 ∧
      ∀ e ∈ contents n.vss, e.lbid = 7 → e.data.locked = false → 5 < e.verID := by
  obtain ⟨n₀, begun, reachable, ⟨free, bare⟩, shown⟩ := exists_step 4 (fun n₀ => (Lists 0 n₀.vss 0 ∧
      Lists 0 n₀.vbbm 0) ∧
      ([Command.beginVBCopy 5 (DBRootsStruct.zero.set 0 1) 0 [⟨0, 100⟩],
        .beginVBCopy 6 (DBRootsStruct.zero.set 0 2) 0 [⟨7, 1⟩],
        .writeVBEntry 5 7 0 1 7, .writeVBEntry 6 7 0 2 0, .vbCommit 6,
        .beginVBCopy 8 (DBRootsStruct.zero.set 0 1) 0 [⟨200, 1⟩]].foldlM stepInRoom
          n₀).any (fun n => decide
            (Lists 4 n.vss {⟨7, 6, ⟨false, false⟩⟩, ⟨7, 5, ⟨true, true⟩⟩})) = true)
    .initial (by decide +kernel) (show (Command.beginVBCopy 5
      (DBRootsStruct.zero.set 0 2) 0 []).real from trivial) fun _ => And.intro
  obtain ⟨n, ran, held⟩ := (Option.any_eq_true _ _).mp shown
  have start : VBRun exampleConfig (fun _ _ => True) n₀ := by
    obtain ⟨r, m, done, ok, rfl⟩ := runConfirmed_cases begun
    exact .start (reachable_sound reachable) ⟨rfl, rfl⟩
      (congrArg₂ View.mk (free.contents (reachable_sound reachable).vss)
        (bare.contents (reachable_sound reachable).vbbm))
  obtain ⟨run, last, ended⟩ := start.forward reachable
    (by simp [Command.real, Command.singleReplica, Command.rollsBack]) ran
  have held := (of_decide_eq_true held).contents (reachable_sound last).vss
  exact ⟨n₀, n, begun, run, ended, ⟨⟨7, 5, ⟨true, true⟩⟩, by simp [held], rfl, rfl, rfl⟩,
    by simp [held]⟩

end SlaveNode
