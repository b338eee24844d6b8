import EryDb.VersionView

/-!
# Every reachable node has sound tables

The state an undo leaves is a replay of records, so soundness is carried through a run for
the tables and for what a replay would make of them. Three writes have no record: a table
that grew starts with an empty log, a commit counts locked entries down, and a further
replica is written in place; none of them changes a chain of the replayed table.
-/

namespace SlotTable

open ImageUndo ImageUndo.Undoable

variable {Data File : Type} {layout : Layout} {s t : Memory Data File}

/-- The table an undo would leave. -/
def replayed (s : Memory Data File) : Memory Data File := clean s.restored

/-- Both the table and what an undo would leave of it are sound. -/
structure Guarded (layout : Layout) (s : Memory Data File) : Prop where
  sound : Sound layout s
  replay : Sound layout (replayed s)

lemma replayed_of_logged (hlg : Logged s t) : replayed t = replayed s := by
  rw [replayed, replayed, hlg.restored]

lemma Guarded.logged (hg : Guarded layout s) (hlg : Logged s t)
    (hs : Sound layout t) : Guarded layout t :=
  ⟨hs, by rw [replayed_of_logged hlg]; exact hg.replay⟩

lemma image_replayed (hem : s.undoRecords = []) : (replayed s).image = s.image := by
  simp [replayed, clean, Undoable.restored, restore, hem]

/-- A table with an empty log is its own replay. -/
lemma Guarded.of_empty (hs : Sound layout s) (hem : s.undoRecords = []) : Guarded layout s := by
  have image := image_replayed hem
  refine ⟨hs, (SameChains.of_image image).sound ?_ hs⟩
  exact field_of_image image

/-- Everything but the class's own counter is recorded. -/
structure LoggedButOwn (s t : Memory Data File) : Prop where
  dangling : t.dangling = s.dangling
  restored : ∀ a, a ≠ .field .ownCount → t.restored a = s.restored a
  records : ∀ a, s.Recorded a → t.Recorded a

lemma LoggedButOwn.refl (s : Memory Data File) : LoggedButOwn s s :=
  ⟨rfl, fun _ _ => rfl, fun _ => id⟩

lemma LoggedButOwn.trans {u : Memory Data File} (first : LoggedButOwn s t)
    (second : LoggedButOwn t u) : LoggedButOwn s u :=
  ⟨second.dangling.trans first.dangling, fun a ho =>
    (second.restored a ho).trans (first.restored a ho),
    fun a hrec => second.records a (first.records a hrec)⟩

lemma LoggedButOwn.of_logged (hlg : Logged s t) : LoggedButOwn s t :=
  ⟨hlg.dangling, fun a _ => congrFun hlg.restored a, hlg.records⟩

lemma loggedButOwn_putField (s : Memory Data File) (v : Nat) :
    LoggedButOwn s (putField s .ownCount v) :=
  ⟨rfl, fun _ ho => restored_store_ne _ ho, fun _ => id⟩

lemma LoggedButOwn.replay (hlg : LoggedButOwn s t) : SameChains (replayed s) (replayed t) ∧
      field (replayed t) .currentSize = field (replayed s) .currentSize := by
  refine ⟨⟨fun f _ own => ?_, fun b => ?_, fun i => ?_, fun i => ?_, fun i => ?_⟩, ?_⟩
  · exact hlg.restored (.field f) (by simpa using own)
  · exact hlg.restored (.bucket b) (by simp)
  · exact congrArg Slot.lbid (hlg.restored (.slot i) (by simp))
  · exact congrArg Slot.verID (hlg.restored (.slot i) (by simp))
  · exact congrArg Slot.next (hlg.restored (.slot i) (by simp))
  · exact hlg.restored (.field .currentSize) (by simp)

/-- A slot rewritten without a record keeps its place in the replayed table. -/
lemma replay_putSlot {i : Nat} {e : Slot Data} (lbid : e.lbid = (storage s i).lbid)
    (verID : e.verID = (storage s i).verID) (next : e.next = (storage s i).next) :
    SameChains (replayed s) (replayed (putSlot s i e)) ∧
      field (replayed (putSlot s i e)) .currentSize = field (replayed s) .currentSize := by
  have hos : ∀ a, a ≠ .slot i → (putSlot s i e).restored a = s.restored a :=
    fun a ho => restored_store_ne _ ho
  have hh : (putSlot s i e).restored (.slot i) = s.restored (.slot i) ∨
      (s.restored (.slot i) = storage s i ∧ (putSlot s i e).restored (.slot i) = e) := by
    by_cases hrec : s.Recorded (.slot i)
    · refine Or.inl (congrFun ?_ _)
      rw [putSlot]
      exact restored_store _ hrec
    · refine Or.inr ⟨restored_apply hrec, ?_⟩
      have fresh : ¬ (putSlot s i e).Recorded (.slot i) := by simpa using hrec
      rw [restored_apply fresh, putSlot, image_store, Function.update_self]
  have slots : ∀ j, (storage (replayed (putSlot s i e)) j).lbid = (storage (replayed s) j).lbid ∧
      (storage (replayed (putSlot s i e)) j).verID = (storage (replayed s) j).verID ∧
      (storage (replayed (putSlot s i e)) j).next = (storage (replayed s) j).next := by
    intro j
    simp only [storage, replayed, clean]
    by_cases he : j = i
    · subst he
      rcases hh with heq | ⟨hb, ha⟩
      · simp [heq]
      · rw [hb, ha]
        exact ⟨lbid, verID, next⟩
    · simp [hos (.slot j) (by simpa using he)]
  refine ⟨⟨fun f _ _ => hos (.field f) (by simp), fun b => hos (.bucket b) (by simp),
    fun j => (slots j).1, fun j => (slots j).2.1, fun j => (slots j).2.2⟩, ?_⟩
  exact hos (.field .currentSize) (by simp)

end SlotTable

namespace Vss

open ImageUndo ImageUndo.Undoable SlotScan SlotTable

variable {hasher : Int → Nat} {s : VSS} {lbid : Int}

lemma undoRecords_growVSS (s : VSS) : (growVSS hasher s).undoRecords = [] := by
  simp [growVSS, moveSegment]

lemma guarded_checkResize (hg : Guarded (vssLayout hasher) s) :
    Guarded (vssLayout hasher) (checkResize hasher s) := by
  rw [checkResize]
  split
  case isTrue full =>
    exact .of_empty (growVSS_spec hg.sound full).1 (undoRecords_growVSS s)
  case isFalse => exact hg

lemma guarded_insert (verID : Int) (vbFlag locked : Bool) (real : lbid ≠ -1)
    (hg : Guarded (vssLayout hasher) s) :
    Guarded (vssLayout hasher) (insert hasher lbid verID vbFlag locked false s) :=
  (guarded_checkResize hg).logged (logged_insert lbid verID vbFlag locked s)
    (insert_spec verID vbFlag locked false hg.sound real).1

lemma loggedButOwn_commit (txnID : Int) (s : VSS) : LoggedButOwn s (commit txnID s) := by
  refine forEach_preserves (LoggedButOwn s) (.refl s) fun i t _ hlg => hlg.trans ?_
  rw [commitStep]
  split
  · have marked : Logged t (putSlot (t.makeUndoRecord (.slot i)) i (unlockEntry (storage t i))) :=
      putSlot_logged (record_logged (Logged.refl t) _) (by simp) _
    refine LoggedButOwn.trans (.of_logged marked) ?_
    rw [uncountLocked]
    split
    · exact loggedButOwn_putField _ _
    · exact .refl _
  · exact .refl t

lemma guarded_commit (txnID : Int) (hg : Guarded (vssLayout hasher) s) :
    Guarded (vssLayout hasher) (commit txnID s) := by
  obtain ⟨he, size⟩ := (loggedButOwn_commit txnID s).replay
  exact ⟨commit_sound txnID hg.sound, he.sound size hg.replay⟩

end Vss

namespace Vbbm

open ImageUndo ImageUndo.Undoable SlotScan SlotTable

variable {hasher : Int → Int → Nat} {s : VBBM} {lbid : Int}

lemma guarded_checkResize (hg : Guarded (vbbmLayout hasher) s) :
    Guarded (vbbmLayout hasher) (checkResize hasher s) := by
  rw [checkResize]
  split
  case isTrue full => exact .of_empty (growVBBM_shrunk hg.sound).sound rfl
  case isFalse => exact hg

lemma guarded_insert (verID : Int) (data : VbbmData) (real : lbid ≠ -1)
    (hg : Guarded (vbbmLayout hasher) s) :
    Guarded (vbbmLayout hasher) (insert hasher lbid verID data false s) :=
  (guarded_checkResize hg).logged (logged_insert lbid verID data s)
    (insert_spec verID data false hg.sound real).1

lemma guarded_widened {t : VBBM} (hg : Guarded (vbbmLayout hasher) s)
    (hwi : Widened hasher s t) : Guarded (vbbmLayout hasher) t := by
  rcases hwi.grown with rfl | ⟨hem, -⟩
  · exact hg
  · exact .of_empty hwi.shrunk.sound hem

end Vbbm

namespace SlaveNode

open ImageUndo ImageUndo.Undoable SlotScan SlotTable Vss Vbbm

variable {cfg : NodeConfig} {n t : SlaveDBRMNode}

structure NodeGuarded (cfg : NodeConfig) (n : SlaveDBRMNode) : Prop where
  vss : Guarded (vssLayout cfg.vssHasher) n.vss
  vbbm : Guarded (vbbmLayout cfg.vbbmHasher) n.vbbm

lemma NodeGuarded.sound (hg : NodeGuarded cfg n) : NodeSound cfg n := ⟨hg.vss.sound, hg.vbbm.sound⟩

/-- Both tables are written with records only. -/
structure NodeLogged (n t : SlaveDBRMNode) : Prop where
  vss : Logged n.vss t.vss
  vbbm : Logged n.vbbm t.vbbm

lemma NodeLogged.refl (n : SlaveDBRMNode) : NodeLogged n n := ⟨Logged.refl _, Logged.refl _⟩

lemma NodeLogged.trans {u : SlaveDBRMNode} (first : NodeLogged n t) (second : NodeLogged t u) :
    NodeLogged n u :=
  ⟨first.vss.trans second.vss, first.vbbm.trans second.vbbm⟩

lemma NodeGuarded.logged (hg : NodeGuarded cfg n) (hlg : NodeLogged n t)
    (hs : NodeSound cfg t) : NodeGuarded cfg t :=
  ⟨hg.vss.logged hlg.vss hs.vss, hg.vbbm.logged hlg.vbbm hs.vbbm⟩

variable {transID lbid : Int}

lemma logged_rollbackBlock (ran : rollbackBlock cfg transID n lbid = .ok t) : NodeLogged n t := by
  simp only [rollbackBlock] at ran
  split at ran
  · split at ran
    · cases ran
    · rename_i vss set
      cases ran
      exact ⟨(logged_setVBFlag set).trans (Vss.logged_removeEntry _ _ _),
        Vbbm.logged_removeEntry _ _ _⟩
  · cases ran
    exact ⟨Vss.logged_removeEntry _ _ _, Logged.refl _⟩

/-- What every visit of a rollback keeps, the rollback keeps. -/
lemma rollbackFold_rule (P : SlaveDBRMNode → Prop)
    (kept : ∀ m u lbid, P m → rollbackBlock cfg transID m lbid = .ok u → P u) (start : P n)
    {lbids : List Int} (ran : lbids.foldlM (rollbackBlock cfg transID) n = .ok t) : P t := by
  induction lbids generalizing n with
  | nil => exact Except.ok.inj ran ▸ start
  | cons lbid lbids ih =>
    rw [List.foldlM_cons] at ran
    cases first : rollbackBlock cfg transID n lbid with
    | error m =>
      rw [first] at ran
      cases ran
    | ok m =>
      rw [first] at ran
      exact ih (kept n m lbid start first) ran

lemma logged_vbRollbackBlocks (hs : NodeSound cfg n) (transID : Int) (lbids : List Int) :
    NodeSound cfg (vbRollbackBlocks cfg transID lbids n).2 ∧
      NodeLogged n (vbRollbackBlocks cfg transID lbids n).2 := by
  obtain ⟨t, done, kept, -, ran⟩ := vbRollbackBlocks_spec hs transID lbids
  rw [done]
  exact ⟨kept, rollbackFold_rule (NodeLogged n) (fun _ _ _ hlg first =>
    hlg.trans (logged_rollbackBlock first))
    (NodeLogged.refl n) ran⟩

lemma sweep_other {Other : Type} {onRemove : VSSEntry → Other → Other} (P : Other → Prop)
    (kept : ∀ e other, P other → P (onRemove e other)) (lbid : Int) (bucket fuel : Nat)
    (prev index : Option Nat) {acc : VSS × Other} (start : P acc.2) :
    P (sweep onRemove lbid bucket fuel prev index acc).2 := by
  induction fuel generalizing prev index acc with
  | zero => exact start
  | succ fuel ih =>
    cases index with
    | none => exact start
    | some i =>
      simp only [sweep]
      split
      · exact ih _ _ (kept _ _ start)
      · exact ih _ _ start

/-- Deleting a range of blocks takes copies out of the version buffer block map and does nothing
else to it. -/
lemma removeRange_vbbm (P : VBBM → Prop)
    (kept : ∀ lbid verID s, P s → P (Vbbm.removeEntry cfg.vbbmHasher lbid verID s))
    (range : LBIDRange) (start : P n.vbbm) : P (removeRange cfg n range).vbbm := by
  refine List.foldlRecOn (motive := fun acc : VSS × VBBM => P acc.2) _ _ start fun acc
    held lbid _ => ?_
  refine sweep_other P (fun e other held => ?_) _ _ _ _ _ held
  split
  · exact kept _ _ _ held
  · exact held

lemma logged_removeRange (range : LBIDRange) (n : SlaveDBRMNode) :
    NodeLogged n (removeRange cfg n range) :=
  ⟨(logged_recordHeader _).trans (logged_sweepBlocks _ _ _ fun f => by simp),
    removeRange_vbbm (Logged n.vbbm)
      (fun _ _ _ hlg => hlg.trans (Vbbm.logged_removeEntry _ _ _)) range
      (Logged.refl _)⟩

lemma logged_deleteOID (lbids : List LBIDRange) (n : SlaveDBRMNode) :
    NodeLogged n (deleteOID cfg lbids n).2 := by
  rw [deleteOID]
  split
  · exact NodeLogged.refl n
  · exact List.foldlRecOn (motive := NodeLogged n) _ _ (NodeLogged.refl n) fun m hlg range _ =>
      hlg.trans (logged_removeRange range m)

variable {dbrIdx : Fin 4} {vbOID vbFBO : Nat}

lemma guarded_copyOut (hg : NodeGuarded cfg n) {oldVerID : Int} (real : lbid ≠ -1)
    (hcu : Current (contents n.vss) lbid oldVerID) :
    NodeGuarded cfg (copyOut cfg transID lbid oldVerID dbrIdx vbOID vbFBO n).2 := by
  have vbbm := Vbbm.guarded_insert oldVerID ((default : VbbmData).setReplica dbrIdx vbOID vbFBO)
    real hg.vbbm
  simp only [copyOut]
  split
  · split
    · exact ⟨hg.vss, vbbm⟩
    rename_i vss set
    have present : ∃ e ∈ contents n.vss, e.lbid = lbid ∧ e.verID = oldVerID := by
      rcases hcu with ⟨e, hm, hn, -, hver⟩ | ⟨zero, -⟩
      · exact ⟨e, hm, hn, hver⟩
      · omega
    obtain ⟨vss', set', kept, -⟩ := flags_setVBFlag hg.vss.sound true present
    obtain rfl : vss = vss' := Option.some.inj (set.symm.trans set')
    exact ⟨Vss.guarded_insert transID false true real
      (hg.vss.logged (logged_setVBFlag set) kept), vbbm⟩
  · exact ⟨Vss.guarded_insert transID false true real
      (Vss.guarded_insert oldVerID true false real hg.vss), vbbm⟩

lemma guarded_addReplica (hg : NodeGuarded cfg n) {oldVerID : Int} {r : ReturnCode × SlaveDBRMNode}
    (ran : addReplica cfg lbid oldVerID dbrIdx vbOID vbFBO n = some r) (hs : NodeSound cfg r.2) :
    NodeGuarded cfg r.2 := by
  simp only [addReplica] at ran
  split at ran
  · cases ran
    exact hg
  · cases ran
  rename_i index hf
  cases ran
  obtain ⟨he, size⟩ := replay_putSlot (s := n.vbbm) (i := index) (e := { storage n.vbbm index with
      data := (storage n.vbbm index).data.setReplica dbrIdx vbOID vbFBO }) rfl rfl rfl
  exact ⟨hg.vss, hs.vbbm, he.sound size hg.vbbm.replay⟩

lemma HandedOut.guarded {wide : VBBM} (hha : HandedOut cfg n wide t)
    (hg : NodeGuarded cfg n) : NodeGuarded cfg t :=
  ⟨hg.vss.logged hha.vss hha.sound.vss,
    (guarded_widened hg.vbbm hha.widened).logged hha.vbbm hha.sound.vbbm⟩

variable {c : Command}

/-- A command keeps the tables and their replays sound. -/
lemma run_guarded (hg : NodeGuarded cfg n) {r : Reply} (real : c.real)
    (ran : c.run cfg n = some (r, t)) : NodeGuarded cfg t := by
  cases c with
  | beginVBCopy transID vbOID dbrIndex ranges =>
    obtain ⟨wide, hha⟩ := beginVBCopy_spec hg.sound ran
    exact hha.guarded hg
  | writeVBEntry transID lbid dbrIdx vbOID vbFBO =>
    simp only [Command.run] at ran
    obtain ⟨⟨code, u⟩, hwro, he⟩ := Option.map_eq_some_iff.mp ran
    cases he
    have hs := (writeVBEntry_spec hg.sound real hwro).1
    simp only [SlaveNode.writeVBEntry] at hwro
    split at hwro
    · exact guarded_addReplica hg hwro hs
    split at hwro
    · cases hwro
      exact hg
    · have hcp := congrArg Prod.snd (Option.some.inj hwro)
      rw [← hcp]
      exact guarded_copyOut hg real (getCurrentVersion_spec hg.vss.sound.toChained lbid)
  | vbCommit transID =>
    cases ran
    exact ⟨guarded_commit transID hg.vss, hg.vbbm⟩
  | vbRollback transID lbidList =>
    cases ran
    obtain ⟨hs, hlg⟩ := logged_vbRollbackBlocks hg.sound transID (lbidList.flatMap LBIDRange.lbids)
    exact hg.logged hlg hs
  | vbRollbackBlocks transID lbidList =>
    cases ran
    obtain ⟨hs, hlg⟩ := logged_vbRollbackBlocks hg.sound transID lbidList
    exact hg.logged hlg hs
  | deleteOID lbids =>
    cases ran
    exact hg.logged (logged_deleteOID lbids n) (deleteOID_spec hg.sound lbids).1

variable {layout : Layout}

lemma guarded_confirm {Data File : Type} {s : Memory Data File} (hg : Guarded layout s) :
    Guarded layout s.confirmChanges := by
  have same : SameChains s s.confirmChanges := .of_image rfl
  exact .of_empty (same.sound rfl hg.sound) rfl

lemma guarded_undo {Data File : Type} {s u : Memory Data File} (hg : Guarded layout s)
    (undo : s.undoChanges = some u) : Guarded layout u := by
  rw [Undoable.undoChanges] at undo
  split at undo
  · cases undo
    exact .of_empty hg.replay rfl
  · cases undo

lemma step_guarded (hg : NodeGuarded cfg n) (real : c.real) (next : Step cfg n c t) :
    NodeGuarded cfg t := by
  cases next with
  | confirmed ran ok =>
    have ha := run_guarded hg real ran
    refine ⟨?_, ?_⟩
    · simp only [confirmChanges]
      split
      · exact guarded_confirm ha.vss
      · exact ha.vss
    · simp only [confirmChanges]
      split
      · exact guarded_confirm ha.vbbm
      · exact ha.vbbm
  | undone ran undo =>
    have ha := run_guarded hg real ran
    simp only [undoChanges] at undo
    split at undo
    · rename_i vbbm vss vbbmUndo vssUndo
      cases undo
      refine ⟨?_, ?_⟩
      · split at vssUndo
        · exact guarded_undo ha.vss vssUndo
        · cases vssUndo
          exact ha.vss
      · split at vbbmUndo
        · exact guarded_undo ha.vbbm vbbmUndo
        · cases vbbmUndo
          exact ha.vbbm
    · cases undo

lemma initial_guarded : NodeGuarded cfg initial :=
  ⟨.of_empty Vss.initShmseg_sound rfl, .of_empty Vbbm.initShmseg_sound rfl⟩

lemma reachable_guarded (hr : Reachable cfg n) : NodeGuarded cfg n := by
  induction hr with
  | initial => exact initial_guarded
  | step _ real next ih => exact step_guarded ih real next

lemma reachable_sound (hr : Reachable cfg n) : NodeSound cfg n := (reachable_guarded hr).sound

section Confirmed

variable {transID lbid : Int}

/-- A command that succeeds and is confirmed. -/
def runConfirmed (cfg : NodeConfig) (n : SlaveDBRMNode) (c : Command) : Option SlaveDBRMNode :=
  match c.run cfg n with
  | none => none
  | some (r, t) => if r.code = .ok then some (confirmChanges c t) else none

lemma runConfirmed_eq {r : Reply} (ran : c.run cfg n = some (r, t)) (ok : r.code = .ok) :
    runConfirmed cfg n c = some (confirmChanges c t) := by
  simp [runConfirmed, ran, if_pos ok]

lemma runConfirmed_cases (ran : runConfirmed cfg n c = some t) :
    ∃ r m, c.run cfg n = some (r, m) ∧ r.code = .ok ∧ t = confirmChanges c m := by
  simp only [runConfirmed] at ran
  split at ran
  · cases ran
  · rename_i r m done
    split at ran
    case isTrue ok => exact ⟨r, m, done, ok, (Option.some.inj ran).symm⟩
    case isFalse => cases ran

lemma Reachable.confirmed (hr : Reachable cfg n) (real : c.real)
    (ran : runConfirmed cfg n c = some t) : Reachable cfg t := by
  obtain ⟨r, m, done, ok, rfl⟩ := runConfirmed_cases ran
  exact hr.step real (.confirmed done ok)

@[simp] lemma view_confirmChanges (c : Command) (n : SlaveDBRMNode) :
    view (confirmChanges c n) = view n := by
  simp only [view, confirmChanges]
  congr 1 <;> split <;> rfl

lemma vbbm_copyOut (transID lbid oldVerID : Int) (dbrIdx : Fin 4) (vbOID vbFBO : Nat) :
    (copyOut cfg transID lbid oldVerID dbrIdx vbOID vbFBO n).2.vbbm =
      Vbbm.insert cfg.vbbmHasher lbid oldVerID
        ((default : VbbmData).setReplica dbrIdx vbOID vbFBO) false n.vbbm := by
  simp only [copyOut]
  split
  · split <;> rfl
  · rfl

end Confirmed

end SlaveNode
