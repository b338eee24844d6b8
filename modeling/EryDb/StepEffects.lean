import EryDb.BlockSteps

/-!
# What a step of a node can do to its entries

One inversion lemma for the steps of a node: a confirmed command acts as its relation says,
and a command that is undone leaves the versions alone. The latter holds when no record of
an earlier command is pending, which a `beginVBCopy` for a replica other than the first can
leave behind. Growth of the block map is not undone, and neither is a further replica.
-/

namespace SlotTable

open ImageUndo ImageUndo.Undoable

variable {Data File : Type} {s t : Memory Data File} {c : Multiset (Entry Data)}

/-- An undo, if there is one, leaves the entries `c`. -/
def UndoesTo (c : Multiset (Entry Data)) (s : Memory Data File) : Prop :=
  s.dangling = 0 → contents (replayed s) = c

lemma contents_replayed (hem : s.undoRecords = []) : contents (replayed s) = contents s :=
  contents_of_image (image_replayed hem)

lemma undoesTo_self (hem : s.undoRecords = []) : UndoesTo (contents s) s :=
  fun _ => contents_replayed hem

lemma UndoesTo.logged (undoes : UndoesTo c s) (hlg : Logged s t) : UndoesTo c t := by
  intro fixed
  rw [replayed_of_logged hlg]
  exact undoes (hlg.dangling ▸ fixed)

lemma UndoesTo.loggedButOwn (undoes : UndoesTo c s) (hlg : LoggedButOwn s t) : UndoesTo c t := by
  intro fixed
  rw [← undoes (hlg.dangling ▸ fixed)]
  refine contents_congr ?_ fun i => ?_
  · exact hlg.restored (.field .capacity) (by simp)
  · exact hlg.restored (.slot i) (by simp)

lemma undone_table {b : Bool} {u : Memory Data File}
    (undo : (if b then s.undoChanges else some s) = some u) :
    (b = true → s.dangling = 0 ∧ u = replayed s) ∧ (b = false → u = s) := by
  cases b with
  | false => exact ⟨by simp, fun _ => (Option.some.inj undo).symm⟩
  | true =>
    rw [if_pos rfl, Undoable.undoChanges] at undo
    split at undo
    · rename_i fixed
      exact ⟨fun _ => ⟨fixed, (Option.some.inj undo).symm⟩, by simp⟩
    · cases undo

end SlotTable

namespace Vss

open ImageUndo ImageUndo.Undoable SlotTable

variable {hasher : Int → Nat} {s : VSS} {lbid : Int} {c : Versions}

/-- Growing leaves an undo only if no record points into the old segment. -/
lemma dangling_growVSS (fixed : (growVSS hasher s).dangling = 0) :
    s.undoRecords = [] ∧ s.dangling = 0 := by
  simpa [growVSS, moveSegment, and_comm] using fixed

lemma undoesTo_insert (hs : Sound (vssLayout hasher) s) (undoes : UndoesTo c s)
    (verID : Int) (vbFlag locked : Bool) :
    UndoesTo c (insert hasher lbid verID vbFlag locked false s) := by
  refine UndoesTo.logged ?_ (logged_insert lbid verID vbFlag locked s)
  rw [checkResize]
  split
  case isTrue full =>
    intro fixed
    obtain ⟨hem, still⟩ := dangling_growVSS fixed
    rw [contents_replayed (undoRecords_growVSS s), (growVSS_spec hs full).2.1,
      ← undoes still, contents_replayed hem]
  case isFalse => exact undoes

end Vss

namespace SlaveNode

open ImageUndo ImageUndo.Undoable SlotTable Vss Vbbm

variable {cfg : NodeConfig} {n t u : SlaveDBRMNode} {c : Command}

/-- No record of an earlier command is pending. -/
structure Quiet (n : SlaveDBRMNode) : Prop where
  vss : n.vss.undoRecords = []
  vbbm : n.vbbm.undoRecords = []

lemma undoChanges_tables (undo : undoChanges c t = some u) :
    (if c.locksVBBM then t.vbbm.undoChanges else some t.vbbm) = some u.vbbm ∧
      (if c.locksVSS then t.vss.undoChanges else some t.vss) = some u.vss := by
  simp only [undoChanges] at undo
  split at undo
  · rename_i vbbm vss once second
    cases undo
    exact ⟨once, second⟩
  · cases undo

/-- The transaction and the blocks of a rollback, in either form. -/
def Command.rollsBack : Command → Option (Int × List Int)
  | .vbRollback transID lbidList => some (transID, lbidList.flatMap LBIDRange.lbids)
  | .vbRollbackBlocks transID lbidList => some (transID, lbidList)
  | _ => none

/-- What a step does to the entries of both tables. -/
inductive Effect (c : Command) (n u : SlaveDBRMNode) : Prop where
  | begun {transID : Int} {vbOID : BrmTypes.DBRootsStruct} {dbrIndex : Fin 4}
      {ranges : List LBIDRange} {d : Copies}
      (command : c = .beginVBCopy transID vbOID dbrIndex ranges)
      (fewer : d ≤ contents n.vbbm) (kept : SameRoom n.vbbm u.vbbm → d = contents n.vbbm)
      (aged : Relation.ReflTransGen AgeStep ⟨contents n.vss, d⟩ (view u))
  | written {transID lbid : Int} {dbrIdx : Fin 4} {vbOID vbFBO : Nat}
      (command : c = .writeVBEntry transID lbid dbrIdx vbOID vbFBO)
      (written : Written transID lbid dbrIdx vbOID vbFBO (view n) (view u))
  | committed {transID : Int} (command : c = .vbCommit transID)
      (unlocks : view u = ⟨(contents n.vss).map (unlocked transID), contents n.vbbm⟩)
  | rolledBack {transID : Int} {lbids : List Int} (command : c.rollsBack = some (transID, lbids))
      (rolled : RolledBackAll transID lbids (view n) (view u))
  | deleted {ranges : List LBIDRange} (command : c = .deleteOID ranges)
      (swept : SweptAll ranges (view n) (view u))
  | reverted (versions : contents u.vss = contents n.vss)
      (copies : (contents u.vbbm).map Entry.key ≤ (contents n.vbbm).map Entry.key)
      (kept : SameRoom n.vbbm u.vbbm →
        (contents u.vbbm).map Entry.key = (contents n.vbbm).map Entry.key)

lemma field_confirmChanges (c : Command) (n : SlaveDBRMNode) (f : Field) :
    field (confirmChanges c n).vbbm f = field n.vbbm f := by
  simp only [confirmChanges]
  split <;> rfl

variable {r : Reply} {transID lbid : Int} {dbrIdx : Fin 4} {vbOID vbFBO : Nat}

variable (hs : NodeSound cfg n)
include hs

lemma written_of_run (real : lbid ≠ -1)
    (ran : (Command.writeVBEntry transID lbid dbrIdx vbOID vbFBO).run cfg n = some (r, t))
    (ok : r.code = .ok) : Written transID lbid dbrIdx vbOID vbFBO (view n) (view t) := by
  simp only [Command.run] at ran
  obtain ⟨⟨code, m⟩, hwro, answer⟩ := Option.map_eq_some_iff.mp ran
  cases answer
  obtain ⟨-, ⟨-, hwr⟩ | ⟨failed, -⟩⟩ := writeVBEntry_spec hs real hwro
  · exact hwr
  · exact absurd ok failed

lemma rolledBack_of_run {lbids : List Int} (command : c.rollsBack = some (transID, lbids))
    (ran : c.run cfg n = some (r, t)) : RolledBackAll transID lbids (view n) (view t) := by
  obtain ⟨u, done, -, hrol, -⟩ := vbRollbackBlocks_spec hs transID lbids
  cases c with
  | vbRollback transID lbidList =>
    cases command
    cases ran
    rw [SlaveNode.vbRollback, done]
    exact hrol
  | vbRollbackBlocks transID lbidList =>
    cases command
    cases ran
    rw [done]
    exact hrol
  | _ => cases command

omit hs in
/-- Where the room is the same, the map has not grown. -/
lemma HandedOut.unlarged {wide : VBBM} (hha : HandedOut cfg n wide t)
    (room : SameRoom n.vbbm wide) : wide = n.vbbm := by
  have hcap := room.capacity
  have files := room.files
  rcases hha.widened.grown with he | ⟨-, -, larger⟩
  · exact he
  · omega

lemma confirmed_effect (real : c.real) (ran : c.run cfg n = some (r, t)) (ok : r.code = .ok) :
    Effect c n (confirmChanges c t) := by
  have he : view (confirmChanges c t) = view t := view_confirmChanges c t
  cases c with
  | beginVBCopy transID vbOID dbrIndex ranges =>
    obtain ⟨wide, hha⟩ := beginVBCopy_spec hs ran
    refine .begun rfl hha.widened.shrunk.contents (fun room => ?_) (by rw [he]; exact hha.aged)
    have hcap := room.capacity
    have files := room.files
    rw [field_confirmChanges] at hcap files
    rw [hha.unlarged ⟨hha.room.capacity.symm.trans hcap, hha.room.files.symm.trans files⟩]
  | writeVBEntry transID lbid dbrIdx vbOID vbFBO =>
    exact .written rfl (by rw [he]; exact written_of_run hs real ran ok)
  | vbCommit transID =>
    cases ran
    refine .committed rfl ?_
    rw [he, view, (commit_spec transID n.vss).2]
  | vbRollback transID lbidList | vbRollbackBlocks transID lbidList =>
    exact .rolledBack rfl (by rw [he]; exact rolledBack_of_run hs rfl ran)
  | deleteOID lbids =>
    cases ran
    refine .deleted rfl ?_
    rw [he]
    exact (deleteOID_spec hs lbids).2

lemma copyOut_undoes (hq : Quiet n) {oldVerID : Int} (real : lbid ≠ -1) :
    UndoesTo (contents n.vss) (copyOut cfg transID lbid oldVerID dbrIdx vbOID vbFBO n).2.vss := by
  have start : UndoesTo (contents n.vss) n.vss := undoesTo_self hq.vss
  simp only [copyOut]
  split
  · split
    · exact start
    · rename_i vss set
      exact undoesTo_insert (setVBFlag_sound hs.vss set) (start.logged (logged_setVBFlag set))
        transID false true
  · exact undoesTo_insert (insert_spec oldVerID true false false hs.vss real).1
      (undoesTo_insert hs.vss start oldVerID true false) transID false true

omit hs in
lemma contents_replayed_logged {Data File : Type} {s t : Memory Data File}
    (hem : s.undoRecords = []) (hlg : Logged s t) : contents (replayed t) = contents s := by
  rw [replayed_of_logged hlg, contents_replayed hem]

omit hs in
lemma vbbm_insert_undoes {hasher : Int → Int → Nat} {s : VBBM}
    (hs : Sound (vbbmLayout hasher) s) (hem : s.undoRecords = []) (lbid verID : Int)
    (data : VbbmData) :
    contents (replayed (Vbbm.insert hasher lbid verID data false s)) = contents s := by
  have start : (Vbbm.checkResize hasher s).undoRecords = [] := by
    rw [Vbbm.checkResize]
    split
    · rfl
    · exact hem
  rw [contents_replayed_logged start (Vbbm.logged_insert lbid verID data s),
    (Vbbm.checkResize_spec hs).2.1]

variable (hq : Quiet n)
include hq

lemma writeVBEntry_undoes {r : ReturnCode × SlaveDBRMNode} (real : lbid ≠ -1)
    (ran : writeVBEntry cfg transID lbid dbrIdx vbOID vbFBO n = some r) :
    UndoesTo (contents n.vss) r.2.vss ∧
      (contents (replayed r.2.vbbm)).map Entry.key = (contents n.vbbm).map Entry.key := by
  have he : UndoesTo (contents n.vss) n.vss ∧
      (contents (replayed n.vbbm)).map Entry.key = (contents n.vbbm).map Entry.key :=
    ⟨undoesTo_self hq.vss, by rw [contents_replayed hq.vbbm]⟩
  simp only [writeVBEntry] at ran
  split at ran
  · simp only [addReplica] at ran
    split at ran
    · cases ran
      exact he
    · cases ran
    rename_i index hf
    cases ran
    refine ⟨he.1, ?_⟩
    have he : SameChains n.vbbm (putSlot n.vbbm index { storage n.vbbm index with
        data := (storage n.vbbm index).data.setReplica dbrIdx vbOID vbFBO }) :=
      .of_putSlot rfl rfl rfl
    rw [contents_replayed (by exact hq.vbbm)]
    exact he.contents_keys
  · split at ran
    · cases ran
      exact he
    · cases ran
      refine ⟨copyOut_undoes hs hq real, ?_⟩
      rw [vbbm_copyOut, vbbm_insert_undoes hs.vbbm hq.vbbm]

/-- The versions after an undo are those from before the command. -/
lemma undone_versions (real : c.real) (ran : c.run cfg n = some (r, t))
    (undo : undoChanges c t = some u) (locks : c.locksVSS = true) :
    contents u.vss = contents n.vss := by
  obtain ⟨fixed, vss⟩ := (undone_table (undoChanges_tables undo).2).1 locks
  rw [vss]
  cases c with
  | beginVBCopy transID vbOID dbrIndex ranges =>
    obtain ⟨wide, hha⟩ := beginVBCopy_spec hs ran
    exact contents_replayed_logged hq.vss hha.vss
  | writeVBEntry transID lbid dbrIdx vbOID vbFBO =>
    obtain ⟨⟨code, m⟩, hwro, answer⟩ := Option.map_eq_some_iff.mp ran
    cases answer
    exact (writeVBEntry_undoes hs hq real hwro).1 fixed
  | vbCommit transID =>
    cases ran
    exact (undoesTo_self hq.vss).loggedButOwn (loggedButOwn_commit transID n.vss) fixed
  | vbRollback transID lbidList =>
    cases ran
    exact contents_replayed_logged hq.vss (logged_vbRollbackBlocks hs transID _).2.vss
  | vbRollbackBlocks transID lbidList =>
    cases ran
    exact contents_replayed_logged hq.vss (logged_vbRollbackBlocks hs transID _).2.vss
  | deleteOID lbids =>
    cases ran
    exact contents_replayed_logged hq.vss (logged_deleteOID lbids n).vss

/-- The copies left are some of those before, and all of them if the map has not grown. -/
def KeysLeft (n u : SlaveDBRMNode) : Prop :=
  (contents u.vbbm).map Entry.key ≤ (contents n.vbbm).map Entry.key ∧ (SameRoom n.vbbm u.vbbm →
    (contents u.vbbm).map Entry.key = (contents n.vbbm).map Entry.key)

omit hs in
/-- An undone `beginVBCopy` for the first replica leaves nothing but growth of the block map. -/
lemma undone_begin_copies {wide : VBBM} (hha : HandedOut cfg n wide t)
    (vbbm : u.vbbm = replayed t.vbbm) : KeysLeft n u := by
  have hem : wide.undoRecords = [] := by
    rcases hha.widened.grown with he | ⟨hem, -⟩
    · rw [he, hq.vbbm]
    · exact hem
  have copies : contents u.vbbm = contents wide := by
    rw [vbbm, contents_replayed_logged hem hha.vbbm]
  rw [KeysLeft, copies]
  refine ⟨Multiset.map_le_map hha.widened.shrunk.contents, fun room => ?_⟩
  have image : u.vbbm.image = wide.image := by
    rw [vbbm, replayed_of_logged hha.vbbm, image_replayed hem]
  rw [hha.unlarged ⟨(field_of_image image).symm.trans room.capacity,
    (field_of_image image).symm.trans room.files⟩]

/-- An undo leaves no new copies; those it loses are lost by growth. -/
lemma undone_copies (real : c.real) (ran : c.run cfg n = some (r, t))
    (undo : undoChanges c t = some u) (locks : c.locksVSS = true) : KeysLeft n u := by
  have table := undone_table (undoChanges_tables undo).1
  have hwh (he : (contents u.vbbm).map Entry.key = (contents n.vbbm).map Entry.key) :
      KeysLeft n u := ⟨he.le, fun _ => he⟩
  have hlg (logged : Logged n.vbbm t.vbbm) (locks : c.locksVBBM = true) : KeysLeft n u := by
    refine hwh ?_
    rw [(table.1 locks).2, contents_replayed_logged hq.vbbm logged]
  cases c with
  | beginVBCopy transID vbOID dbrIndex ranges =>
    obtain ⟨wide, hha⟩ := beginVBCopy_spec hs ran
    exact undone_begin_copies hq hha (table.1 locks).2
  | writeVBEntry transID lbid dbrIdx vbOID vbFBO =>
    obtain ⟨⟨code, m⟩, hwro, answer⟩ := Option.map_eq_some_iff.mp ran
    cases answer
    refine hwh ?_
    rw [(table.1 rfl).2]
    exact (writeVBEntry_undoes hs hq real hwro).2
  | vbCommit transID =>
    cases ran
    exact hwh (by rw [table.2 rfl])
  | vbRollback transID lbidList =>
    cases ran
    exact hlg (logged_vbRollbackBlocks hs transID _).2.vbbm rfl
  | vbRollbackBlocks transID lbidList =>
    cases ran
    exact hlg (logged_vbRollbackBlocks hs transID _).2.vbbm rfl
  | deleteOID lbids =>
    cases ran
    exact hlg (logged_deleteOID lbids n).vbbm rfl

/-- Every command but a `beginVBCopy` for a further replica is undone; that one stays. -/
lemma undone_effect (real : c.real) (ran : c.run cfg n = some (r, t))
    (undo : undoChanges c t = some u) : Effect c n u := by
  by_cases locks : c.locksVSS = true
  · obtain ⟨hfe, kept⟩ := undone_copies hs hq real ran undo locks
    exact .reverted (undone_versions hs hq real ran undo locks) hfe kept
  cases c with
  | beginVBCopy transID vbOID dbrIndex ranges =>
    obtain ⟨wide, hha⟩ := beginVBCopy_spec hs ran
    obtain ⟨once, second⟩ := undoChanges_tables undo
    have hunl : (Command.beginVBCopy transID vbOID dbrIndex ranges).locksVSS = false := by
      simpa using locks
    have vss := (undone_table second).2 hunl
    have vbbm := (undone_table once).2 hunl
    have he : view u = view t := by rw [view, view, vss, vbbm]
    refine .begun rfl hha.widened.shrunk.contents (fun room => ?_) (by rw [he]; exact hha.aged)
    rw [vbbm] at room
    rw [hha.unlarged ⟨hha.room.capacity.symm.trans room.capacity,
      hha.room.files.symm.trans room.files⟩]
  | _ => exact absurd rfl locks

end SlaveNode
