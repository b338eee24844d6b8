import EryDb.SlaveNode
import EryDb.VersionLog

/-!
# The node as two multisets of entries

The abstract node has the entries of the version substitution structure and those of the
version buffer block map, and neither slots nor chains. On a node whose tables are sound
every command acts on this view by removing, flagging and adding entries of one block at
a time; each command is stated once as such a relation, and the results about runs are
proved over the relations.
-/

namespace SlaveNode

open ImageUndo ImageUndo.Undoable SlotScan SlotTable Vss Vbbm

variable {cfg : NodeConfig} {n t : SlaveDBRMNode}

structure NodeSound (cfg : NodeConfig) (n : SlaveDBRMNode) : Prop where
  vss : Sound (vssLayout cfg.vssHasher) n.vss
  vbbm : Sound (vbbmLayout cfg.vbbmHasher) n.vbbm

structure View where
  versions : Versions
  copies : Copies

def view (n : SlaveDBRMNode) : View := ⟨contents n.vss, contents n.vbbm⟩

/-- One entry of a version goes, and the whole block with it if nothing needs it. -/
def Removes (lbid verID : Int) (c c' : Versions) : Prop :=
  (c' = c ∧ ∀ e ∈ c, ¬ (e.lbid = lbid ∧ e.verID = verID)) ∨
    ∃ e rest, (e.lbid = lbid ∧ e.verID = verID) ∧ c = e ::ₘ rest ∧ c' = collected lbid rest

/-- One copy of a version goes, if there is one. -/
def Drops (lbid verID : Int) (d d' : Copies) : Prop :=
  (d' = d ∧ ∀ x ∈ d, ¬ (x.lbid = lbid ∧ x.verID = verID)) ∨
    ∃ x, (x.lbid = lbid ∧ x.verID = verID) ∧ d = x ::ₘ d'

/-- One entry of a version gets a new flag. -/
def Flags (lbid verID : Int) (vbFlag : Bool) (c c' : Versions) : Prop :=
  ∃ e rest, (e.lbid = lbid ∧ e.verID = verID) ∧ c = e ::ₘ rest ∧
    c' = ⟨lbid, verID, ⟨vbFlag, e.data.locked⟩⟩ ::ₘ rest

lemma removes_removeEntry {hasher : Int → Nat} {s : VSS} (hs : Sound (vssLayout hasher) s)
    (lbid verID : Int) :
    Removes lbid verID (contents s) (contents (Vss.removeEntry hasher lbid verID s)) := by
  cases hf : getIndex (vssLayout hasher) s lbid verID with
  | none =>
    have missing := (getIndex_eq_none_iff hs.toChained).mp hf
    rw [Vss.removeEntry_missing hs.toChained missing]
    exact Or.inl ⟨rfl, missing⟩
  | some place =>
    obtain ⟨-, -, hn, hver⟩ := getIndex_mem hs.toChained hf
    obtain ⟨-, -, rest, hb, ha⟩ := Vss.removeEntry_spec hs hf
    exact Or.inr ⟨_, rest, ⟨hn, hver⟩, hb, ha⟩

variable {lbid : Int} {transID : Int} {s : VBBM}

lemma drops_removeEntry {hasher : Int → Int → Nat} (hs : Sound (vbbmLayout hasher) s)
    (lbid verID : Int) :
    Drops lbid verID (contents s) (contents (Vbbm.removeEntry hasher lbid verID s)) := by
  obtain ⟨-, ⟨he, missing⟩ | hf⟩ := removeEntry_cases hs lbid verID
  · rw [he]
    exact Or.inl ⟨rfl, missing⟩
  · exact Or.inr hf

/-- A version that some entry of the block has can be flagged. -/
lemma flags_setVBFlag {hasher : Int → Nat} {s : VSS} (hs : Sound (vssLayout hasher) s)
    {verID : Int} (vbFlag : Bool) (present : ∃ e ∈ contents s, e.lbid = lbid ∧ e.verID = verID) :
    ∃ t, setVBFlag hasher lbid verID vbFlag s = some t ∧ Sound (vssLayout hasher) t ∧
      Flags lbid verID vbFlag (contents s) (contents t) := by
  cases hf : getIndex (vssLayout hasher) s lbid verID with
  | none =>
    obtain ⟨e, hm, key⟩ := present
    exact absurd key ((getIndex_eq_none_iff hs.toChained).mp hf e hm)
  | some place =>
    obtain ⟨t, set⟩ : ∃ t, setVBFlag hasher lbid verID vbFlag s = some t :=
      ⟨_, by rw [setVBFlag, hf]⟩
    obtain ⟨_, _, rest, place, kept, -, -, hb, ha, -⟩ := setVBFlag_spec hs set
    obtain ⟨-, -, key⟩ := getIndex_mem hs.toChained place
    exact ⟨t, set, kept, _, rest, key, hb, ha⟩

/-- What a rollback does to one block of the view. -/
inductive RolledBack (transID lbid : Int) (v w : View) : Prop where
  | unflagged {oldVerID : Int} {c : Versions}
      (highest : HighestInVB v.versions lbid transID oldVerID)
      (drops : Drops lbid oldVerID v.copies w.copies)
      (flags : Flags lbid oldVerID false v.versions c) (removes : Removes lbid transID c w.versions)
  | untouched
      (none : ∀ e ∈ v.versions, e.lbid = lbid → e.data.vbFlag = true →
        ¬ (0 ≤ e.verID ∧ e.verID ≤ transID))
      (copies : w.copies = v.copies) (removes : Removes lbid transID v.versions w.versions)

variable (hs : NodeSound cfg n)
include hs

lemma rollbackBlock_spec (transID lbid : Int) :
    ∃ t, rollbackBlock cfg transID n lbid = .ok t ∧ NodeSound cfg t ∧
      RolledBack transID lbid (view n) (view t) := by
  rcases getHighestVerInVB_spec hs.vss.toChained lbid transID with hhi | ⟨none, hab⟩
  · obtain ⟨e, hm, hn, -, hver⟩ := hhi.inside
    obtain ⟨vss, set, kept, flags⟩ := flags_setVBFlag hs.vss false ⟨e, hm, hn, hver⟩
    have some_version : getHighestVerInVB cfg.vssHasher n.vss lbid transID ≠ -1 := by
      have := hhi.bounds
      omega
    refine ⟨⟨Vss.removeEntry cfg.vssHasher lbid transID vss, Vbbm.removeEntry cfg.vbbmHasher lbid
      (getHighestVerInVB cfg.vssHasher n.vss lbid transID) n.vbbm⟩, ?_,
      ⟨removeEntry_sound kept lbid transID, (removeEntry_cases hs.vbbm lbid _).1⟩,
      .unflagged hhi ?_ flags ?_⟩
    · rw [rollbackBlock]
      simp only [if_pos some_version, set]
    · exact drops_removeEntry hs.vbbm lbid _
    · exact removes_removeEntry kept lbid transID
  · refine ⟨⟨Vss.removeEntry cfg.vssHasher lbid transID n.vss, n.vbbm⟩, ?_,
      ⟨removeEntry_sound hs.vss lbid transID, hs.vbbm⟩,
      .untouched hab rfl (removes_removeEntry hs.vss lbid transID)⟩
    rw [rollbackBlock]
    simp only [none, ne_eq, not_true_eq_false, if_false]

/-- A rollback of several blocks, one after the other. -/
inductive RolledBackAll (transID : Int) : List Int → View → View → Prop where
  | nil {v : View} : RolledBackAll transID [] v v
  | cons {lbid : Int} {lbids : List Int} {v w u : View} (first : RolledBack transID lbid v w)
      (rest : RolledBackAll transID lbids w u) : RolledBackAll transID (lbid :: lbids) v u

lemma vbRollbackBlocks_spec (transID : Int) (lbids : List Int) :
    ∃ t, vbRollbackBlocks cfg transID lbids n = (.ok, t) ∧ NodeSound cfg t ∧
      RolledBackAll transID lbids (view n) (view t) ∧
      lbids.foldlM (rollbackBlock cfg transID) n = .ok t := by
  have hfo : ∃ t, lbids.foldlM (rollbackBlock cfg transID) n = .ok t ∧ NodeSound cfg t ∧
      RolledBackAll transID lbids (view n) (view t) := by
    induction lbids generalizing n with
    | nil => exact ⟨n, rfl, hs, .nil⟩
    | cons lbid lbids ih =>
      obtain ⟨m, ran, kept, first⟩ := rollbackBlock_spec hs transID lbid
      obtain ⟨t, rest, fine, later⟩ := ih kept
      refine ⟨t, ?_, fine, .cons first later⟩
      rw [List.foldlM_cons, ran]
      exact rest
  obtain ⟨t, ran, fine, effect⟩ := hfo
  refine ⟨t, ?_, fine, effect, ran⟩
  rw [vbRollbackBlocks, ran]

/-- The version a writer finds as the current one of a block. -/
def Current (c : Versions) (lbid v : Int) : Prop :=
  (∃ e ∈ c, e.lbid = lbid ∧ e.data.vbFlag = false ∧ e.verID = v) ∨
    (v = 0 ∧ ∀ e ∈ c, e.lbid = lbid → e.data.vbFlag = true)

/-- A successful `writeVBEntry`: a further replica of a copy, or the first copy of the current
version together with the new version. -/
inductive Written (transID lbid : Int) (dbrIdx : Fin 4) (vbOID vbFBO : Nat) (v w : View) :
    Prop where
  | replica {oldVerID : Int} {x : Entry VbbmData} {rest : Copies}
      (current : Current v.versions lbid transID)
      (highest : HighestInVB v.versions lbid transID oldVerID)
      (key : x.lbid = lbid ∧ x.verID = oldVerID) (before : v.copies = x ::ₘ rest)
      (after : w.copies = ⟨lbid, oldVerID, x.data.setReplica dbrIdx vbOID vbFBO⟩ ::ₘ rest)
      (versions : w.versions = v.versions)
  | flagged {oldVerID : Int} {c : Versions}
      (current : Current v.versions lbid oldVerID)
      (newer : oldVerID < transID) (positive : 0 < oldVerID)
      (flags : Flags lbid oldVerID true v.versions c)
      (versions : w.versions = ⟨lbid, transID, ⟨false, true⟩⟩ ::ₘ c) (copies : w.copies =
        ⟨lbid, oldVerID, (default : VbbmData).setReplica dbrIdx vbOID vbFBO⟩ ::ₘ v.copies)
  | started {oldVerID : Int}
      (current : Current v.versions lbid oldVerID) (newer : oldVerID < transID) (old : oldVerID ≤ 0)
      (versions : w.versions = ⟨lbid, transID, ⟨false, true⟩⟩ ::ₘ
        ⟨lbid, oldVerID, ⟨true, false⟩⟩ ::ₘ v.versions)
      (copies : w.copies =
        ⟨lbid, oldVerID, (default : VbbmData).setReplica dbrIdx vbOID vbFBO⟩ ::ₘ v.copies)

lemma addReplica_spec {dbrIdx : Fin 4} {vbOID vbFBO : Nat} {r : ReturnCode × SlaveDBRMNode}
    (hcu : Current (contents n.vss) lbid transID)
    (ran : addReplica cfg lbid (getHighestVerInVB cfg.vssHasher n.vss lbid transID) dbrIdx vbOID
      vbFBO n = some r) : NodeSound cfg r.2 ∧ ((r.1 = .ok ∧
      Written transID lbid dbrIdx vbOID vbFBO (view n) (view r.2)) ∨ (r.1 ≠ .ok ∧ r.2 = n)) := by
  simp only [addReplica, Vbbm.lookup] at ran
  split at ran
  · cases ran
    exact ⟨hs, Or.inr ⟨by simp, rfl⟩⟩
  · cases ran
  rename_i index hf
  cases ran
  split at hf
  · cases hf
  rename_i hna
  obtain ⟨⟨prev, slot⟩, place, he⟩ := Option.map_eq_some_iff.mp (Except.ok.inj hf)
  obtain rfl : slot = index := he
  obtain ⟨bound, hu, hn, hver⟩ := getIndex_mem hs.vbbm.toChained place
  have he : SameChains n.vbbm (putSlot n.vbbm slot { storage n.vbbm slot with
      data := (storage n.vbbm slot).data.setReplica dbrIdx vbOID vbFBO }) :=
    .of_putSlot rfl rfl rfl
  obtain ⟨rest, hb, ha⟩ := he.contents_exchange bound hu
    (fun j ho => by rw [storage_putSlot, if_neg ho])
  refine ⟨⟨hs.vss, he.sound (by simp) hs.vbbm⟩, Or.inl ⟨rfl, ?_⟩⟩
  rcases getHighestVerInVB_spec hs.vss.toChained lbid transID with hhi | ⟨none, -⟩
  · refine .replica hcu hhi ⟨hn, hver⟩ hb (ha.trans ?_) rfl
    rw [storage_putSlot, if_pos rfl, ← hver, ← hn]
    rfl
  · omega

lemma copyOut_spec {oldVerID : Int} (dbrIdx : Fin 4) (vbOID vbFBO : Nat) (real : lbid ≠ -1)
    (hcu : Current (contents n.vss) lbid oldVerID) (newer : oldVerID < transID) :
    ∃ t, copyOut cfg transID lbid oldVerID dbrIdx vbOID vbFBO n = (.ok, t) ∧ NodeSound cfg t ∧
      Written transID lbid dbrIdx vbOID vbFBO (view n) (view t) := by
  obtain ⟨kept, copies, -, -⟩ := Vbbm.insert_spec oldVerID
    ((default : VbbmData).setReplica dbrIdx vbOID vbFBO) false hs.vbbm real
  by_cases hp : 0 < oldVerID
  · have present : ∃ e ∈ contents n.vss, e.lbid = lbid ∧ e.verID = oldVerID := by
      rcases hcu with ⟨e, hm, hn, -, hver⟩ | ⟨zero, -⟩
      · exact ⟨e, hm, hn, hver⟩
      · omega
    obtain ⟨vss, set, fine, flags⟩ := flags_setVBFlag hs.vss true present
    obtain ⟨final, versions, -, -⟩ := Vss.insert_spec transID false true false fine real
    refine ⟨⟨Vss.insert cfg.vssHasher lbid transID false true false vss, Vbbm.insert cfg.vbbmHasher
      lbid oldVerID ((default : VbbmData).setReplica dbrIdx vbOID vbFBO) false n.vbbm⟩, ?_,
      ⟨final, kept⟩, .flagged hcu newer hp flags versions copies⟩
    rw [copyOut, if_pos hp, set]
  · obtain ⟨fine, hb, -, -⟩ := Vss.insert_spec oldVerID true false false hs.vss real
    obtain ⟨final, versions, -, -⟩ := Vss.insert_spec transID false true false fine real
    refine ⟨⟨Vss.insert cfg.vssHasher lbid transID false true false
      (Vss.insert cfg.vssHasher lbid oldVerID true false false n.vss), Vbbm.insert cfg.vbbmHasher
      lbid oldVerID ((default : VbbmData).setReplica dbrIdx vbOID vbFBO) false n.vbbm⟩, ?_,
      ⟨final, kept⟩, .started hcu newer (by omega) ?_ copies⟩
    · rw [copyOut, if_neg hp]
    · exact versions.trans (by rw [hb]; rfl)

lemma writeVBEntry_spec {dbrIdx : Fin 4} {vbOID vbFBO : Nat} {r : ReturnCode × SlaveDBRMNode}
    (real : lbid ≠ -1) (ran : writeVBEntry cfg transID lbid dbrIdx vbOID vbFBO n = some r) :
    NodeSound cfg r.2 ∧ ((r.1 = .ok ∧
      Written transID lbid dbrIdx vbOID vbFBO (view n) (view r.2)) ∨ (r.1 ≠ .ok ∧ r.2 = n)) := by
  have hcu : Current (contents n.vss) lbid (getCurrentVersion cfg.vssHasher n.vss lbid) :=
    getCurrentVersion_spec hs.vss.toChained lbid
  simp only [writeVBEntry] at ran
  split at ran
  case isTrue own =>
    rw [own] at hcu
    exact addReplica_spec hs hcu ran
  case isFalse other =>
    split at ran
    case isTrue older =>
      cases ran
      exact ⟨hs, Or.inr ⟨by simp, rfl⟩⟩
    case isFalse notOlder =>
      have newer : getCurrentVersion cfg.vssHasher n.vss lbid < transID := by omega
      obtain ⟨t, hcp, kept, hwr⟩ := copyOut_spec hs dbrIdx vbOID vbFBO real hcu newer
      rw [hcp] at ran
      cases ran
      exact ⟨kept, Or.inl ⟨rfl, hwr⟩⟩

/-- The copies of several versions go, one after the other. -/
inductive DropsAll : List (Int × Int) → Copies → Copies → Prop where
  | nil {d : Copies} : DropsAll [] d d
  | cons {lbid verID : Int} {keys : List (Int × Int)} {d d' d'' : Copies}
      (first : Drops lbid verID d d') (rest : DropsAll keys d' d'') :
      DropsAll ((lbid, verID) :: keys) d d''

/-- All versions of some blocks go, with the copies of those in the version buffer. -/
def Swept (lbids : List Int) (v w : View) : Prop :=
  w.versions = v.versions.filter (fun e => e.lbid ∉ lbids) ∧
    ∃ gone : List (Entry VssData), (gone : Versions) = v.versions.filter (fun e => e.lbid ∈ lbids) ∧
      DropsAll ((gone.filter fun e => e.data.vbFlag).map fun e => (e.lbid, e.verID))
        v.copies w.copies

omit hs in
lemma dropFlagged_spec {hasher : Int → Int → Nat} (hs : Sound (vbbmLayout hasher) s)
    (gone : List (Entry VssData)) :
    Sound (vbbmLayout hasher) (dropFlagged (Vbbm.removeEntry hasher) gone s) ∧
      DropsAll ((gone.filter fun e => e.data.vbFlag).map fun e => (e.lbid, e.verID))
        (contents s) (contents (dropFlagged (Vbbm.removeEntry hasher) gone s)) := by
  induction gone generalizing s with
  | nil => exact ⟨hs, .nil⟩
  | cons e gone ih =>
    rw [dropFlagged, List.foldl_cons, ← dropFlagged]
    by_cases hfl : e.data.vbFlag = true
    · rw [if_pos hfl, List.filter_cons, if_pos hfl, List.map_cons]
      obtain ⟨kept, rest⟩ := ih (removeEntry_cases hs e.lbid e.verID).1
      exact ⟨kept, .cons (drops_removeEntry hs e.lbid e.verID) rest⟩
    · rw [if_neg hfl, List.filter_cons, if_neg hfl]
      exact ih hs

lemma removeRange_spec (range : LBIDRange) : NodeSound cfg (removeRange cfg n range) ∧
      Swept range.lbids (view n) (view (removeRange cfg n range)) := by
  obtain ⟨kept, versions, gone, members, hdr⟩ := removeEntriesFromDB_spec
    (Vbbm.removeEntry cfg.vbbmHasher) range n.vbbm hs.vss
  obtain ⟨fine, hdro⟩ := dropFlagged_spec hs.vbbm gone
  rw [← hdr] at fine hdro
  exact ⟨⟨kept, fine⟩, versions, gone, members, hdro⟩

/-- The blocks of several ranges are swept, one range after the other. -/
inductive SweptAll : List LBIDRange → View → View → Prop where
  | nil {v : View} : SweptAll [] v v
  | cons {range : LBIDRange} {ranges : List LBIDRange} {v w u : View}
      (first : Swept range.lbids v w) (rest : SweptAll ranges w u) :
      SweptAll (range :: ranges) v u

lemma deleteOID_spec (lbids : List LBIDRange) : NodeSound cfg (deleteOID cfg lbids n).2 ∧
      SweptAll lbids (view n) (view (deleteOID cfg lbids n).2) := by
  have hfo : NodeSound cfg (lbids.foldl (removeRange cfg) n) ∧
      SweptAll lbids (view n) (view (lbids.foldl (removeRange cfg) n)) := by
    induction lbids generalizing n with
    | nil => exact ⟨hs, .nil⟩
    | cons range ranges ih =>
      obtain ⟨kept, first⟩ := removeRange_spec hs range
      obtain ⟨fine, rest⟩ := ih kept
      exact ⟨fine, .cons first rest⟩
  rw [deleteOID]
  split
  case isTrue empty =>
    subst empty
    exact hfo
  case isFalse some_range => exact hfo

omit hs

/-- One copy and its version are aged out; the version a locked block falls back to is not. -/
def AgeStep (v w : View) : Prop :=
  ∃ x ∈ v.copies, ¬ ((∃ e ∈ v.versions, e.lbid = x.lbid ∧ e.data.locked = true) ∧
      RollbackVersion v.versions x.lbid x.verID) ∧
    Removes x.lbid x.verID v.versions w.versions ∧ Drops x.lbid x.verID v.copies w.copies

def Aging.view (a : Aging) : View := ⟨contents a.vss, contents a.vbbm⟩

structure AgingSound (cfg : NodeConfig) (a : Aging) : Prop where
  vss : Sound (vssLayout cfg.vssHasher) a.vss
  vbbm : Sound (vbbmLayout cfg.vbbmHasher) a.vbbm

/-- Neither the room for entries nor the number of files is changed. -/
structure SameRoom (s t : VBBM) : Prop where
  capacity : field t .capacity = field s .capacity
  files : field t .ownCount = field s .ownCount

lemma SameRoom.refl (s : VBBM) : SameRoom s s := ⟨rfl, rfl⟩

lemma SameRoom.trans {t u : VBBM} (first : SameRoom s t) (second : SameRoom t u) : SameRoom s u :=
  ⟨second.capacity.trans first.capacity, second.files.trans first.files⟩

/-- What aging blocks out does to the tables. -/
def Ages (cfg : NodeConfig) (a b : Aging) : Prop := AgingSound cfg b ∧ SameRoom a.vbbm b.vbbm ∧
  Relation.ReflTransGen AgeStep (Aging.view a) (Aging.view b)

lemma ageSlot_spec {a : Aging} (hs : AgingSound cfg a) (repSize dbr firstFBO lastFBO : Nat)
    {i : Nat} (bound : i < field a.vbbm .capacity) :
    Ages cfg a (ageSlot cfg.vbbmHasher cfg.vssHasher repSize dbr firstFBO lastFBO i a) := by
  simp only [ageSlot]
  split
  · exact ⟨hs, .refl _, .refl⟩
  split
  · exact ⟨hs, .refl _, .refl⟩
  split
  case isTrue inside =>
    split
    case isTrue locked => exact ⟨⟨hs.vss, hs.vbbm⟩, .refl _, .refl⟩
    case isFalse free =>
      refine ⟨⟨removeEntry_sound hs.vss _ _, (removeEntry_cases hs.vbbm _ _).1⟩,
        ⟨capacity_removeEntry _ _ _, ownCount_removeEntry _ _ _⟩,
          .single ⟨(storage a.vbbm i).entry, ?_, ?_, ?_, ?_⟩⟩
      · exact mem_contents.mpr ⟨i, bound, inside.1, rfl⟩
      · rintro held
        exact free ((isEntryLocked_iff hs.vss.toChained inside.1).mpr held)
      · exact removes_removeEntry hs.vss _ _
      · exact drops_removeEntry hs.vbbm _ _
  case isFalse => exact ⟨hs, .refl _, .refl⟩

lemma ageRanges_spec {a : Aging} (hs : AgingSound cfg a) (repSize dbr fileSize : Nat)
    (ranges : List VBRange) :
    Ages cfg a (ranges.foldl (ageRange cfg.vbbmHasher cfg.vssHasher repSize dbr fileSize) a) := by
  refine List.foldlRecOn (motive := Ages cfg a) _ _ ⟨hs, .refl _, .refl⟩ fun b before r _ => ?_
  rw [ageRange]
  split
  · exact before
  refine forEach_preserves (Ages cfg a) before ?_
  rintro i c bound ⟨kept, room, path⟩
  obtain ⟨fine, he, step⟩ := ageSlot_spec kept repSize dbr _ _
    (show i < field c.vbbm .capacity by rwa [room.capacity, ← before.2.1.capacity])
  exact ⟨fine, room.trans he, path.trans step⟩

lemma gather_spec (fileIndex fuel blocksLeft : Nat) (s : VBBM) :
    SameChains s (gather fileIndex fuel blocksLeft s).2 ∧
      (∀ f, field (gather fileIndex fuel blocksLeft s).2 f = field s f) ∧
      (∀ i, storage (gather fileIndex fuel blocksLeft s).2 i = storage s i) ∧
      ∀ k, k ≠ fileIndex → files (gather fileIndex fuel blocksLeft s).2 k = files s k := by
  induction fuel generalizing blocksLeft s with
  | zero => exact ⟨SameChains.refl s, fun _ => rfl, fun _ => rfl, fun _ _ => rfl⟩
  | succ fuel ih =>
    simp only [gather]
    split
    · exact ⟨SameChains.refl s, fun _ => rfl, fun _ => rfl, fun _ _ => rfl⟩
    obtain ⟨he, fields, slots, hos⟩ := ih (blocksLeft - (takeRange fileIndex blocksLeft s).1.size)
      (takeRange fileIndex blocksLeft s).2
    refine ⟨SameChains.trans ?_ he, fun f => ?_, fun i => ?_, fun k ho => ?_⟩
    · constructor <;> intros <;> simp [takeRange]
    · rw [fields]
      simp [takeRange]
    · rw [slots]
      simp [takeRange]
    · rw [hos k ho]
      simp [takeRange, ho]

/-- What handing out blocks does: the map may grow and lose copies, and then blocks are aged
out with a record of every write. -/
structure HandedOut (cfg : NodeConfig) (n : SlaveDBRMNode) (wide : VBBM) (t : SlaveDBRMNode) :
    Prop where
  sound : NodeSound cfg t
  widened : Widened cfg.vbbmHasher n.vbbm wide
  vss : Logged n.vss t.vss
  vbbm : Logged wide t.vbbm
  room : SameRoom wide t.vbbm
  aged : Relation.ReflTransGen AgeStep ⟨contents n.vss, contents wide⟩ (view t)

variable (hs : NodeSound cfg n)
include hs

lemma HandedOut.of_widened {wide : VBBM} (hwi : Widened cfg.vbbmHasher n.vbbm wide) :
    HandedOut cfg n wide ⟨n.vss, wide⟩ :=
  ⟨⟨hs.vss, hwi.shrunk.sound⟩, hwi, Logged.refl _, Logged.refl _, .refl _, .refl⟩

lemma handOut_spec (num dbr fileSize : Nat) (hwi : Widened cfg.vbbmHasher n.vbbm s) {aged : Aging}
    (hha : (handOut cfg.vbbmHasher cfg.vssHasher cfg.repSize num dbr fileSize n.vss s).2 = aged) :
    ∃ wide, HandedOut cfg n wide ⟨aged.vss, aged.vbbm⟩ := by
  subst hha
  simp only [handOut]
  have larger := hwi.trans
    (growFor_widened hwi.shrunk.sound num (field s .currentSize + num))
  set wide := growFor cfg.vbbmHasher num (field s .currentSize + num) s
  obtain ⟨he, fields, slots, -⟩ := gather_spec (dbr - 1) num num wide
  have start : AgingSound cfg ⟨false, n.vss, (gather (dbr - 1) num num wide).2⟩ :=
    ⟨hs.vss, he.sound (fields _) larger.shrunk.sound⟩
  obtain ⟨fine, room, path⟩ := ageRanges_spec start cfg.repSize dbr fileSize
    (gather (dbr - 1) num num wide).1
  have hlg : LoggedAging ⟨false, n.vss, (gather (dbr - 1) num num wide).2⟩
      ((gather (dbr - 1) num num wide).1.foldl
        (ageRange cfg.vbbmHasher cfg.vssHasher cfg.repSize dbr fileSize) _) :=
    logged_ageRanges _ _ _ _ _
  have copies : contents (gather (dbr - 1) num num wide).2 = contents wide :=
    contents_congr (fields _) slots
  rw [Aging.view, copies] at path
  exact ⟨wide, ⟨fine.vss, fine.vbbm⟩, larger, hlg.vss, (logged_gather _ _ _ _).trans hlg.vbbm,
    SameRoom.trans ⟨fields _, fields _⟩ room, path⟩

lemma getBlocks_spec (num dbr : Nat) {r : Except BrmTypes.BrmExcept (List VBRange) × VSS × VBBM}
    (ran : getBlocks cfg.vbbmHasher cfg.vssHasher cfg.repSize cfg.fileBlocks num dbr n.vss n.vbbm =
      some r) : ∃ wide, HandedOut cfg n wide ⟨r.2.1, r.2.2⟩ := by
  have added := addVBFileIfNotExists_widened hs.vbbm cfg.fileBlocks dbr
  simp only [getBlocks] at ran
  split at ran
  · cases ran
  split at ran
  · cases ran
    exact ⟨_, .of_widened hs added⟩
  · cases ran
    exact handOut_spec hs num dbr _ added rfl

lemma beginVBCopy_spec {vbOID : BrmTypes.DBRootsStruct} {dbrIndex : Fin 4}
    {ranges : List LBIDRange} {r : Reply × SlaveDBRMNode}
    (ran : beginVBCopy cfg transID vbOID dbrIndex ranges n = some r) :
    ∃ wide, HandedOut cfg n wide r.2 := by
  rw [beginVBCopy] at ran
  split at ran
  · cases ran
    exact ⟨_, .of_widened hs (.refl hs.vbbm)⟩
  split at ran
  · cases ran
  all_goals
    rename_i got
    cases ran
    exact getBlocks_spec hs _ _ got

end SlaveNode
