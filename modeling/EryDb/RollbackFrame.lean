import EryDb.BlockView
import Mathlib.Data.List.Find

/-!
# What a rollback does to the blocks of other transactions

`vbRollback` looks for the newest version of a block in the version buffer, not for an entry
of the transaction it rolls back. A block the transaction never wrote is therefore changed
as soon as one of its older versions lies in the version buffer. The exact condition under
which such a block is left alone is stated on the state before the call.
-/

namespace SlotTable

open List HashChains

variable {Data File : Type} {layout : Layout} {s : Memory Data File} {lbid verID : Int}

/-- Taking out a slot with another LBID does not change where a search ends. -/
lemma slotOf_removal (hc : Chained layout s) {counted : Bool} {b i : Nat}
    {pre post : List Nat} (bound : b < field s .numHashBuckets)
    (split : chainOf s b = pre ++ i :: post) (ho : (storage s i).lbid ≠ lbid) :
    slotOf layout (discount counted i (unlink pre.getLast? i b s)) lbid verID =
      slotOf layout s lbid verID := by
  obtain ⟨-, chains, -⟩ := unlink_chained counted hc bound split
  set t := discount counted i (unlink pre.getLast? i b s) with ha
  have home : bucketOf layout t lbid verID = bucketOf layout s lbid verID := by
    simp [bucketOf, ha]
  rw [slotOf_eq, slotOf_eq, home, chains _ (bucketOf_lt hc lbid verID)]
  have unmoved : ∀ l : List Nat, i ∉ l → l.find? (fun j => decide ((storage t j).lbid = lbid ∧
      (storage t j).verID = verID)) = l.find? (fun j => decide ((storage s j).lbid = lbid ∧
      (storage s j).verID = verID)) := by
    intro l hab
    refine find?_congr fun j hm => ?_
    have hdif : j ≠ i := fun he => hab (he ▸ hm)
    simp only [ha, unlink_other hdif]
  split
  case isTrue here =>
    have hdi := hc.chains.nodup b bound
    rw [split] at hdi
    have fresh := (nodup_cons.mp (nodup_middle.mp hdi)).1
    rw [unmoved _ fresh, here, split, find?_append, find?_append, find?_cons]
    simp [ho]
  case isFalse elsewhere =>
    refine unmoved _ fun hm => elsewhere ?_
    obtain ⟨-, -, away⟩ := (hc.chains.mem _ (bucketOf_lt hc lbid verID) i).mp hm
    have near := (hc.chains.mem b bound i).mp (by rw [split]; simp)
    exact away.symm.trans near.2.2

end SlotTable

namespace SlaveNode

open ImageUndo ImageUndo.Undoable SlotTable Vss Vbbm

variable {cfg : NodeConfig} {n t : SlaveDBRMNode} {hasher : Int → Nat} {s : VSS}

/-- The flag of the entry a search for a version ends at. -/
def flagOf (hasher : Int → Nat) (s : VSS) (lbid verID : Int) : Option Bool :=
  (slotOf (vssLayout hasher) s lbid verID).map fun i => (storage s i).data.vbFlag

variable {lbid verID : Int}

lemma flagOf_congr {t : VSS} (he : SameChains s t)
    (slots : ∀ i, (storage s i).lbid = lbid → (storage t i).data = (storage s i).data)
    (hc : Chained (vssLayout hasher) s) :
    flagOf hasher t lbid verID = flagOf hasher s lbid verID := by
  have index : slotOf (vssLayout hasher) t lbid verID = slotOf (vssLayout hasher) s lbid verID := by
    rw [slotOf, slotOf, he.getIndex]
  rw [flagOf, flagOf, index]
  refine Option.map_congr fun i hf => ?_
  obtain ⟨-, -, hn, -⟩ := slotOf_mem hc hf
  rw [slots i hn]

variable {l : Int}

lemma keptByRemoval_flagOf {flag : Option Bool} (ho : l ≠ lbid) :
    KeptByRemoval hasher lbid (fun s => flagOf hasher s l verID = flag) := by
  rintro s pre post i hs split hn rfl
  have bound := bucket_lt hs.toChained lbid
  have hdif : (storage s i).lbid ≠ l := by
    rw [hn]
    exact Ne.symm ho
  rw [flagOf, slotOf_removal hs.toChained bound split hdif, flagOf]
  refine Option.map_congr fun j hf => ?_
  obtain ⟨-, -, hk, -⟩ := slotOf_mem hs.toChained hf
  have hap : j ≠ i := by
    rintro rfl
    exact hdif hk
  rw [(unlink_other hap).2.2]

lemma flagOf_removeEntry (hs : Sound (vssLayout hasher) s) {transID : Int} (ho : l ≠ lbid) :
    flagOf hasher (Vss.removeEntry hasher lbid transID s) l verID = flagOf hasher s l verID := by
  cases hf : getIndex (vssLayout hasher) s lbid transID with
  | none => rw [Vss.removeEntry, hf]
  | some place =>
    obtain ⟨prev, index⟩ := place
    obtain ⟨pre, post, split, rfl, hn, -⟩ := getIndex_eq_some hf
    rw [bucket_eq] at split
    have bound := bucket_lt hs.toChained lbid
    have removed := removed_sound hs (storage s index).data.locked bound split
    have first : flagOf hasher (discount (storage s index).data.locked index
        (unlink pre.getLast? index (bucket hasher s lbid) s)) l verID = flagOf hasher s l verID :=
      keptByRemoval_flagOf ho s pre post index hs split hn rfl
    obtain ⟨kept, -⟩ := removed_spec hs (storage s index).data.locked hf
    rw [bucket_eq] at kept
    have hrec : flagOf hasher (discount (storage s index).data.locked index (recordHeader
        (unlink pre.getLast? index (bucket hasher s lbid) s))) l verID =
          flagOf hasher s l verID := by
      rw [← first]
      exact flagOf_congr (sameChains_recordHeader _) (fun i _ => by simp) removed.toChained
    simp only [Vss.removeEntry, hf]
    split
    · exact hrec
    have still : bucket hasher (discount (storage s index).data.locked index (recordHeader
        (unlink pre.getLast? index (bucket hasher s lbid) s))) lbid = bucket hasher s lbid := by
      simp [bucket]
    have keeps := (sweep_whole (fun _ _ => ()) lbid kept ()).keeps
    rw [still] at keeps
    exact keeps _ (keptByRemoval_flagOf ho) hrec

lemma flagOf_setVBFlag (hs : Sound (vssLayout hasher) s) {t : VSS} {oldVerID : Int}
    {vbFlag : Bool} (set : setVBFlag hasher lbid oldVerID vbFlag s = some t) (ho : l ≠ lbid) :
    flagOf hasher t l verID = flagOf hasher s l verID := by
  obtain ⟨_, index, _, hf, -, he, -, -, -, slots⟩ := setVBFlag_spec hs set
  obtain ⟨-, -, hn, -⟩ := getIndex_mem hs.toChained hf
  refine flagOf_congr he (fun i hk => ?_) hs.toChained
  rw [slots, if_neg]
  rintro rfl
  exact ho (hk.symm.trans hn)

/-- A block has the same entries in both tables, found in the same order. -/
structure SameBlock (cfg : NodeConfig) (n t : SlaveDBRMNode) (l : Int) : Prop where
  versions : versionsOf (contents t.vss) l = versionsOf (contents n.vss) l
  copies : copiesOf (contents t.vbbm) l = copiesOf (contents n.vbbm) l
  flags : ∀ v, flagOf cfg.vssHasher t.vss l v = flagOf cfg.vssHasher n.vss l v

lemma SameBlock.refl (n : SlaveDBRMNode) (l : Int) : SameBlock cfg n n l := ⟨rfl, rfl, fun _ => rfl⟩

lemma SameBlock.trans {u : SlaveDBRMNode} (first : SameBlock cfg n t l)
    (second : SameBlock cfg t u l) : SameBlock cfg n u l :=
  ⟨second.versions.trans first.versions, second.copies.trans first.copies,
    fun v => (second.flags v).trans (first.flags v)⟩

/-- A rollback finds nothing to do for the block: the transaction has no version of it, and
no older version lies in the version buffer with a copy or with a flag to clear. -/
structure Spared (cfg : NodeConfig) (n : SlaveDBRMNode) (transID l : Int) : Prop where
  own : ∀ e ∈ contents n.vss, ¬ (e.lbid = l ∧ e.verID = transID)
  old : ∀ v, HighestInVB (contents n.vss) l transID v →
    (∀ x ∈ contents n.vbbm, ¬ (x.lbid = l ∧ x.verID = v)) ∧
      flagOf cfg.vssHasher n.vss l v = some false

lemma Spared.of_same {transID : Int} (he : SameBlock cfg n t l) (hspa : Spared cfg n transID l) :
    Spared cfg t transID l := by
  refine ⟨fun e hi both => ?_, fun v hhi => ?_⟩
  · have hm : e ∈ versionsOf (contents t.vss) l := mem_versionsOf.mpr ⟨hi, both.1⟩
    rw [he.versions] at hm
    exact hspa.own e (mem_versionsOf.mp hm).1 both
  obtain ⟨copies, flag⟩ := hspa.old v (highestInVB_congr he.versions.symm hhi)
  refine ⟨fun x hi both => ?_, (he.flags v).trans flag⟩
  have hm : x ∈ copiesOf (contents t.vbbm) l := mem_copiesOf.mpr ⟨hi, both.1⟩
  rw [he.copies] at hm
  exact copies x (mem_copiesOf.mp hm).1 both

variable {v w : View} {d : Copies}

section Visit

variable {transID lbid l : Int}

variable (hs : NodeSound cfg n)
include hs

lemma rollbackBlock_cases (ran : rollbackBlock cfg transID n lbid = .ok t) :
    RolledBack transID lbid (view n) (view t) := by
  obtain ⟨u, done, -, hrol⟩ := rollbackBlock_spec hs transID lbid
  cases ran.symm.trans done
  exact hrol

lemma rollbackBlock_frame (ran : rollbackBlock cfg transID n lbid = .ok t) (ho : l ≠ lbid) :
    SameBlock cfg n t l := by
  have hrol := rollbackBlock_cases hs ran
  obtain ⟨versions, copies⟩ := hrol.frame ho
  refine ⟨versions, copies, fun v => ?_⟩
  simp only [rollbackBlock] at ran
  split at ran
  · split at ran
    · cases ran
    · rename_i vss set
      cases ran
      exact (flagOf_removeEntry (setVBFlag_sound hs.vss set) ho).trans
        (flagOf_setVBFlag hs.vss set ho)
  · cases ran
    exact flagOf_removeEntry hs.vss ho

lemma highest_of_version (some_version : getHighestVerInVB cfg.vssHasher n.vss l transID ≠ -1) :
    HighestInVB (contents n.vss) l transID (getHighestVerInVB cfg.vssHasher n.vss l transID) :=
  (getHighestVerInVB_spec hs.vss.toChained l transID).resolve_right fun none => some_version none.1

/-- A visit of a spared block does nothing to it. -/
lemma rollbackBlock_spared (hspa : Spared cfg n transID l)
    (ran : rollbackBlock cfg transID n l = .ok t) : SameBlock cfg n t l := by
  simp only [rollbackBlock] at ran
  split at ran
  case isTrue some_version =>
    obtain ⟨copies, flag⟩ := hspa.old _ (highest_of_version hs some_version)
    rw [removeEntry_missing hs.vbbm.toChained copies] at ran
    split at ran
    · cases ran
    rename_i vss set
    cases ran
    obtain ⟨i, hf, hcl⟩ := Option.map_eq_some_iff.mp flag
    obtain ⟨prev, index, rest, place, kept, he, -, hb, ha, slots⟩ := setVBFlag_spec hs.vss set
    obtain rfl : index = i := by simpa [slotOf, place] using hf
    obtain ⟨-, -, hn, hver⟩ := getIndex_mem hs.vss.toChained place
    have entries : contents vss = contents n.vss := by
      rw [ha, hb, Slot.entry, hn, hver, ← hcl]
    rw [← hcl] at slots
    have hab : ∀ e ∈ contents vss, ¬ (e.lbid = l ∧ e.verID = transID) := by
      rw [entries]
      exact hspa.own
    rw [Vss.removeEntry_missing kept.toChained hab]
    refine ⟨by rw [entries], rfl, fun v => flagOf_congr he (fun i _ => ?_) hs.vss.toChained⟩
    rw [slots]
    split
    · subst i
      rfl
    · rfl
  case isFalse =>
    cases ran
    rw [Vss.removeEntry_missing hs.vss.toChained hspa.own]
    exact SameBlock.refl _ l

omit hs

/-- How many entries, flagged entries and copies a block has. -/
def weight (v : View) (l : Int) : Nat := (versionsOf v.versions l).card +
    ((versionsOf v.versions l).filter fun e => e.data.vbFlag = true).card +
    (copiesOf v.copies l).card

lemma weight_mono (versions : w.versions ≤ v.versions) (copies : w.copies ≤ v.copies) :
    weight w l ≤ weight v l ∧ ((versionsOf w.versions l).card < (versionsOf v.versions l).card ∨
      (copiesOf w.copies l).card < (copiesOf v.copies l).card → weight w l < weight v l) := by
  have hfe : versionsOf w.versions l ≤ versionsOf v.versions l :=
    Multiset.filter_le_filter _ versions
  have first := Multiset.card_le_card hfe
  have second := Multiset.card_le_card
    (Multiset.filter_le_filter (fun e : Entry VssData => e.data.vbFlag = true) hfe)
  have third : (copiesOf w.copies l).card ≤ (copiesOf v.copies l).card :=
    Multiset.card_le_card (Multiset.filter_le_filter _ copies)
  simp only [weight]
  omega

/-- Clearing a flag does not add weight. -/
lemma weight_flags {c c' : Versions} (flags : Flags lbid verID false c c') :
    weight ⟨c', d⟩ l ≤ weight ⟨c, d⟩ l := by
  by_cases hh : l = lbid
  · subst hh
    obtain ⟨e, rest, ⟨hn, hver⟩, rfl, rfl⟩ := flags
    simp only [weight, versionsOf_cons_eq hn, versionsOf_cons_eq rfl, Multiset.card_cons]
    rw [Multiset.filter_cons_of_neg _ (by simp)]
    have := Multiset.card_le_card (Multiset.filter_le_filter
      (fun e : Entry VssData => e.data.vbFlag = true) (Multiset.le_cons_self (versionsOf rest l) e))
    omega
  · simp only [weight, flags.frame hh, le_refl]

lemma rolledBack_weight_le (hrol : RolledBack transID lbid v w) : weight w l ≤ weight v l := by
  cases hrol with
  | @unflagged _ c highest hdr flags removes =>
    have first : weight ⟨c, v.copies⟩ l ≤ weight v l := weight_flags flags
    exact (weight_mono (v := ⟨c, v.copies⟩) removes.le hdr.le).1.trans first
  | untouched none copies removes => exact (weight_mono removes.le copies.le).1

lemma removes_card_lt {c c' : Versions} (hrem : Removes l verID c c')
    (present : ∃ e ∈ c, e.lbid = l ∧ e.verID = verID) :
    (versionsOf c' l).card < (versionsOf c l).card := by
  rcases hrem with ⟨-, missing⟩ | ⟨e, rest, ⟨hn, -⟩, rfl, rfl⟩
  · obtain ⟨e, hi, both⟩ := present
    exact absurd both (missing e hi)
  · have hfe : (versionsOf (collected l rest) l).card ≤ (versionsOf rest l).card :=
      Multiset.card_le_card (Multiset.filter_le_filter _ (collected_le l rest))
    rw [versionsOf_cons_eq hn, Multiset.card_cons]
    omega

lemma drops_card_lt {d' : Copies} (hdr : Drops l verID d d')
    (present : ∃ x ∈ d, x.lbid = l ∧ x.verID = verID) :
    (copiesOf d' l).card < (copiesOf d l).card := by
  rcases hdr with ⟨-, missing⟩ | ⟨x, ⟨hn, -⟩, rfl⟩
  · obtain ⟨x, hi, both⟩ := present
    exact absurd both (missing x hi)
  · rw [copiesOf_cons_eq hn, Multiset.card_cons]
    omega

/-- Clearing a flag that was set takes weight from the block. -/
lemma weight_flags_lt {rest : Versions} {e : Entry VssData} (hn : e.lbid = l)
    (hfl : e.data.vbFlag = true) :
    weight ⟨⟨l, verID, ⟨false, e.data.locked⟩⟩ ::ₘ rest, d⟩ l < weight ⟨e ::ₘ rest, d⟩ l := by
  simp only [weight, versionsOf_cons_eq hn, versionsOf_cons_eq rfl, Multiset.card_cons]
  have counted : ((e ::ₘ versionsOf rest l).filter (fun e => e.data.vbFlag = true)).card =
      ((versionsOf rest l).filter (fun e => e.data.vbFlag = true)).card + 1 := by
    rw [Multiset.filter_cons_of_pos (p := fun e : Entry VssData => e.data.vbFlag = true) _ hfl,
      Multiset.card_cons]
  rw [Multiset.filter_cons_of_neg _ (by simp), counted]
  omega

/-- A visit of a block the transaction has a version of takes that version. -/
lemma rolledBack_own_lt (hrol : RolledBack transID l v w)
    (present : ∃ e ∈ v.versions, e.lbid = l ∧ e.verID = transID) : weight w l < weight v l := by
  cases hrol with
  | @unflagged _ c highest hdr flags removes =>
    have taken := removes_card_lt removes (flags.present present)
    exact ((weight_mono (v := ⟨c, v.copies⟩) removes.le hdr.le).2 (Or.inl taken)).trans_le
      (weight_flags flags)
  | untouched none copies removes =>
    exact (weight_mono removes.le copies.le).2 (Or.inl (removes_card_lt removes present))

/-- A visit of a block that is not spared takes something from it. -/
lemma rollbackBlock_weight_lt (hs : NodeSound cfg n) (hex : ¬ Spared cfg n transID l)
    (ran : rollbackBlock cfg transID n l = .ok t) : weight (view t) l < weight (view n) l := by
  have hrol := rollbackBlock_cases hs ran
  by_cases own : ∃ e ∈ contents n.vss, e.lbid = l ∧ e.verID = transID
  · exact rolledBack_own_lt hrol own
  have some_version : getHighestVerInVB cfg.vssHasher n.vss l transID ≠ -1 := by
    intro none
    refine hex ⟨fun e hi both => own ⟨e, hi, both⟩, fun v hhi => ?_⟩
    have hna := hhi.bounds
    rcases getHighestVerInVB_spec hs.vss.toChained l transID with hf | ⟨-, hab⟩
    · have := hf.unique hhi
      omega
    · obtain ⟨e, hi, hn, hfl, rfl⟩ := hhi.inside
      exact absurd hna (hab e hi hn hfl)
  simp only [rollbackBlock, if_pos some_version] at ran
  split at ran
  · cases ran
  rename_i vss set
  cases ran
  obtain ⟨prev, index, rest, hf, kept, -, -, hb, ha, -⟩ := setVBFlag_spec hs.vss set
  obtain ⟨-, -, key⟩ := getIndex_mem hs.vss.toChained hf
  have hdr := drops_removeEntry hs.vbbm l (getHighestVerInVB cfg.vssHasher n.vss l transID)
  have hrem := removes_removeEntry kept l transID
  have lighter := weight_mono (l := l) (v := ⟨contents vss, contents n.vbbm⟩) (w := ⟨_, _⟩)
    hrem.le hdr.le
  by_cases hcp : ∃ x ∈ contents n.vbbm, x.lbid = l ∧
      x.verID = getHighestVerInVB cfg.vssHasher n.vss l transID
  · exact (lighter.2 (Or.inr (drops_card_lt hdr hcp))).trans_le
      (weight_flags ⟨_, rest, key, hb, ha⟩)
  have hfl : (storage n.vss index).data.vbFlag = true := by
    by_contra hunf
    refine hex ⟨fun e hi both => own ⟨e, hi, both⟩, ?_⟩
    intro v hhi
    obtain rfl := (highest_of_version hs some_version).unique hhi
    refine ⟨fun x hi both => hcp ⟨x, hi, both⟩, ?_⟩
    simpa [flagOf, slotOf, hf] using hunf
  refine lighter.1.trans_lt ?_
  rw [view, hb, ha]
  exact weight_flags_lt (e := ⟨_, _, (storage n.vss index).data⟩) key.1 hfl

end Visit

variable {lbids : List Int}

section Run

variable {transID l : Int}

lemma rollbackFold_spared (hs : NodeSound cfg n) (hspa : l ∈ lbids → Spared cfg n transID l)
    (ran : lbids.foldlM (rollbackBlock cfg transID) n = .ok t) : SameBlock cfg n t l := by
  induction lbids generalizing n with
  | nil =>
    obtain rfl := Except.ok.inj ran
    exact SameBlock.refl n l
  | cons lbid lbids ih =>
    obtain ⟨m, first, kept, -⟩ := rollbackBlock_spec hs transID lbid
    rw [List.foldlM_cons, first] at ran
    have he : SameBlock cfg n m l := by
      by_cases hh : l = lbid
      · subst hh
        exact rollbackBlock_spared hs (hspa List.mem_cons_self) first
      · exact rollbackBlock_frame hs first hh
    refine he.trans (ih kept (fun later => ?_) ran)
    exact (hspa (List.mem_cons_of_mem lbid later)).of_same he

lemma rollbackFold_weight_le (hs : NodeSound cfg n)
    (ran : lbids.foldlM (rollbackBlock cfg transID) n = .ok t) :
    weight (view t) l ≤ weight (view n) l := by
  induction lbids generalizing n with
  | nil =>
    cases ran
    exact le_rfl
  | cons lbid lbids ih =>
    obtain ⟨m, first, kept, hrol⟩ := rollbackBlock_spec hs transID lbid
    rw [List.foldlM_cons, first] at ran
    exact (ih kept ran).trans (rolledBack_weight_le hrol)

/-- What the first visit takes from a block never comes back. -/
lemma rollbackFold_weight_lt (hs : NodeSound cfg n) (visited : l ∈ lbids)
    (hex : ¬ Spared cfg n transID l) (ran : lbids.foldlM (rollbackBlock cfg transID) n = .ok t) :
    weight (view t) l < weight (view n) l := by
  induction lbids generalizing n with
  | nil => cases visited
  | cons lbid lbids ih =>
    obtain ⟨m, once, kept, hrol⟩ := rollbackBlock_spec hs transID lbid
    rw [List.foldlM_cons, once] at ran
    by_cases hh : l = lbid
    · subst hh
      exact (rollbackFold_weight_le kept ran).trans_lt (rollbackBlock_weight_lt hs hex once)
    have he := rollbackBlock_frame hs once hh
    have still : ¬ Spared cfg m transID l := by
      intro hspa
      refine hex (hspa.of_same ⟨he.versions.symm, he.copies.symm, ?_⟩)
      exact fun v => (he.flags v).symm
    have later : l ∈ lbids := (List.mem_cons.mp visited).resolve_left hh
    exact (ih kept later still ran).trans_le (rolledBack_weight_le hrol)

end Run

/-- A rollback leaves the blocks the transaction holds no lock on alone exactly when it finds
nothing to do for those of them that it visits. -/
theorem vbRollback_keeps_others_iff (reachable : Reachable cfg n) (transID : Int)
    (ranges : List LBIDRange) : ∃ t, vbRollback cfg transID ranges n = (.ok, t) ∧
      ((∀ l, ¬ LockedBy n transID l →
        versionsOf (contents t.vss) l = versionsOf (contents n.vss) l ∧
          copiesOf (contents t.vbbm) l = copiesOf (contents n.vbbm) l) ↔
        ∀ l ∈ ranges.flatMap LBIDRange.lbids, ¬ LockedBy n transID l →
          Spared cfg n transID l) := by
  have sound := reachable_sound reachable
  obtain ⟨t, ran, -, -, folded⟩ :=
    vbRollbackBlocks_spec sound transID (ranges.flatMap LBIDRange.lbids)
  refine ⟨t, ran, ?_⟩
  constructor
  · intro unchanged l visited free
    by_contra exposed
    obtain ⟨versions, copies⟩ := unchanged l free
    have lost := rollbackFold_weight_lt sound visited exposed folded
    simp only [weight, view, versions, copies, lt_irrefl] at lost
  · intro spared l free
    have same := rollbackFold_spared sound (fun visited => spared l visited free) folded
    exact ⟨same.versions, same.copies⟩

/-- Transaction 5 writes block 7 and commits, and transaction 7 writes block 8. A rollback of
transaction 7 over blocks 8 and 9 takes its own version and leaves block 7 alone. -/
theorem vbRollback_keeps_committed :
    ∃ n t, [Command.writeVBEntry 5 7 0 1 0, .vbCommit 5, .writeVBEntry 7 8 0 1 1].foldlM
        (runConfirmed exampleConfig) initial = some n ∧
      vbRollback exampleConfig 7 [⟨8, 2⟩] n = (.ok, t) ∧
      contents n.vss = {⟨7, 5, ⟨false, false⟩⟩, ⟨7, 0, ⟨true, false⟩⟩, ⟨8, 0, ⟨true, false⟩⟩,
        ⟨8, 7, ⟨false, true⟩⟩} ∧
      ∀ l, ¬ LockedBy n 7 l → versionsOf (contents t.vss) l = versionsOf (contents n.vss) l ∧
        copiesOf (contents t.vbbm) l = copiesOf (contents n.vbbm) l := by
  obtain ⟨n, run, reachable, held⟩ : ∃ n, [Command.writeVBEntry 5 7 0 1 0, .vbCommit 5,
      .writeVBEntry 7 8 0 1 1].foldlM (runConfirmed exampleConfig) initial = some n ∧
      Reachable exampleConfig n ∧ contents n.vss = {⟨7, 5, ⟨false, false⟩⟩,
        ⟨7, 0, ⟨true, false⟩⟩, ⟨8, 0, ⟨true, false⟩⟩, ⟨8, 7, ⟨false, true⟩⟩} :=
    exists_run 4 (fun n => Lists 4 n.vss _) (by simp [Command.real]) (by decide +kernel)
      fun _ reachable shown => ⟨reachable, shown.contents (reachable_sound reachable).vss⟩
  obtain ⟨t, ran, kept⟩ := vbRollback_keeps_others_iff reachable 7 [⟨8, 2⟩]
  refine ⟨n, t, run, ran, held, kept.mpr fun l visited free => ?_⟩
  have visited : l ∈ [(8 : Int), 9] := visited
  obtain rfl | rfl : l = 8 ∨ l = 9 := by simpa using visited
  · exact absurd ⟨⟨8, 7, ⟨false, true⟩⟩, by simp [held]⟩ free
  -- Block 9 has no version at all.
  · have absent : ∀ e ∈ contents n.vss, e.lbid ≠ 9 := by simp [held]
    refine ⟨fun e inside own => absent e inside own.1, fun v highest => ?_⟩
    obtain ⟨e, inside, named, -⟩ := highest.inside
    exact absurd named (absent e inside)

/-- Transaction 5 writes block 7 and commits; a rollback of transaction 7, which never wrote
the block, takes the copy of its version 0. -/
theorem vbRollback_drops_committed_copy :
    ∃ n t, [Command.writeVBEntry 5 7 0 1 0, .vbCommit 5].foldlM (runConfirmed exampleConfig)
        initial = some n ∧ Reachable exampleConfig n ∧
      vbRollback exampleConfig 7 [⟨7, 1⟩] n = (.ok, t) ∧ ¬ LockedBy n 7 7 ∧
      copiesOf (contents n.vbbm) 7 = {⟨7, 0, (default : VbbmData).setReplica 0 1 0⟩} ∧
      copiesOf (contents t.vbbm) 7 = 0 := by
  obtain ⟨n, run, reachable, held, kept, emptied⟩ := exampleRun
  obtain ⟨t, ran, sound, -⟩ := vbRollbackBlocks_spec (reachable_sound reachable) 7 [7]
  have rolled : vbRollback exampleConfig 7 [⟨7, 1⟩] n = (.ok, t) := ran
  rw [rolled] at emptied
  refine ⟨n, t, run, reachable, rolled, ?_, by rw [kept]; rfl, ?_⟩
  · rintro ⟨e, inside, -, version, -⟩
    rw [held] at inside
    simp only [Multiset.insert_eq_cons, Multiset.mem_cons, Multiset.mem_singleton] at inside
    rcases inside with rfl | rfl <;> simp at version
  · rw [emptied.contents sound.vbbm]
    rfl

end SlaveNode
