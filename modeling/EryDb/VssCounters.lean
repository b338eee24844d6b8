import EryDb.VssTable

/-!
# The counters of the version substitution structure

The header counts the used slots and the locked entries. Every operation keeps both counts right
but one: `commit` takes one from the locked entries for each entry of its transaction, also for
an entry that an earlier commit has unlocked.
-/

namespace Vss

open List ImageUndo ImageUndo.Undoable SlotScan HashChains SlotTable

variable {hasher : Int → Nat} {s t : VSS} {lbid verID txnID : Int}

/-- At least the initial size, rounded up to the next increment. -/
def loadCapacity (elementCount : Nat) : Nat :=
  let n := max elementCount storageInitialCount
  if n % storageIncrementCount ≠ 0 then (n / storageIncrementCount + 1) * storageIncrementCount
  else n

def growForLoad (elementCount : Nat) : VSS :=
  clean fun
    | .field .capacity => loadCapacity elementCount
    | .field .numHashBuckets => loadCapacity elementCount / 4
    | .field _ => (0 : Nat)
    | .bucket _ => (none : Option Nat)
    | .slot _ => ⟨-1, 0, default, none⟩
    | .file _ => ()

/-- `count` stands in the header of the file; `entries` are those that could be read. -/
def load (hasher : Int → Nat) (count : Nat) (entries : List (Entry VssData)) : VSS :=
  entries.foldl (fun s e => insert hasher e.lbid e.verID e.data.vbFlag e.data.locked true s)
    (growForLoad count)

inductive Operation where
  | insert (lbid verID : Int) (vbFlag locked : Bool)
  | removeEntry (lbid verID : Int)
  | setVBFlag (lbid verID : Int) (vbFlag : Bool)
  | commit (txnID : Int)
  | removeEntriesFromDB (range : LBIDRange)
  | clear
  | load (count : Nat) (entries : List (Entry VssData))

/-- A flag that is not there to be set throws; an insertion grows a full table. -/
def Operation.run (hasher : Int → Nat) : Operation → VSS → VSS
  | .insert lbid verID vbFlag locked, s => Vss.insert hasher lbid verID vbFlag locked false s
  | .removeEntry lbid verID, s => Vss.removeEntry hasher lbid verID s
  | .setVBFlag lbid verID vbFlag, s => (Vss.setVBFlag hasher lbid verID vbFlag s).getD s
  | .commit txnID, s => Vss.commit txnID s
  | .removeEntriesFromDB range, s => (Vss.removeEntriesFromDB hasher (fun _ _ => id) range s ()).1
  | .clear, _ => initShmseg
  | .load count entries, _ => Vss.load hasher count entries

/-- The LBID -1 marks an unused slot. -/
def Operation.Real : Operation → Prop
  | .insert lbid _ _ _ => lbid ≠ -1
  | .load _ entries => ∀ e ∈ entries, e.lbid ≠ -1
  | _ => True

/-- Besides the counters: each used slot lies once in the chain of its bucket and nothing else
does, and no unused slot lies below the low-water mark. -/
structure Consistent (hasher : Int → Nat) (s : VSS) : Prop extends
  Sound (vssLayout hasher) s, Counted s

lemma initShmseg_consistent : Consistent hasher initShmseg := by
  refine ⟨initShmseg_sound, ?_, ?_⟩ <;> rw [contents_initShmseg] <;> rfl

variable (hc : Consistent hasher s)
include hc

lemma insert_consistent (real : lbid ≠ -1) (verID : Int) (vbFlag locked loading : Bool) :
    Consistent hasher (insert hasher lbid verID vbFlag locked loading s) := by
  obtain ⟨hs, entries, size, own⟩ := insert_spec verID vbFlag locked loading hc.toSound real
  refine ⟨hs, by rw [size, entries, Multiset.card_cons, hc.used], ?_⟩
  rw [own, entries, Multiset.countP_cons, hc.locked]
  split <;> rfl

lemma removeEntry_consistent (lbid verID : Int) :
    Consistent hasher (removeEntry hasher lbid verID s) := by
  refine ⟨removeEntry_sound hc.toSound _ _, ?_⟩
  cases hf : getIndex (vssLayout hasher) s lbid verID with
  | none =>
    rw [removeEntry, hf]
    exact hc.toCounted
  | some place => exact (removeEntry_spec hc.toSound hf).2.1 hc.toCounted

lemma setVBFlag_consistent {vbFlag : Bool} (set : setVBFlag hasher lbid verID vbFlag s = some t) :
    Consistent hasher t := by
  obtain ⟨_, _, rest, -, kept, -, fields, before, after, -⟩ := setVBFlag_spec hc.toSound set
  have locked := hc.locked
  rw [before, Multiset.countP_cons] at locked
  refine ⟨kept, ?_, ?_⟩
  · rw [fields, hc.used, before, after, Multiset.card_cons, Multiset.card_cons]
  · rw [fields, after, Multiset.countP_cons]
    exact locked

lemma removeEntriesFromDB_consistent (range : LBIDRange) :
    Consistent hasher (removeEntriesFromDB hasher (fun _ _ => id) range s ()).1 := by
  refine foldlRecOn (motive := fun r : VSS × Unit => Consistent hasher r.1) _ _ ?_ fun r
    kept lbid _ => ?_
  · have same : SameChains s (recordHeader s) := .of_image rfl
    exact ⟨same.sound rfl hc.toSound, hc.used, hc.locked⟩
  · have swept := sweep_whole (fun e other => if e.data.vbFlag then id other else other) lbid
      kept.toSound r.2
    exact ⟨swept.sound, swept.counted kept.toCounted⟩

omit hc

lemma load_consistent (hasher : Int → Nat) (count : Nat) {entries : List (Entry VssData)}
    (real : ∀ e ∈ entries, e.lbid ≠ -1) : Consistent hasher (load hasher count entries) := by
  refine foldlRecOn (motive := Consistent hasher) _ _ ?_ fun s kept e inside =>
    insert_consistent kept (real e inside) _ _ _ _
  have unused : ∀ i, ¬ usedSlot (growForLoad count) i := fun _ hu => hu rfl
  refine ⟨empty_sound ?_ (fun _ => rfl) unused rfl (Nat.zero_le _), ?_, ?_⟩
  · have large : storageInitialCount ≤ loadCapacity count := by
      rw [loadCapacity]
      split <;> simp only [storageInitialCount, storageIncrementCount] at * <;> omega
    exact Nat.div_pos (le_trans (by decide) large) (by decide)
  all_goals
    rw [empty_contents unused]
    rfl

/-- Every entry of the transaction takes one from the locked entries. -/
lemma ownCount_commit (txnID : Int) (s : VSS) : field (commit txnID s) .ownCount =
    field s .ownCount - (contents s).countP (·.verID = txnID) := by
  have hsc : field (commit txnID s) .ownCount = field s .ownCount -
      Nat.count (fun i => usedSlot s i ∧ (storage s i).verID = txnID) (field s .capacity) := by
    refine (forEach_invariant (fun n t => SameChains s t ∧ field t .ownCount = field s .ownCount -
      Nat.count (fun i => usedSlot s i ∧ (storage s i).verID = txnID) n)
      ⟨SameChains.refl s, by simp⟩ ?_).2
    rintro i t - ⟨he, own⟩
    refine ⟨he.trans (commitStep_spec txnID i t).1.1, ?_⟩
    rw [commitStep, he.lbid, he.verID, Nat.count_succ]
    split
    · rename_i mine
      rw [if_pos (show usedSlot s i ∧ _ from mine), uncountLocked]
      split <;> simp_all <;> omega
    · rename_i mine
      rw [if_neg (show ¬ (usedSlot s i ∧ _) from mine), own, Nat.add_zero]
  rw [hsc, Nat.count_eq_card_filter_range, contents, contentsBelow, Multiset.countP_map,
    ← Finset.filter_val, Finset.filter_filter]
  rfl

/-- A commit that leaves the locked entries counted: no entry of the transaction is unlocked
yet, or no other entry is locked. -/
def Settles (txnID : Int) (c : Versions) : Prop :=
  (∀ e ∈ c, e.verID = txnID → e.data.locked = true) ∨
    ∀ e ∈ c, e.data.locked = true → e.verID = txnID

lemma countP_and_eq {α : Type} (p q : α → Prop) [DecidablePred p] [DecidablePred q]
    (c : Multiset α) : c.countP (fun a => p a ∧ q a) ≤ c.countP q ∧
      (c.countP (fun a => p a ∧ q a) = c.countP q ↔ ∀ a ∈ c, q a → p a) := by
  rw [← Multiset.countP_filter, Multiset.countP_eq_card_filter c (p := q), Multiset.countP_eq_card]
  exact ⟨Multiset.countP_le_card _ _, by simp⟩

lemma commit_consistent_iff (hc : Consistent hasher s) (txnID : Int) :
    Consistent hasher (commit txnID s) ↔ Settles txnID (contents s) := by
  obtain ⟨⟨-, size⟩, entries⟩ := commit_spec txnID s
  have left : (contents (commit txnID s)).countP (·.data.locked = true) +
      (contents s).countP (fun e => e.data.locked = true ∧ e.verID = txnID) =
      (contents s).countP (·.data.locked = true) := by
    rw [entries]
    induction contents s using Multiset.induction_on with
    | empty => rfl
    | cons e c ih =>
      simp only [Multiset.map_cons, Multiset.countP_cons, unlocked]
      by_cases mine : e.verID = txnID <;> simp [mine] <;> omega
  have own := ownCount_commit txnID s
  rw [hc.locked] at own
  have mine := countP_and_eq (·.data.locked = true) (·.verID = txnID) (contents s)
  have held := countP_and_eq (·.verID = txnID) (·.data.locked = true) (contents s)
  simp only [and_comm (a := _ = txnID)] at held
  have counts : Consistent hasher (commit txnID s) ↔ field (commit txnID s) .ownCount =
      (contents (commit txnID s)).countP (·.data.locked = true) :=
    ⟨(·.locked), (⟨commit_sound txnID hc.toSound,
      by rw [size, entries, Multiset.card_map, hc.used], ·⟩)⟩
  rw [counts, Settles, ← mine.2, ← held.2]
  omega

/-- The tables reached by operations all of whose commits settle. -/
inductive Run (hasher : Int → Nat) : VSS → Prop where
  | start : Run hasher initShmseg
  | step {s : VSS} (run : Run hasher s) (op : Operation) (real : op.Real)
      (settles : ∀ txnID, op = .commit txnID → Settles txnID (contents s)) :
      Run hasher (op.run hasher s)

lemma run_consistent (run : Run hasher s) : Consistent hasher s := by
  induction run with
  | start => exact initShmseg_consistent
  | step run op real settles hc =>
    cases op with
    | insert lbid verID vbFlag locked => exact insert_consistent hc real _ _ _ _
    | removeEntry lbid verID => exact removeEntry_consistent hc _ _
    | setVBFlag lbid verID vbFlag =>
      rw [Operation.run]
      cases set : Vss.setVBFlag hasher lbid verID vbFlag _ with
      | none => exact hc
      | some t => exact setVBFlag_consistent hc set
    | commit txnID => exact (commit_consistent_iff hc _).mpr (settles _ rfl)
    | removeEntriesFromDB range => exact removeEntriesFromDB_consistent hc range
    | clear => exact initShmseg_consistent
    | load count entries => exact load_consistent hasher count real

/-- Every table of such a run is consistent; a commit that does not settle breaks the next one. -/
theorem consistent_while_settling (run : Run hasher s) : Consistent hasher s ∧
    ∀ txnID, Consistent hasher (commit txnID s) ↔ Settles txnID (contents s) :=
  ⟨run_consistent run, commit_consistent_iff (run_consistent run)⟩

/-- The insertions of `writeVBEntry` for a block without versions. -/
def written (lbid txnID : Int) (s : VSS) : VSS := insert (fun _ => 0) lbid txnID false true false
  (insert (fun _ => 0) lbid 0 true false false s)

lemma written_run (lbid txnID : Int) (real : lbid ≠ -1) (run : Run (fun _ => 0) s) :
    Run (fun _ => 0) (written lbid txnID s) ∧ contents (written lbid txnID s) =
      ⟨lbid, txnID, ⟨false, true⟩⟩ ::ₘ ⟨lbid, 0, ⟨true, false⟩⟩ ::ₘ contents s := by
  have flagged := insert_spec 0 true false false (run_consistent run).toSound real
  have last := insert_spec txnID false true false flagged.1 real
  exact ⟨.step (.step run (.insert lbid 0 true false) real nofun) (.insert lbid txnID false true)
    real nofun, by rw [written, last.2.1, flagged.2.1]⟩

/-- Transaction 5 has committed, transaction 6 has written another block. -/
def oneCommitted : VSS := written 8 6 (commit 5 (written 7 5 initShmseg))

lemma oneCommitted_run : Run (fun _ => 0) oneCommitted ∧ contents oneCommitted =
    {⟨8, 6, ⟨false, true⟩⟩, ⟨8, 0, ⟨true, false⟩⟩, ⟨7, 5, ⟨false, false⟩⟩,
      ⟨7, 0, ⟨true, false⟩⟩} := by
  obtain ⟨run, entries⟩ := written_run 7 5 (by decide) .start
  rw [contents_initShmseg] at entries
  obtain ⟨later, both⟩ := written_run 8 6 (by decide) (run.step (.commit 5) trivial (by
    rintro _ ⟨⟩
    left
    simp [entries]))
  refine ⟨later, both.trans ?_⟩
  rw [Operation.run, (commit_spec _ _).2, entries]
  rfl

theorem consistent_oneCommitted : Consistent (fun _ => 0) oneCommitted :=
  (consistent_while_settling oneCommitted_run.1).1

/-- The second commit takes the lock of the other transaction from the count. -/
theorem second_commit_miscounts : Run (fun _ => 0) oneCommitted ∧
    ¬ Consistent (fun _ => 0) ((Operation.commit 5).run (fun _ => 0) oneCommitted) := by
  refine ⟨oneCommitted_run.1, fun consistent => ?_⟩
  have settles := (commit_consistent_iff (run_consistent oneCommitted_run.1) 5).mp consistent
  rw [oneCommitted_run.2, Settles] at settles
  revert settles
  decide

end Vss
