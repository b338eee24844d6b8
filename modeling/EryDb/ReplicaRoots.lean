import EryDb.DictRollback
import EryDb.ExtentLayout

/-!
# The replica DBRoots of a segment file

Every extent carries the DBRoots of all replicas of its segment file. A creation copies the array
it was asked for, except `createDictStoreExtent` behind another extent of the file: it copies the
first DBRoot only, and the slot it takes keeps the others of the extent that was there before.
-/

namespace ReplicaRoots

open List BrmTypes ExtentMap ExtentCreation ExtentUpdates ExtentCalls LbidTiling LbidSpace
  ExtentUndo LiveExtents
open ExtentLayout (SameFile Deletes run_kept oneFile)
open DictRollback (reusedSlot lastInFile createDictStoreExtent_ok lastInFile_eq_some twoReplicas
  oneReplica)

/-- All extents of a segment file carry the same DBRoots. -/
def RootsAgree (s : Map) : Prop :=
  ∀ i j e e', live s i = some e → live s j = some e' → SameFile e e' → e.dbRoots = e'.dbRoots

/-- The calls the runs are made of: creations, deletions and rollbacks. -/
def Listed : Call → Prop
  | .createColumnExtentDBroot .. | .createColumnExtentExactFile .. => True
  | .createStripeColumnExtents .. | .createDictStoreExtent .. => True
  | c => Deletes c

/-- The DBRoots each segment file of an object is requested with. -/
abbrev FileRoots := Int → Nat → Nat → DBRootsStruct

section Requests

variable (cfg : Config) (roots : FileRoots)

/-- The columns of a stripe are created one after the other. -/
def RequestsStripe (dbRoot : DBRootsStruct) :
    Nat → List CreateStripeColumnExtentsArgIn → Map → Prop
  | _, [], _ => True
  | partitionNum, col :: cols, s => ∀ c t,
      createColumnExtentDBroot cfg col.oid col.width dbRoot col.colDataType partitionNum s =
        (.ok c, t) → roots col.oid c.partitionNum c.segmentNum = dbRoot ∧
          RequestsStripe dbRoot c.partitionNum cols t

/-- A call that adds an extent to a segment file asks for the DBRoots of the file. -/
def Requests (s : Map) : Call → Prop
  | .createColumnExtentDBroot oid colWidth dbRoot colDataType partitionNum => ∀ c t,
    createColumnExtentDBroot cfg oid colWidth dbRoot colDataType partitionNum s = (.ok c, t) →
      roots oid c.partitionNum c.segmentNum = dbRoot
  | .createColumnExtentExactFile oid _ dbRoot partitionNum segmentNum _ =>
    roots oid partitionNum segmentNum = dbRoot
  | .createStripeColumnExtents cols dbRoot partitionNum =>
    RequestsStripe cfg roots dbRoot partitionNum cols s
  | .createDictStoreExtent oid dbRoot partitionNum segmentNum =>
    roots oid partitionNum segmentNum = dbRoot
  | _ => True

/-- The maps successful calls lead to when every segment file is always requested with the same
DBRoots and every call meets a condition on the table it starts from. -/
inductive Run (condition : Map → Call → Prop) : Map → Prop where
  | fresh : Run condition ExtentMap.fresh
  | step {s : Map} (c : Call) (before : Run condition s) (listed : Listed c)
      (widths : c.widthsValid) (requests : Requests cfg roots s c) (meets : condition s c)
      (success : succeeds (c.run cfg s).1 = true) : Run condition (c.run cfg s).2.confirmChanges

end Requests

/-- A dictionary extent behind another one takes a slot that holds the other DBRoots of the
file. -/
def TakesRightSlot (s : Map) : Call → Prop
  | .createDictStoreExtent oid dbRoot partitionNum segmentNum =>
    ∀ last, lastInFile oid partitionNum segmentNum s = some last →
      (reusedSlot s).dbRoots.set 0 (dbRoot.get 0) = dbRoot
  | _ => True

/-- An extent is on the DBRoots its segment file is requested with. -/
def OnFile (roots : FileRoots) (e : EMEntry) : Prop :=
  e.dbRoots = roots e.fileID e.partitionNum e.segmentNum

structure OnRoots (roots : FileRoots) (s : Map) : Prop where
  valid : Valid s
  right : ∀ i e, live s i = some e → OnFile roots e

section Calls

variable {cfg : Config} {roots : FileRoots} {s t : Map} {oid : Int} {dbRoot : DBRootsStruct}
  {colWidth partitionNum : Nat} {colDataType : ColDataType}

variable (on : OnRoots roots s)
include on

lemma OnRoots.shrink (hv : Valid t)
    (kept : ∀ i e', live t i = some e' → ∃ e, live s i = some e ∧ Moved e e') :
    OnRoots roots t := by
  refine ⟨hv, fun i e' hh => ?_⟩
  obtain ⟨e, hb, hmo⟩ := kept i e' hh
  rw [OnFile, hmo]
  exact on.right i e hb

lemma allocate_onRoots {size : Nat} {entry : Map → InlineLBIDRange → EMEntry} (hp : size ≠ 0)
    (hsm : size < 2 ^ 22) (range : ∀ s r, (entry s r).range = r)
    (right : ∀ m lbid t, ReadyFor s m →
      allocateExtent size entry s = (.ok (lbid, entry m ⟨lbid, size⟩), t) →
        OnFile roots (entry m ⟨lbid, size⟩)) : OnRoots roots (allocateExtent size entry s).2 := by
  have hv := allocateExtent_valid on.valid hp hsm range
  cases answer : allocateExtent size entry s with
  | mk result t =>
    rw [answer] at hv
    cases result with
    | error e =>
      refine on.shrink hv fun i e' hh => ⟨e', ?_, rfl⟩
      rwa [allocateExtent_error on.valid answer] at hh
    | ok made =>
      obtain ⟨lbid, e⟩ := made
      obtain ⟨m, i, ready, -, -, rfl, lives⟩ := allocateExtent_ok on.valid hp hsm range answer
      exact ⟨hv, SlotScan.forall_added lives (right m lbid t ready answer) on.right⟩

lemma createColumnExtentDBroot_onRoots (isWidth : colWidth ∈ columnWidths)
    (asked : ∀ c t, createColumnExtentDBroot cfg oid colWidth dbRoot colDataType partitionNum s =
      (.ok c, t) → roots oid c.partitionNum c.segmentNum = dbRoot) :
    OnRoots roots (createColumnExtentDBroot cfg oid colWidth dbRoot colDataType partitionNum
      s).2 := by
  rw [createColumnExtentDBroot, created_map]
  refine allocate_onRoots on (extentSize_positive isWidth) (extentSize_small _) (fun _ _ => rfl)
    fun m lbid t _ answer => ?_
  have right := asked _ t (congrArg (created colWidth) answer)
  exact right.symm

/-- Behind the last extent of a file the first DBRoot is that of the file, and the slot has the
others. -/
lemma createDictStoreExtent_onRoots {segmentNum : Nat}
    (asked : roots oid partitionNum segmentNum = dbRoot)
    (slot : TakesRightSlot s (.createDictStoreExtent oid dbRoot partitionNum segmentNum)) :
    OnRoots roots (createDictStoreExtent oid dbRoot partitionNum segmentNum s).2 := by
  rw [createDictStoreExtent, created_map]
  refine allocate_onRoots on (by decide) (by decide) (fun _ _ => rfl) fun m lbid t ready _ => ?_
  have same : (emptyEMEntry m).elim zeroEntry (fExtentMap m) = reusedSlot s := by
    rw [reusedSlot, ready.emptyEMEntry_eq, funext ready.extents]
  rw [ready.lastExtent_eq, same]
  cases hf : lastInFile oid partitionNum segmentNum s with
  | none =>
    rw [lastInFile] at hf
    rw [hf]
    exact asked.symm
  | some last =>
    obtain ⟨⟨object, hpt, hsg⟩, ⟨l, hh⟩, -⟩ := lastInFile_eq_some on.valid hf
    have first := on.right l last hh
    rw [OnFile, object, hpt, hsg, asked] at first
    have others := slot last hf
    rw [lastInFile] at hf
    rw [hf, OnFile]
    simp only [dictEntry, Option.elim_some, first, others, hpt, hsg, asked]

lemma run_onRoots {c : Call} (listed : Listed c) (widths : c.widthsValid)
    (asked : Requests cfg roots s c) (slot : TakesRightSlot s c) :
    OnRoots roots (c.run cfg s).2 := by
  have hv : Valid (c.run cfg s).2 := run_valid c on.valid widths
  cases c with
  | createColumnExtentDBroot =>
    simp only [Call.run, discard_map]
    exact createColumnExtentDBroot_onRoots on widths asked
  | createColumnExtentExactFile =>
    simp only [Call.run, discard_map, createColumnExtentExactFile, created_map]
    exact allocate_onRoots on (extentSize_positive widths) (extentSize_small _) (fun _ _ => rfl)
      fun _ _ _ _ _ => asked.symm
  | createStripeColumnExtents cols dbRoot =>
    simp only [Call.run, discard_map]
    refine createStripeFrom_rule cfg (P := OnRoots roots)
      (Q := fun n cols s => (∀ col ∈ cols, col.width ∈ columnWidths) ∧
        RequestsStripe cfg roots dbRoot n cols s) (fun n col cols s on needs => ?_) on
          ⟨widths, asked⟩
    obtain ⟨isWidth, widths⟩ := forall_mem_cons.mp needs.1
    exact ⟨createColumnExtentDBroot_onRoots on isWidth fun c t made => (needs.2 c t made).1,
      fun c t made => ⟨widths, (needs.2 c t made).2⟩⟩
  | createDictStoreExtent =>
    simp only [Call.run, discard_map]
    exact createDictStoreExtent_onRoots on asked slot
  | _ => exact on.shrink hv fun i e' left => run_kept left listed

omit on

lemma run_all (run : Run cfg roots TakesRightSlot s) : OnRoots roots s := by
  induction run with
  | fresh => exact ⟨fresh_valid, by simp [live_fresh]⟩
  | step c _ listed widths asked slot _ ih =>
    exact (run_onRoots ih listed widths asked slot).shrink
      (confirmChanges_valid (run_valid c ih.valid widths)) fun i e hh => ⟨e, hh, rfl⟩

/-- In every run whose dictionary creations take right slots, the extents of a segment file carry
the same DBRoots. -/
theorem roots_agree (run : Run cfg roots TakesRightSlot s) : RootsAgree s := by
  rintro i j e e' here there ⟨object, part, seg⟩
  have on := run_all run
  have first := on.right i e here
  rw [OnFile, object, part, seg] at first
  exact first.trans (on.right j e' there).symm

end Calls

/-- An extent of the dictionary store 3001 in its first segment file. -/
def storeCall (dbRoot : DBRootsStruct) : Call := .createDictStoreExtent 3001 dbRoot 0 0

def oneStore (dbRoot : DBRootsStruct) : Map :=
  ((storeCall dbRoot).run oneFile fresh).2.confirmChanges

def twoStores (dbRoot : DBRootsStruct) : Map :=
  ((storeCall dbRoot).run oneFile (oneStore dbRoot)).2.confirmChanges

/-- With one replica an unused slot is as good as any. -/
theorem roots_agree_oneReplica : RootsAgree (twoStores oneReplica) := by
  have once : Run oneFile (fun _ _ _ => oneReplica) TakesRightSlot (oneStore oneReplica) :=
    .step (storeCall oneReplica) .fresh trivial trivial rfl (fun _ _ => by decide +kernel)
      (by decide +kernel)
  exact roots_agree (.step (storeCall oneReplica) once trivial trivial rfl
    (fun _ _ => by decide +kernel) (by decide +kernel))

/-- With two replicas the second extent of the file has lost DBRoot 2. -/
theorem second_root_lost : Run oneFile (fun _ _ _ => twoReplicas) (fun _ _ => True)
    (twoStores twoReplicas) ∧ ¬ RootsAgree (twoStores twoReplicas) := by
  constructor
  · exact .step (storeCall twoReplicas)
      (.step (storeCall twoReplicas) .fresh trivial trivial rfl trivial (by decide +kernel))
      trivial trivial rfl trivial (by decide +kernel)
  have entries : (live (twoStores twoReplicas) 0).map (fun e => ((e.fileID, e.partitionNum,
        e.segmentNum), e.dbRoots)) = some ((3001, 0, 0), twoReplicas) ∧
      (live (twoStores twoReplicas) 1).map (fun e => ((e.fileID, e.partitionNum,
        e.segmentNum), e.dbRoots)) = some ((3001, 0, 0), oneReplica) := by decide +kernel
  intro agree
  obtain ⟨e, here, shown⟩ := Option.map_eq_some_iff.mp entries.1
  obtain ⟨e', there, shown'⟩ := Option.map_eq_some_iff.mp entries.2
  simp only [Prod.mk.injEq] at shown shown'
  have same := agree 0 1 e e' here there (by simp [SameFile, shown, shown'])
  rw [shown.2, shown'.2] at same
  exact absurd same (by decide)

end ReplicaRoots
