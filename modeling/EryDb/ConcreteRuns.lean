import EryDb.NodeRuns

/-!
# Runs on given inputs

An insertion searches the slots of a table, and a commitment and the aging of blocks visit them
all; the tables have 100000 slots and more. In a table with few entries nothing happens behind
the first unused slots: `runBelow` stops there, so that a run can be evaluated, and answers
what the node answers.
-/

namespace SlotTable

open SlotScan

variable {Data File : Type} {layout : Layout} {s : Memory Data File} {k : Nat}

/-- No slot from `k` on is used. -/
structure UnusedFrom (k slots : Nat) (s : Memory Data File) : Prop where
  capacity : field s .capacity = slots
  below : k ≤ slots
  unused : ∀ i, k ≤ i → i < slots → ¬ usedSlot s i

/-- The first `k` slots hold as many entries as the table counts. -/
def fitsBelow (k : Nat) (s : Memory Data File) : Bool :=
  decide (k ≤ field s .capacity ∧ field s .currentSize ≤ Nat.count (usedSlot s) k)

lemma unusedFrom_of_fits (hs : Sound layout s) (fits : fitsBelow k s = true) :
    UnusedFrom k (field s .capacity) s := by
  obtain ⟨below, full⟩ := of_decide_eq_true fits
  refine ⟨rfl, below, fun i behind bound used => ?_⟩
  have := hs.count
  have := Nat.count_monotone (usedSlot s) behind
  have := Nat.count_strict_mono used bound
  omega

lemma contents_of_fits (hs : Sound layout s) (fits : fitsBelow k s = true) :
    contents s = contentsBelow s k := by
  have free := unusedFrom_of_fits hs fits
  rw [contents, contentsBelow, contentsBelow]
  congr 2
  ext i
  simp only [Finset.mem_filter, Finset.mem_range]
  constructor
  · rintro ⟨bound, used⟩
    exact ⟨not_le.mp fun behind => free.unused i behind bound used, used⟩
  · rintro ⟨bound, used⟩
    exact ⟨bound.trans_le free.below, used⟩

/-- The first `k` slots hold the given entries, and the table counts no others. -/
def Lists (k : Nat) (s : Memory Data File) (entries : Multiset (Entry Data)) : Prop :=
  fitsBelow k s = true ∧ contentsBelow s k = entries

instance [DecidableEq Data] (entries : Multiset (Entry Data)) : Decidable (Lists k s entries) :=
  inferInstanceAs (Decidable (_ ∧ _))

lemma Lists.contents {entries : Multiset (Entry Data)} (shown : Lists k s entries)
    (hs : Sound layout s) : contents s = entries :=
  (contents_of_fits hs shown.1).trans shown.2

/-- The slot an insertion takes, if it is one of the first `k`. -/
def insertIndexBelow (k : Nat) (s : Memory Data File) : Option Nat :=
  if field s .currentSize < field s .capacity ∧ k ≤ field s .capacity then
    firstIndex (fun i => decide (field s .lwm ≤ i ∧ (storage s i).lbid = -1)) k
  else none

lemma insertIndex_of_below {i : Nat} (hf : insertIndexBelow k s = some i) :
    insertIndex s = i ∧ field s .currentSize ≠ field s .capacity := by
  rw [insertIndexBelow] at hf
  split at hf
  case isFalse => cases hf
  case isTrue room =>
    refine ⟨?_, room.1.ne⟩
    rw [insertIndex, firstIndex_of_le room.2 hf, Option.getD_some]

/-- The function named `_insert`, at a given slot. -/
def insertEntryAt (layout : Layout) (e : Slot Data) (i : Nat) (s : Memory Data File) :
    Memory Data File :=
  let b := bucketOf layout s e.lbid e.verID
  let s := ((putField (recordHeader s) .lwm (i + layout.lwmStep)).makeUndoRecord
    (.slot i)).makeUndoRecord (.bucket b)
  putBucket (putSlot s i { e with next := hashBuckets s b }) b (some i)

end SlotTable

namespace SlaveNode

open SlotScan SlotTable BrmTypes Vss Vbbm

variable {cfg : NodeConfig} {n t : SlaveDBRMNode} {a : Aging} {k slots : Nat} {c : Command}
  {cs : List Command}

lemma commit_below {s : VSS} (free : UnusedFrom k (field s .capacity) s) (txnID : Int) :
    commit txnID s = forEach (commitStep txnID) k s := by
  have kept : ∀ i, k ≤ i → storage (forEach (commitStep txnID) k s) i = storage s i :=
    forEach_preserves (fun t => ∀ i, k ≤ i → storage t i = storage s i) (fun _ _ => rfl)
      fun j t below same i behind => by
        rw [(commitStep_spec txnID j t).2 i, if_neg (by omega), same i behind]
  refine forEach_idle free.below fun i behind bound => if_neg fun met => ?_
  rw [kept i behind] at met
  exact free.unused i behind bound met.1

section Aging

variable {repSize dbr firstFBO lastFBO : Nat}

lemma ageSlot_unused {i : Nat} (unused : ¬ usedSlot a.vbbm i) :
    ageSlot cfg.vbbmHasher cfg.vssHasher repSize dbr firstFBO lastFBO i a = a := by
  simp only [ageSlot]
  split
  · rfl
  · split
    · rfl
    · exact if_neg fun met => unused met.1

lemma unusedFrom_ageSlot (free : UnusedFrom k slots a.vbbm) (i : Nat) : UnusedFrom k slots
    (ageSlot cfg.vbbmHasher cfg.vssHasher repSize dbr firstFBO lastFBO i a).vbbm := by
  simp only [ageSlot]
  split
  · exact free
  · split
    · exact free
    · split
      · split
        · exact free
        · exact ⟨(capacity_removeEntry _ _ _).trans free.capacity, free.below,
            fun j behind bound used => free.unused j behind bound (usedSlot_of_removeEntry used)⟩
      · exact free

/-- The function `ageRange`, up to a slot. -/
def ageRangeBelow (k : Nat) (cfg : NodeConfig) (dbr fileSize : Nat) (a : Aging) (r : VBRange) :
    Aging :=
  match agedBlocks fileSize r with
  | none => a
  | some (firstFBO, lastFBO) =>
    forEach (ageSlot cfg.vbbmHasher cfg.vssHasher cfg.repSize dbr firstFBO lastFBO) k a

lemma ageRanges_below (cfg : NodeConfig) (dbr fileSize : Nat) (ranges : List VBRange)
    (free : UnusedFrom k slots a.vbbm) :
    ranges.foldl (ageRange cfg.vbbmHasher cfg.vssHasher cfg.repSize dbr fileSize) a =
      ranges.foldl (ageRangeBelow k cfg dbr fileSize) a := by
  induction ranges generalizing a with
  | nil => rfl
  | cons r rest ih =>
    rw [List.foldl_cons, List.foldl_cons, ageRange, ageRangeBelow]
    cases agedBlocks fileSize r with
    | none => exact ih free
    | some blocks =>
      have still : UnusedFrom k slots (forEach (ageSlot cfg.vbbmHasher cfg.vssHasher cfg.repSize dbr
          blocks.1 blocks.2) k a).vbbm :=
        forEach_preserves (fun b : Aging => UnusedFrom k slots b.vbbm) free
          fun i b _ free => unusedFrom_ageSlot free i
      simp only [free.capacity]
      rw [forEach_idle free.below fun i behind bound => ageSlot_unused
        (still.unused i behind bound)]
      exact ih still

end Aging

section Writing

/-- The function `insert` of the version substitution structure, among the first slots. -/
def insertVersion (k : Nat) (cfg : NodeConfig) (lbid verID : Int) (vbFlag locked : Bool) (s : VSS) :
    Option VSS :=
  (insertIndexBelow k s).map fun i =>
    let s := insertEntryAt (vssLayout cfg.vssHasher) ⟨lbid, verID, ⟨vbFlag, locked⟩, none⟩ i s
    let s := putField (s.makeUndoRecord (.field .currentSize)) .currentSize
      (field s .currentSize + 1)
    if locked then putField s .ownCount (field s .ownCount + 1) else s

/-- The function `insert` of the block map, among the first slots. -/
def insertCopy (k : Nat) (cfg : NodeConfig) (lbid verID : Int) (data : VbbmData) (s : VBBM) :
    Option VBBM :=
  (insertIndexBelow k s).map fun i =>
    let s := insertEntryAt (vbbmLayout cfg.vbbmHasher) ⟨lbid, verID, data, none⟩ i s
    putField (s.makeUndoRecord (.field .currentSize)) .currentSize (field s .currentSize + 1)

variable {lbid verID : Int}

lemma insert_of_version {vbFlag locked : Bool} {s u : VSS}
    (ran : insertVersion k cfg lbid verID vbFlag locked s = some u) :
    Vss.insert cfg.vssHasher lbid verID vbFlag locked false s = u := by
  obtain ⟨i, hf, rfl⟩ := Option.map_eq_some_iff.mp ran
  obtain ⟨rfl, room⟩ := insertIndex_of_below hf
  simp only [Vss.insert, Vss.checkResize, if_neg room]
  rfl

lemma insert_of_copy {data : VbbmData} {s u : VBBM}
    (ran : insertCopy k cfg lbid verID data s = some u) :
    Vbbm.insert cfg.vbbmHasher lbid verID data false s = u := by
  obtain ⟨i, hf, rfl⟩ := Option.map_eq_some_iff.mp ran
  obtain ⟨rfl, room⟩ := insertIndex_of_below hf
  simp only [Vbbm.insert, Vbbm.checkResize, if_neg room]
  rfl

/-- The function `writeVBEntry` for a new version, among the first slots. -/
def writeBelow (k : Nat) (cfg : NodeConfig) (transID lbid : Int) (dbrIdx : Fin 4)
    (vbOID vbFBO : Nat) (n : SlaveDBRMNode) : Option SlaveDBRMNode :=
  let oldVerID := getCurrentVersion cfg.vssHasher n.vss lbid
  if oldVerID < transID then
    (insertCopy k cfg lbid oldVerID ((default : VbbmData).setReplica dbrIdx vbOID vbFBO)
      n.vbbm).bind fun vbbm =>
    (if 0 < oldVerID then setVBFlag cfg.vssHasher lbid oldVerID true n.vss
      else insertVersion k cfg lbid oldVerID true false n.vss).bind fun vss =>
    (insertVersion k cfg lbid transID false true vss).map fun vss => ⟨vss, vbbm⟩
  else none

lemma write_below {transID : Int} {dbrIdx : Fin 4} {vbOID vbFBO : Nat}
    (ran : writeBelow k cfg transID lbid dbrIdx vbOID vbFBO n = some t) :
    writeVBEntry cfg transID lbid dbrIdx vbOID vbFBO n = some (.ok, t) := by
  simp only [writeBelow] at ran
  split at ran
  case isFalse => cases ran
  case isTrue newer =>
    obtain ⟨vbbm, copied, ran⟩ := Option.bind_eq_some_iff.mp ran
    obtain ⟨vss, old, ran⟩ := Option.bind_eq_some_iff.mp ran
    obtain ⟨vss', new, rfl⟩ := Option.map_eq_some_iff.mp ran
    rw [writeVBEntry, if_neg newer.ne, if_neg newer.le.not_gt]
    simp only [copyOut, insert_of_copy copied]
    split
    case isTrue positive =>
      rw [if_pos positive] at old
      simp only [old, insert_of_version new]
    case isFalse zero =>
      rw [if_neg zero] at old
      rw [insert_of_version old, insert_of_version new]

end Writing

/-- The function `beginVBCopy` for the first replica, on a file that is there, with room for the
entries and no block held. -/
def beginBelow (k : Nat) (cfg : NodeConfig) (transID : Int) (vbOID : DBRootsStruct)
    (ranges : List LBIDRange) (n : SlaveDBRMNode) : Option (Reply × SlaveDBRMNode) :=
  let dbr := vbOID.get (0 : Fin 4)
  let num := u32 (ranges.map LBIDRange.size).sum
  let f := files n.vbbm (dbr - 1)
  let gathered := gather (dbr - 1) num num n.vbbm
  let aged := gathered.1.foldl (ageRangeBelow k cfg dbr f.fileSize) ⟨false, n.vss, gathered.2⟩
  if 0 < dbr ∧ dbr ≤ field n.vbbm .ownCount ∧ f.oid = dbr ∧ num ≤ f.fileSize ∧
      field n.vbbm .currentSize + num ≤ field n.vbbm .capacity ∧
      ranges.any (fun r => isLocked cfg.vssHasher n.vss r transID) = false ∧
      aged.overflow = false then
    some (⟨.ok, gathered.1⟩, ⟨aged.vss, aged.vbbm⟩)
  else none

lemma growFor_roomy {hasher : Int → Int → Nat} {s : VBBM} {num : Nat}
    (room : field s .currentSize + num ≤ field s .capacity) (fuel : Nat) :
    growFor hasher num fuel s = s := by
  cases fuel with
  | zero => rfl
  | succ fuel => rw [growFor, if_neg (by omega)]

lemma begin_below (free : UnusedFrom k slots n.vbbm) {transID : Int} {vbOID : DBRootsStruct}
    {ranges : List LBIDRange} {r : Reply × SlaveDBRMNode}
    (ran : beginBelow k cfg transID vbOID ranges n = some r) :
    beginVBCopy cfg transID vbOID 0 ranges n = some r := by
  rw [beginVBCopy]
  simp only [beginBelow] at ran
  generalize vbOID.get (0 : Fin 4) = dbr at ran ⊢
  generalize u32 (ranges.map LBIDRange.size).sum = num at ran ⊢
  split at ran
  case isFalse => cases ran
  case isTrue met =>
    obtain ⟨root, known, named, fits, room, unheld, done⟩ := met
    obtain ⟨-, fields, same, -⟩ := gather_spec (dbr - 1) num num n.vbbm
    have gathered : UnusedFrom k slots (gather (dbr - 1) num num n.vbbm).2 :=
      ⟨(fields _).trans free.capacity, free.below, fun i behind bound => by
        rw [usedSlot, same]
        exact free.unused i behind bound⟩
    have there : addVBFileIfNotExists cfg.vbbmHasher cfg.fileBlocks dbr n.vbbm = n.vbbm := by
      simp only [addVBFileIfNotExists, if_neg (not_lt.mpr known)]
    have aged := ageRanges_below cfg dbr (files n.vbbm (dbr - 1)).fileSize
      (gather (dbr - 1) num num n.vbbm).1
        (show UnusedFrom k slots (Aging.mk false n.vss _).vbbm from gathered)
    rw [if_neg (by simp [unheld])]
    simp only [getBlocks, there, handOut, growFor_roomy room, aged, done]
    rw [if_neg (by omega), if_neg (by omega)]
    exact ran

/-- A command, with its loops up to a slot. -/
def runBelow (k : Nat) (cfg : NodeConfig) : Command → SlaveDBRMNode → Option (Reply × SlaveDBRMNode)
  | .vbCommit transID, n => some (⟨.ok, []⟩, { n with vss := forEach (commitStep transID) k n.vss })
  | .beginVBCopy transID vbOID 0 (r :: ranges), n => beginBelow k cfg transID vbOID (r :: ranges) n
  | .writeVBEntry transID lbid dbrIdx vbOID vbFBO, n =>
    (writeBelow k cfg transID lbid dbrIdx vbOID vbFBO n).map fun t => (⟨.ok, []⟩, t)
  | c, n => c.run cfg n

/-- A confirmed command of a node with few entries. -/
def stepBelow (k : Nat) (cfg : NodeConfig) (n : SlaveDBRMNode) (c : Command) :
    Option SlaveDBRMNode :=
  if fitsBelow k n.vss && fitsBelow k n.vbbm then
    match runBelow k cfg c n with
    | none => none
    | some (r, t) => if r.code = .ok then some (confirmChanges c t) else none
  else none

lemma run_of_runBelow (hs : NodeSound cfg n) (vss : fitsBelow k n.vss = true)
    (vbbm : fitsBelow k n.vbbm = true) {r : Reply × SlaveDBRMNode}
    (ran : runBelow k cfg c n = some r) : c.run cfg n = some r := by
  unfold runBelow at ran
  split at ran
  · rw [Command.run, commit_below (unusedFrom_of_fits hs.vss vss)]
    exact ran
  · exact begin_below (unusedFrom_of_fits hs.vbbm vbbm) ran
  · obtain ⟨t, done, rfl⟩ := Option.map_eq_some_iff.mp ran
    rw [Command.run, write_below done]
    rfl
  · exact ran

lemma runConfirmed_of_stepBelow (hs : NodeSound cfg n) (ran : stepBelow k cfg n c = some t) :
    runConfirmed cfg n c = some t := by
  rw [stepBelow] at ran
  split at ran
  case isFalse => cases ran
  case isTrue fits =>
    obtain ⟨vss, vbbm⟩ := (Bool.and_eq_true _ _).mp fits
    split at ran
    · cases ran
    · rename_i done
      rw [runConfirmed, run_of_runBelow hs vss vbbm done]
      exact ran

lemma run_of_stepsBelow (hr : Reachable cfg n) (real : ∀ c ∈ cs, c.real)
    (ran : cs.foldlM (stepBelow k cfg) n = some t) :
    cs.foldlM (runConfirmed cfg) n = some t ∧ Reachable cfg t := by
  induction cs generalizing n with
  | nil =>
    cases ran
    exact ⟨rfl, hr⟩
  | cons c rest ih =>
    rw [List.foldlM_cons] at ran ⊢
    obtain ⟨m, first, later⟩ := Option.bind_eq_some_iff.mp ran
    have once := runConfirmed_of_stepBelow (reachable_sound hr) first
    rw [once]
    exact ih (hr.confirmed (real c List.mem_cons_self) once)
      (fun c later => real c (List.mem_cons_of_mem _ later)) later

/-- Version buffer files of 100 blocks, one replica, and one chain for all blocks. -/
def exampleConfig : NodeConfig := ⟨fun _ => 0, fun _ _ => 0, 100, 1⟩

/-- What a run of a new node ends in can be evaluated. -/
lemma exists_run {Q : SlaveDBRMNode → Prop} (k : Nat) (P : SlaveDBRMNode → Prop) [DecidablePred P]
    (real : ∀ c ∈ cs, c.real)
    (shown : (cs.foldlM (stepBelow k exampleConfig) initial).any (fun n => decide (P n)) = true)
    (gives : ∀ n, Reachable exampleConfig n → P n → Q n) :
    ∃ n, cs.foldlM (runConfirmed exampleConfig) initial = some n ∧ Q n := by
  obtain ⟨n, ran, passes⟩ := (Option.any_eq_true _ _).mp shown
  obtain ⟨run, reachable⟩ := run_of_stepsBelow .initial real ran
  exact ⟨n, run, gives n reachable (of_decide_eq_true passes)⟩

lemma exists_step {Q : SlaveDBRMNode → Prop} (k : Nat) (P : SlaveDBRMNode → Prop) [DecidablePred P]
    (hr : Reachable exampleConfig n)
    (shown : (stepBelow k exampleConfig n c).any (fun t => decide (P t)) = true) (real : c.real)
    (gives : ∀ t, Reachable exampleConfig t → P t → Q t) :
    ∃ t, runConfirmed exampleConfig n c = some t ∧ Q t := by
  obtain ⟨t, ran, passes⟩ := (Option.any_eq_true _ _).mp shown
  have run := runConfirmed_of_stepBelow (reachable_sound hr) ran
  exact ⟨t, run, gives t (hr.confirmed real run) (of_decide_eq_true passes)⟩

/-- Transaction 5 writes block 7. -/
lemma firstWrite : ∃ n, runConfirmed exampleConfig initial (.writeVBEntry 5 7 0 1 0) = some n ∧
      SameRoom initial.vbbm n.vbbm ∧
      contents n.vss = {⟨7, 0, ⟨true, false⟩⟩, ⟨7, 5, ⟨false, true⟩⟩} :=
  exists_step 2 (fun n => (field n.vbbm .capacity = field initial.vbbm .capacity ∧
      field n.vbbm .ownCount = field initial.vbbm .ownCount) ∧ Lists 2 n.vss _)
    .initial (by decide +kernel) (show (7 : Int) ≠ -1 by decide) fun _ reachable
      ⟨⟨room, files⟩, held⟩ =>
      ⟨⟨room, files⟩, held.contents (reachable_sound reachable).vss⟩

/-- Transaction 5 writes block 7 and commits. A rollback by transaction 7, which never wrote the
block, then empties the version buffer map. -/
lemma exampleRun :
    ∃ n, [Command.writeVBEntry 5 7 0 1 0, .vbCommit 5].foldlM (runConfirmed exampleConfig)
        initial = some n ∧ Reachable exampleConfig n ∧
      contents n.vss = {⟨7, 5, ⟨false, false⟩⟩, ⟨7, 0, ⟨true, false⟩⟩} ∧
      contents n.vbbm = {⟨7, 0, (default : VbbmData).setReplica 0 1 0⟩} ∧
      Lists 1 (vbRollback exampleConfig 7 [⟨7, 1⟩] n).2.vbbm 0 :=
  exists_run 4 (fun n => Lists 2 n.vss _ ∧ Lists 1 n.vbbm _ ∧ Lists 1 _ 0)
    (by simp [Command.real]) (by decide +kernel) fun _ reachable ⟨versions, copies, emptied⟩ =>
      ⟨reachable, versions.contents (reachable_sound reachable).vss,
        copies.contents (reachable_sound reachable).vbbm, emptied⟩

end SlaveNode
