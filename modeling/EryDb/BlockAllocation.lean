import EryDb.StepEffects

/-!
# Blocks of a version buffer file

`getBlocks` takes the next blocks of a file as a ring: a request is one range, or two when it
passes the end of the file. The cursor of every file stays inside it, in every reachable node
and in what an undo would leave of it.
-/

namespace Vbbm

open List ImageUndo ImageUndo.Undoable SlotScan SlotTable

variable {hasher : Int → Int → Nat} {s t : VBBM}

/-- The blocks from the cursor of a file on. -/
def ringRanges (f : VBFileMetadata) (num : Nat) : List VBRange :=
  if num = 0 then []
  else if f.nextOffset + num ≤ f.fileSize then [⟨f.oid, f.nextOffset, num⟩]
  else [⟨f.oid, f.nextOffset, f.fileSize - f.nextOffset⟩,
    ⟨f.oid, 0, f.nextOffset + num - f.fileSize⟩]

/-- The cursor lies in the file. -/
def InFile (f : VBFileMetadata) : Prop := f.nextOffset < f.fileSize ∨ f.nextOffset = 0

def VBFileMetadata.advance (f : VBFileMetadata) (num : Nat) : VBFileMetadata :=
  { f with nextOffset := (f.nextOffset + num) % f.fileSize }

variable {k : Nat}

lemma takeRange_fits (num : Nat) (fits : (files s k).nextOffset + num ≤ (files s k).fileSize) :
    (takeRange k num s).1 = ⟨(files s k).oid, (files s k).nextOffset, num⟩ ∧
      files (takeRange k num s).2 k = (files s k).advance num := by
  have short : num ≤ (files s k).fileSize - (files s k).nextOffset := by omega
  refine ⟨by simp [takeRange, short], ?_⟩
  simp only [takeRange, if_pos short, files_putFile, if_pos, VBFileMetadata.advance]
  congr 1
  split
  · rename_i last
    rw [last, Nat.add_sub_cancel' (by omega), Nat.mod_self]
  · rename_i hb
    rw [Nat.mod_eq_of_lt (by omega)]

lemma takeRange_wraps (num : Nat) (wraps : (files s k).fileSize < (files s k).nextOffset + num)
    (hi : (files s k).nextOffset < (files s k).fileSize) :
    (takeRange k num s).1 = ⟨(files s k).oid, (files s k).nextOffset,
        (files s k).fileSize - (files s k).nextOffset⟩ ∧
      files (takeRange k num s).2 k = ⟨(files s k).oid, (files s k).fileSize, 0⟩ := by
  have long : ¬ num ≤ (files s k).fileSize - (files s k).nextOffset := by omega
  simp [takeRange, long]

lemma gather_none (k fuel : Nat) (s : VBBM) : gather k fuel 0 s = ([], s) := by
  cases fuel <;> rfl

variable {num : Nat}

lemma gather_fits (fuel : Nat) (some : num ≠ 0)
    (fits : (files s k).nextOffset + num ≤ (files s k).fileSize) :
    (gather k (fuel + 1) num s).1 = [⟨(files s k).oid, (files s k).nextOffset, num⟩] ∧
      files (gather k (fuel + 1) num s).2 k = (files s k).advance num := by
  obtain ⟨range, hmo⟩ := takeRange_fits num fits
  simp only [gather, if_neg some, range, Nat.sub_self, gather_none]
  exact ⟨trivial, hmo⟩

/-- The loop takes the ring ranges of the request and moves the cursor behind them. -/
lemma gather_ring (hreq : num ≤ (files s k).fileSize) (hi : InFile (files s k)) :
    (gather k num num s).1 = ringRanges (files s k) num ∧
      files (gather k num num s).2 k = (files s k).advance num := by
  cases num with
  | zero =>
    refine ⟨rfl, ?_⟩
    rcases hi with hl | zero
    · simp [gather, VBFileMetadata.advance, Nat.mod_eq_of_lt hl]
    · simp only [gather, VBFileMetadata.advance, zero, Nat.zero_add, Nat.zero_mod]
      rw [← zero]
  | succ num =>
    rw [ringRanges, if_neg (Nat.succ_ne_zero num)]
    split_ifs with fits
    · exact gather_fits num (Nat.succ_ne_zero num) fits
    -- The first range ends the file, so the second one starts at its first block.
    have hl : (files s k).nextOffset < (files s k).fileSize := by
      rcases hi with hl | zero
      · exact hl
      · omega
    obtain ⟨range, hmo⟩ := takeRange_wraps (num + 1) (by omega) hl
    set left := (files s k).nextOffset + (num + 1) - (files s k).fileSize with rest
    have blocks : num + 1 - ((files s k).fileSize - (files s k).nextOffset) = left := by omega
    obtain ⟨fuel, rfl⟩ : ∃ fuel, num = fuel + 1 := ⟨num - 1, by omega⟩
    obtain ⟨twice, hmo'⟩ := gather_fits (s := (takeRange k (fuel + 1 + 1) s).2) (k := k)
      fuel (show left ≠ 0 by omega) (by rw [hmo]; simp only; omega)
    rw [hmo] at twice hmo'
    rw [gather, if_neg (Nat.succ_ne_zero _)]
    simp only [range, blocks, twice, hmo', VBFileMetadata.advance, true_and]
    have he : (files s k).nextOffset + (fuel + 1 + 1) = left + (files s k).fileSize := by omega
    rw [he, Nat.add_mod_right, Nat.zero_add]

/-- The file table stays. -/
structure SameFiles (s t : VBBM) : Prop where
  count : field t .ownCount = field s .ownCount
  files : ∀ k, files t k = files s k

lemma SameFiles.refl (s : VBBM) : SameFiles s s := ⟨rfl, fun _ => rfl⟩

lemma SameFiles.trans {u : VBBM} (once : SameFiles s t) (second : SameFiles t u) : SameFiles s u :=
  ⟨second.count.trans once.count, fun k => (second.files k).trans (once.files k)⟩

/-- Every file has its number, and its cursor lies in it. -/
def Filed (s : VBBM) : Prop :=
  ∀ k, k < field s .ownCount → (files s k).oid = k + 1 ∧ InFile (files s k)

lemma Filed.same (filed : Filed s) (he : SameFiles s t) : Filed t := by
  intro k bound
  rw [he.files]
  exact filed k (he.count ▸ bound)

variable (hs : Sound (vbbmLayout hasher) s)
include hs

lemma growVBBM_sameFiles : SameFiles s (growVBBM hasher s) := by
  obtain ⟨-, count, he⟩ := growVBBM_fields hs
  exact ⟨count, he⟩

lemma growFor_sameFiles (num fuel : Nat) : SameFiles s (growFor hasher num fuel s) := by
  induction fuel generalizing s with
  | zero => exact .refl s
  | succ fuel ih =>
    rw [growFor]
    split
    · exact (growVBBM_sameFiles hs).trans (ih (growVBBM_shrunk hs).sound)
    · exact .refl s

lemma insert_sameFiles (lbid verID : Int) (data : VbbmData) :
    SameFiles (checkResize hasher s) (insert hasher lbid verID data false s) ∧
      SameFiles s (checkResize hasher s) := by
  constructor
  · constructor
    · simp [insert]
    · simp [insert]
  · rw [checkResize]
    split
    · exact growVBBM_sameFiles hs
    · exact .refl s

lemma addVBFileIfNotExists_filed (filed : Filed s) (fileBlocks vbOID : Nat) :
    Filed (addVBFileIfNotExists hasher fileBlocks vbOID s) := by
  obtain ⟨-, -, count, he⟩ := addVBFileIfNotExists_spec hs fileBlocks vbOID
  intro k bound
  rw [count] at bound
  rw [he]
  split
  · exact ⟨rfl, Or.inr rfl⟩
  · exact filed k (by omega)

/-- Copies are only taken out of the map. -/
def Removals (hasher : Int → Int → Nat) : VBBM → VBBM → Prop :=
  Relation.ReflTransGen fun s t => ∃ lbid verID, t = removeEntry hasher lbid verID s

omit hs in
lemma Removals.sameFiles (hrem : Removals hasher s t) : SameFiles s t := by
  induction hrem with
  | refl => exact .refl s
  | tail _ step ih =>
    obtain ⟨lbid, verID, rfl⟩ := step
    exact ih.trans ⟨ownCount_removeEntry lbid verID _, files_removeEntry lbid verID _⟩

omit hs in
lemma Removals.logged (hrem : Removals hasher s t) : Logged s t := by
  induction hrem with
  | refl => exact Logged.refl s
  | tail _ step ih =>
    obtain ⟨lbid, verID, rfl⟩ := step
    exact ih.trans (logged_removeEntry lbid verID _)

omit hs in
lemma ageRanges_removals (hasher : Int → Int → Nat) (vssHasher : Int → Nat)
    (repSize dbr fileSize : Nat) (ranges : List VBRange) (a : Aging) :
    Removals hasher a.vbbm
      (ranges.foldl (ageRange hasher vssHasher repSize dbr fileSize) a).vbbm := by
  refine List.foldlRecOn (motive := fun b : Aging => Removals hasher a.vbbm b.vbbm) _ _ .refl
    fun b before r _ => ?_
  rw [ageRange]
  split
  · exact before
  refine forEach_preserves (fun b : Aging => Removals hasher a.vbbm b.vbbm) before ?_
  intro i c _ path
  simp only [ageSlot]
  repeat' split
  all_goals first | exact path | exact path.tail ⟨_, _, rfl⟩

variable {dbr : Nat} {f : VBFileMetadata}

/-- The file of a request, which is added when it is missing. -/
def fileOf (fileBlocks : Nat) (s : VBBM) (dbr : Nat) : VBFileMetadata :=
  if dbr ≤ field s .ownCount then files s (dbr - 1) else ⟨dbr, fileBlocks, 0⟩

lemma files_added (fileBlocks : Nat) (root : 0 < dbr) :
    files (addVBFileIfNotExists hasher fileBlocks dbr s) (dbr - 1) = fileOf fileBlocks s dbr := by
  obtain ⟨-, -, -, he⟩ := addVBFileIfNotExists_spec hs fileBlocks dbr
  rw [he, fileOf]
  by_cases hk : dbr ≤ field s .ownCount
  · rw [if_neg (by omega), if_pos hk]
  · rw [if_pos (by omega), if_neg hk, Nat.sub_add_cancel root]

omit hs in
lemma fileOf_filed (filed : Filed s) (fileBlocks : Nat) (root : 0 < dbr) :
    (fileOf fileBlocks s dbr).oid = dbr ∧ InFile (fileOf fileBlocks s dbr) := by
  rw [fileOf]
  split
  · obtain ⟨hn, hi⟩ := filed (dbr - 1) (by omega)
    exact ⟨by omega, hi⟩
  · exact ⟨rfl, Or.inr rfl⟩

omit hs in
/-- The cursor after a request lies in the file. -/
lemma InFile.advance (hi : InFile f) (hreq : num ≤ f.fileSize) : InFile (f.advance num) := by
  by_cases hp : 0 < f.fileSize
  · exact Or.inl (Nat.mod_lt _ hp)
  have hem : f.fileSize = 0 := by omega
  have start : f.nextOffset = 0 := hi.resolve_left (by omega)
  right
  rw [VBFileMetadata.advance, start, hem]
  simp only [Nat.mod_zero]
  omega

/-- What a request of `num` blocks answers in a file of `fileSize` blocks whose next block is
`next`. -/
structure HandsOut (dbr fileSize next num : Nat) (ranges : List VBRange) : Prop where
  root : ∀ r ∈ ranges, r.vbOID = dbr
  inside : ∀ r ∈ ranges, 0 < r.size ∧ r.vbFBO + r.size ≤ fileSize
  disjoint : ranges.Pairwise fun r q => r.vbFBO + r.size ≤ q.vbFBO ∨ q.vbFBO + q.size ≤ r.vbFBO
  total : (ranges.map VBRange.size).sum = num
  first : ∀ r ∈ ranges.head?, r.vbFBO = next
  last : ∀ r ∈ ranges.getLast?, (r.vbFBO + r.size) % fileSize = (next + num) % fileSize

omit hs in
lemma ringRanges_handsOut (hi : InFile f) (hreq : num ≤ f.fileSize) :
    HandsOut f.oid f.fileSize f.nextOffset num (ringRanges f num) := by
  rw [ringRanges]
  split
  · rename_i none
    exact ⟨by simp, by simp, by simp, by simp [none], by simp, by simp⟩
  split
  · exact ⟨by simp, by simp; omega, by simp, by simp, by simp, by simp⟩
  rename_i some wraps
  have hl : f.nextOffset < f.fileSize := by
    rcases hi with hl | zero
    · exact hl
    · omega
  refine ⟨by simp, ?_, ?_, ?_, by simp, ?_⟩
  · simp only [mem_cons, not_mem_nil, or_false, forall_eq_or_imp, forall_eq]
    omega
  · simp only [pairwise_cons, mem_singleton, forall_eq, not_mem_nil,
      IsEmpty.forall_iff, implies_true, List.Pairwise.nil, and_true]
    omega
  · simp only [map_cons, map_nil, sum_cons, sum_nil]
    omega
  · simp only [getLast?_cons_cons, getLast?_singleton, Option.mem_def,
      Option.some.injEq, forall_eq', Nat.zero_add]
    rw [← Nat.add_mod_right, Nat.sub_add_cancel (by omega)]

/-- The next blocks of a file, and the file table after they were taken. -/
structure Allotted (f : VBFileMetadata) (num dbr : Nat) (s : VBBM) (ranges : List VBRange)
    (t : VBBM) : Prop where
  ranges : ranges = ringRanges f num
  file : files t (dbr - 1) = f.advance num
  others : ∀ k, k ≠ dbr - 1 → files t k = files s k
  count : field t .ownCount = field s .ownCount

lemma handOut_allotted (vssHasher : Int → Nat) (repSize : Nat) (vss : Vss.VSS)
    (file : files s (dbr - 1) = f) (hreq : num ≤ f.fileSize) (hi : InFile f) :
    Allotted f num dbr s (handOut hasher vssHasher repSize num dbr f.fileSize vss s).1
      (handOut hasher vssHasher repSize num dbr f.fileSize vss s).2.vbbm := by
  simp only [handOut]
  have grows := growFor_sameFiles hs num (field s .currentSize + num)
  set wide := growFor hasher num (field s .currentSize + num) s
  have hk : files wide (dbr - 1) = f := by rw [grows.files, file]
  have fits : num ≤ (files wide (dbr - 1)).fileSize := by rwa [hk]
  obtain ⟨ranges, hmo⟩ := gather_ring fits (by rwa [hk])
  rw [hk] at ranges hmo
  obtain ⟨-, fields, -, hos⟩ := SlaveNode.gather_spec (dbr - 1) num num wide
  have aged := (ageRanges_removals hasher vssHasher repSize dbr f.fileSize
    (gather (dbr - 1) num num wide).1 ⟨false, vss, (gather (dbr - 1) num num wide).2⟩).sameFiles
  refine ⟨ranges, ?_, fun k ho => ?_, ?_⟩
  · rw [aged.files, hmo]
  · rw [aged.files, hos k ho, grows.files]
  · rw [aged.count, fields, grows.count]

/-- A request is refused for its size, ends in an overflow while blocks are aged out, or is
answered with the next blocks. -/
lemma getBlocks_cases (filed : Filed s) (vssHasher : Int → Nat) (repSize fileBlocks num : Nat)
    (root : 0 < dbr) (vss : Vss.VSS) : (fileOf fileBlocks s dbr).fileSize < num ∧
        getBlocks hasher vssHasher repSize fileBlocks num dbr vss s =
          some (.error .vbbmBufferOverFlow, vss, addVBFileIfNotExists hasher fileBlocks dbr s) ∨
      num ≤ (fileOf fileBlocks s dbr).fileSize ∧ ∃ r ranges vss' t,
        getBlocks hasher vssHasher repSize fileBlocks num dbr vss s = some (r, vss', t) ∧
        (r = .error .vbbmBufferOverFlow ∨ r = .ok ranges) ∧
        Allotted (fileOf fileBlocks s dbr) num dbr (addVBFileIfNotExists hasher fileBlocks dbr s)
          ranges t := by
  obtain ⟨hn, hi⟩ := fileOf_filed filed fileBlocks root
  have added := files_added hs fileBlocks root
  have fresh := (addVBFileIfNotExists_spec hs fileBlocks dbr).1.sound
  simp only [getBlocks, added, hn]
  rw [if_neg (by omega)]
  split
  · exact Or.inl ⟨‹_›, rfl⟩
  refine Or.inr ⟨by omega, _, _, _, _, rfl, ?_,
    handOut_allotted fresh vssHasher repSize vss added (by omega) hi⟩
  split
  · exact Or.inl rfl
  · exact Or.inr rfl

omit hs

/-- Handing out blocks keeps the file table right. -/
lemma Allotted.filed {ranges : List VBRange} (allotted : Allotted f num dbr s ranges t)
    (filed : Filed s) (root : 0 < dbr) (hn : f.oid = dbr) (hi : InFile f)
    (hreq : num ≤ f.fileSize) : Filed t := by
  intro k bound
  rw [allotted.count] at bound
  by_cases hh : k = dbr - 1
  · subst hh
    rw [allotted.file]
    refine ⟨?_, hi.advance hreq⟩
    rw [Nat.sub_add_cancel root]
    exact hn
  · rw [allotted.others k hh]
    exact filed k bound

/-- The file table is right, and so is what an undo would leave of it. -/
structure FilesHeld (s : VBBM) : Prop where
  now : Filed s
  replay : Filed (replayed s)

lemma FilesHeld.logged (held : FilesHeld s) (hlg : Logged s t) (now : Filed t) : FilesHeld t :=
  ⟨now, by rw [replayed_of_logged hlg]; exact held.replay⟩

lemma FilesHeld.of_empty (now : Filed s) (hem : s.undoRecords = []) : FilesHeld s := by
  refine ⟨now, ?_⟩
  have image := image_replayed hem
  exact now.same ⟨congrFun image (.field .ownCount), fun k => congrFun image (.file k)⟩

lemma FilesHeld.widened (held : FilesHeld s) (hwi : Widened hasher s t) (now : Filed t) :
    FilesHeld t := by
  rcases hwi.grown with rfl | ⟨hem, -⟩
  · exact held
  · exact .of_empty now hem

lemma FilesHeld.putSlot (held : FilesHeld s) (i : Nat) (e : VBBMEntry) :
    FilesHeld (putSlot s i e) := by
  have hos : ∀ a, a ≠ .slot i → (SlotTable.putSlot s i e).restored a = s.restored a :=
    fun a ho => restored_store_ne _ ho
  refine ⟨held.now.same ⟨by simp, by simp⟩, held.replay.same ⟨?_, fun k => ?_⟩⟩
  · exact hos (.field .ownCount) (by simp)
  · exact hos (.file k) (by simp)

lemma Removals.filesHeld (hrem : Removals hasher s t) (held : FilesHeld s) : FilesHeld t :=
  held.logged hrem.logged (held.now.same hrem.sameFiles)

variable (hs : Sound (vbbmLayout hasher) s)
include hs

lemma FilesHeld.insert (held : FilesHeld s) (lbid verID : Int) (data : VbbmData) :
    FilesHeld (insert hasher lbid verID data false s) := by
  obtain ⟨entered, resized⟩ := insert_sameFiles hs lbid verID data
  have wide : FilesHeld (checkResize hasher s) := by
    have now := held.now.same resized
    rw [checkResize] at now ⊢
    split at now
    · rw [if_pos (by assumption)]
      exact .of_empty now rfl
    · rw [if_neg (by assumption)]
      exact held
  exact wide.logged (logged_insert lbid verID data s) (wide.now.same entered)

lemma FilesHeld.handOut (held : FilesHeld s) (vssHasher : Int → Nat) (repSize : Nat)
    {fileSize : Nat} (vss : Vss.VSS)
    (now : Filed (handOut hasher vssHasher repSize num dbr fileSize vss s).2.vbbm) :
    FilesHeld (handOut hasher vssHasher repSize num dbr fileSize vss s).2.vbbm := by
  have grows := growFor_sameFiles hs num (field s .currentSize + num)
  have wide := held.widened (growFor_widened hs num (field s .currentSize + num))
    (held.now.same grows)
  refine wide.logged (Logged.trans (logged_gather (dbr - 1) num num _) ?_) now
  exact (ageRanges_removals hasher vssHasher repSize dbr fileSize _ ⟨false, vss, _⟩).logged

lemma FilesHeld.getBlocks (held : FilesHeld s) (vssHasher : Int → Nat)
    (repSize fileBlocks num dbr : Nat) (vss : Vss.VSS)
    {r : Except BrmTypes.BrmExcept (List VBRange) × Vss.VSS × VBBM}
    (ran : getBlocks hasher vssHasher repSize fileBlocks num dbr vss s = some r) :
    FilesHeld r.2.2 := by
  have hwi := addVBFileIfNotExists_widened hs fileBlocks dbr
  have filed := addVBFileIfNotExists_filed hs held.now fileBlocks dbr
  have added := held.widened hwi filed
  simp only [Vbbm.getBlocks] at ran
  split at ran
  · cases ran
  rename_i hk
  split at ran
  · cases ran
    exact added
  cases ran
  rename_i hreq
  have bound : dbr - 1 < field (addVBFileIfNotExists hasher fileBlocks dbr s) .ownCount := by
    have count := (addVBFileIfNotExists_spec hs fileBlocks dbr).2.2.1
    omega
  refine added.handOut hwi.shrunk.sound vssHasher repSize vss ?_
  exact (handOut_allotted hwi.shrunk.sound vssHasher repSize vss rfl (by omega)
    (filed _ bound).2).filed filed (by omega) (by omega) (filed _ bound).2 (by omega)

end Vbbm

namespace SlaveNode

open ImageUndo ImageUndo.Undoable SlotScan SlotTable Vss Vbbm

variable {cfg : NodeConfig} {n t : SlaveDBRMNode}

lemma rollbackFold_removals {transID : Int} {lbids : List Int}
    (ran : lbids.foldlM (rollbackBlock cfg transID) n = .ok t) :
    Removals cfg.vbbmHasher n.vbbm t.vbbm := by
  refine rollbackFold_rule (fun m => Removals cfg.vbbmHasher n.vbbm m.vbbm)
    (fun m u lbid path once => ?_)
    .refl ran
  simp only [rollbackBlock] at once
  split at once
  · split at once
    · cases once
    · cases once
      exact path.tail ⟨_, _, rfl⟩
  · cases once
    exact path

lemma vbRollbackBlocks_removals (hs : NodeSound cfg n) (transID : Int) (lbids : List Int) :
    Removals cfg.vbbmHasher n.vbbm (vbRollbackBlocks cfg transID lbids n).2.vbbm := by
  obtain ⟨u, done, -, -, ran⟩ := vbRollbackBlocks_spec hs transID lbids
  rw [done]
  exact rollbackFold_removals ran

lemma removeRange_removals (range : LBIDRange) (n : SlaveDBRMNode) :
    Removals cfg.vbbmHasher n.vbbm (removeRange cfg n range).vbbm :=
  removeRange_vbbm (Removals cfg.vbbmHasher n.vbbm)
    (fun _ _ _ path => path.tail ⟨_, _, rfl⟩) range .refl

lemma deleteOID_removals (lbids : List LBIDRange) (n : SlaveDBRMNode) :
    Removals cfg.vbbmHasher n.vbbm (deleteOID cfg lbids n).2.vbbm := by
  rw [deleteOID]
  split
  · exact .refl
  · exact List.foldlRecOn (motive := fun m : SlaveDBRMNode => Removals cfg.vbbmHasher n.vbbm m.vbbm)
      _ _ .refl fun m path range _ => path.trans (removeRange_removals range m)

lemma run_filesHeld (hs : NodeSound cfg n) (held : FilesHeld n.vbbm) {c : Command} {r : Reply}
    (ran : c.run cfg n = some (r, t)) : FilesHeld t.vbbm := by
  cases c with
  | beginVBCopy transID vbOID dbrIndex ranges =>
    simp only [Command.run, SlaveNode.beginVBCopy] at ran
    split at ran
    · cases ran
      exact held
    split at ran
    · cases ran
    all_goals
      rename_i got
      cases ran
      exact held.getBlocks hs.vbbm _ _ _ _ _ _ got
  | writeVBEntry transID lbid dbrIdx vbOID vbFBO =>
    obtain ⟨⟨code, u⟩, hwro, he⟩ := Option.map_eq_some_iff.mp ran
    cases he
    simp only [SlaveNode.writeVBEntry] at hwro
    split at hwro
    · simp only [addReplica] at hwro
      split at hwro
      · cases hwro
        exact held
      · cases hwro
      · cases hwro
        exact held.putSlot _ _
    · split at hwro
      · cases hwro
        exact held
      · have hcp := congrArg (fun r => r.2.vbbm) (Option.some.inj hwro)
        simp only [vbbm_copyOut] at hcp
        rw [← hcp]
        exact held.insert hs.vbbm _ _ _
  | vbCommit transID =>
    cases ran
    exact held
  | vbRollback transID lbidList | vbRollbackBlocks transID lbidList =>
    cases ran
    exact (vbRollbackBlocks_removals hs transID _).filesHeld held
  | deleteOID lbids =>
    cases ran
    exact (deleteOID_removals lbids n).filesHeld held

lemma step_filesHeld (hg : NodeGuarded cfg n) (held : FilesHeld n.vbbm) {c : Command}
    (next : Step cfg n c t) : FilesHeld t.vbbm := by
  cases next with
  | confirmed ran ok =>
    have ha := run_filesHeld hg.sound held ran
    simp only [confirmChanges]
    split
    · exact .of_empty (ha.now.same ⟨rfl, fun _ => rfl⟩) rfl
    · exact ha
  | undone ran undo =>
    have ha := run_filesHeld hg.sound held ran
    obtain ⟨tables, -⟩ := undoChanges_tables undo
    by_cases locks : c.locksVBBM = true
    · obtain ⟨-, replay⟩ := (undone_table tables).1 locks
      rw [replay]
      exact .of_empty ha.replay rfl
    · rw [(undone_table tables).2 (by simpa using locks)]
      exact ha

lemma reachable_filed (hr : Reachable cfg n) : FilesHeld n.vbbm := by
  induction hr with
  | initial => exact .of_empty (fun _ bound => absurd bound (Nat.not_lt_zero _)) rfl
  | step hb real next ih => exact step_filesHeld (reachable_guarded hb) ih next

/-- The ranges of an answered request. -/
lemma ranges_of_getBlocks (hr : Reachable cfg n) {dbr num : Nat} (root : 0 < dbr)
    {ranges : List VBRange} {vss : VSS} {s : VBBM}
    (ran : getBlocks cfg.vbbmHasher cfg.vssHasher cfg.repSize cfg.fileBlocks num dbr n.vss n.vbbm =
      some (.ok ranges, vss, s)) :
    HandsOut dbr (fileOf cfg.fileBlocks n.vbbm dbr).fileSize
        (fileOf cfg.fileBlocks n.vbbm dbr).nextOffset num ranges ∧
      files s (dbr - 1) = (fileOf cfg.fileBlocks n.vbbm dbr).advance num := by
  have filed := (reachable_filed hr).now
  obtain ⟨hn, hi⟩ := fileOf_filed filed cfg.fileBlocks root
  rcases getBlocks_cases (reachable_sound hr).vbbm filed cfg.vssHasher cfg.repSize
    cfg.fileBlocks num root n.vss with ⟨-, failed⟩ |
      ⟨hreq, r, ranges', vss', u, done, answer, allotted⟩
  · rw [failed] at ran
    cases ran
  rw [done] at ran
  obtain ⟨rfl, rfl, rfl⟩ : r = .ok ranges ∧ vss' = vss ∧ u = s := by simpa using ran
  obtain rfl : ranges = ranges' := by simpa using answer
  have right := ringRanges_handsOut hi hreq
  rw [hn, ← allotted.ranges] at right
  exact ⟨right, allotted.file⟩

/-- A request up to the file size ends in an overflow or is answered with blocks that make it
up, and the next request on the file continues behind them. -/
theorem getBlocks_hands_out (reachable : Reachable cfg n) {dbr num : Nat} (root : 0 < dbr)
    (request : num ≤ (fileOf cfg.fileBlocks n.vbbm dbr).fileSize) :
    ∃ r vss s, getBlocks cfg.vbbmHasher cfg.vssHasher cfg.repSize cfg.fileBlocks num dbr n.vss
        n.vbbm = some (r, vss, s) ∧
      (r = .error .vbbmBufferOverFlow ∨ ∃ ranges, r = .ok ranges ∧
        HandsOut dbr (fileOf cfg.fileBlocks n.vbbm dbr).fileSize
          (fileOf cfg.fileBlocks n.vbbm dbr).nextOffset num ranges ∧
        ∀ m num' ranges' vss' s', Reachable cfg m → dbr ≤ field m.vbbm .ownCount →
          files m.vbbm (dbr - 1) = files s (dbr - 1) →
          getBlocks cfg.vbbmHasher cfg.vssHasher cfg.repSize cfg.fileBlocks num' dbr m.vss
            m.vbbm = some (.ok ranges', vss', s') →
          ∀ last ∈ ranges.getLast?, ∀ next ∈ ranges'.head?,
            next.vbFBO = (last.vbFBO + last.size) %
              (fileOf cfg.fileBlocks n.vbbm dbr).fileSize) := by
  have filed := (reachable_filed reachable).now
  rcases getBlocks_cases (reachable_sound reachable).vbbm filed cfg.vssHasher cfg.repSize
    cfg.fileBlocks num root n.vss with ⟨large, -⟩ | ⟨-, r, ranges, vss, s, done, answer, -⟩
  · omega
  refine ⟨r, vss, s, done, ?_⟩
  rcases answer with overflow | rfl
  · exact Or.inl overflow
  right
  obtain ⟨right, moved⟩ := ranges_of_getBlocks reachable root done
  refine ⟨ranges, rfl, right, ?_⟩
  intro m num' ranges' vss' s' later known same ran last final next head
  obtain ⟨after, -⟩ := ranges_of_getBlocks later root ran
  have file : fileOf cfg.fileBlocks m.vbbm dbr =
      (fileOf cfg.fileBlocks n.vbbm dbr).advance num := by
    rw [fileOf, if_pos known, same, moved]
  rw [after.first next head, file, right.last last final]
  rfl

lemma getBlocks_of_beginVBCopy {transID : Int} {vbOID : BrmTypes.DBRootsStruct} {dbrIndex : Fin 4}
    {ranges : List LBIDRange} {r : Reply} {m : SlaveDBRMNode}
    (ran : beginVBCopy cfg transID vbOID dbrIndex ranges n = some (r, m)) (ok : r.code = .ok) :
    getBlocks cfg.vbbmHasher cfg.vssHasher cfg.repSize cfg.fileBlocks
        (BrmTypes.u32 (ranges.map LBIDRange.size).sum) (vbOID.get dbrIndex) n.vss n.vbbm =
      some (.ok r.freeList, m.vss, m.vbbm) := by
  rw [beginVBCopy] at ran
  split at ran
  · cases ran
    cases ok
  split at ran <;> cases ran
  · cases ok
  · assumption

/-- A node is asked twice for 60 blocks of a new file of 100. -/
theorem getBlocks_hands_out_twice :
    ∃ n ranges vss s ranges' vss' s', Reachable exampleConfig n ∧
      getBlocks exampleConfig.vbbmHasher exampleConfig.vssHasher exampleConfig.repSize
        exampleConfig.fileBlocks 60 1 n.vss n.vbbm = some (.ok ranges, vss, s) ∧
      HandsOut 1 100 0 60 ranges ∧
      getBlocks exampleConfig.vbbmHasher exampleConfig.vssHasher exampleConfig.repSize
        exampleConfig.fileBlocks 60 1 vss.confirmChanges s.confirmChanges =
          some (.ok ranges', vss', s') ∧
      ∀ last ∈ ranges.getLast?, ∀ next ∈ ranges'.head?,
        next.vbFBO = (last.vbFBO + last.size) % 100 := by
  let copy : Command := .beginVBCopy 5 (BrmTypes.DBRootsStruct.zero.set 0 1) 0 [⟨7, 60⟩]
  -- a request for no blocks makes the file
  obtain ⟨n, -, reachable, ⟨held, bare⟩, ⟨size, offset⟩, shown⟩ := exists_step 4 (fun n =>
      (Lists 0 n.vss 0 ∧ Lists 0 n.vbbm 0) ∧ ((fileOf exampleConfig.fileBlocks n.vbbm 1).fileSize =
        100 ∧ (fileOf exampleConfig.fileBlocks n.vbbm 1).nextOffset = 0) ∧
      (runBelow 0 exampleConfig copy n).any (fun a => decide (a.1.code = .ok ∧
        (Lists 0 a.2.vss.confirmChanges 0 ∧ Lists 0 a.2.vbbm.confirmChanges 0 ∧
          1 ≤ field a.2.vbbm.confirmChanges .ownCount) ∧
        (runBelow 0 exampleConfig copy ⟨a.2.vss.confirmChanges, a.2.vbbm.confirmChanges⟩).any
          (fun b => decide (b.1.code = .ok)) = true)) = true)
    .initial (by decide +kernel)
    (show (Command.beginVBCopy 5 (BrmTypes.DBRootsStruct.zero.set 0 1) 0 []).real from trivial)
    fun _ => And.intro
  obtain ⟨⟨r, m⟩, once, passes⟩ := (Option.any_eq_true _ _).mp shown
  obtain ⟨ok, ⟨held', bare', known⟩, shown⟩ := of_decide_eq_true passes
  obtain ⟨⟨r', m'⟩, again, passes⟩ := (Option.any_eq_true _ _).mp shown
  have once := run_of_runBelow (reachable_sound reachable) held.1 bare.1 once
  have next : Reachable exampleConfig ⟨m.vss.confirmChanges, m.vbbm.confirmChanges⟩ :=
    reachable.confirmed (c := copy) trivial (runConfirmed_eq once ok)
  have again := run_of_runBelow (reachable_sound next) held'.1 bare'.1 again
  have first := getBlocks_of_beginVBCopy once ok
  have second := getBlocks_of_beginVBCopy again (of_decide_eq_true passes)
  obtain ⟨a, vss, s, done, answer⟩ :=
    getBlocks_hands_out reachable (show 0 < 1 by decide) (show 60 ≤ _ by rw [size]; decide)
  obtain ⟨rfl, rfl, rfl⟩ : a = .ok r.freeList ∧ vss = m.vss ∧ s = m.vbbm := by
    simpa [eq_comm] using first.symm.trans done
  rcases answer with overflow | ⟨ranges, same, right, continues⟩
  · cases overflow
  cases same
  rw [size] at right continues
  rw [offset] at right
  exact ⟨n, _, _, _, _, _, _, reachable, first, right, second,
    continues _ _ _ _ _ next known rfl second⟩

end SlaveNode
