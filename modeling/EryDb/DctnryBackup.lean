import EryDb.BrmTypes

/-!
# Backups of dictionary chunks before a load

`RBMetaWriter` notes the compressed dictionary files a load starts from and backs up the last
chunk of each before the first write to it. The notes are a `std::set` whose comparison looks at
the OID and the segment only, so there is one note for all partitions of a segment, and a call
for another partition takes it out without a backup.
-/

namespace RBMetaWriter

open List
open BrmTypes (DBRootsStruct)

structure RBChunkInfo where
  fOid : Int
  fDbRoot : DBRootsStruct
  fPartition : Nat
  fSegment : Nat
  fHwm : Nat
  deriving DecidableEq

/-- `RBChunkInfoCompare`. -/
def less (lhs rhs : RBChunkInfo) : Bool :=
  if lhs.fOid < rhs.fOid then true
  else if lhs.fOid = rhs.fOid ∧ lhs.fSegment < rhs.fSegment then true
  else false

/-- Neither is less than the other, which is how a `std::set` tells its elements apart. -/
def equivalent (x y : RBChunkInfo) : Bool := !less x y && !less y x

abbrev RBChunkSet := List RBChunkInfo

def find (s : RBChunkSet) (x : RBChunkInfo) : Option RBChunkInfo := s.find? (equivalent x)

def insert (s : RBChunkSet) (x : RBChunkInfo) : RBChunkSet :=
  if (find s x).isSome then s else s ++ [x]

def erase (s : RBChunkSet) (x : RBChunkInfo) : RBChunkSet := s.filter fun y => !equivalent x y

def writeDictionaryStoreMetaData (compressionType : Nat) (s : RBChunkSet)
    (chunkInfo : RBChunkInfo) : RBChunkSet :=
  if compressionType ≠ 0 then insert s chunkInfo else s

/-- The notes after the records of a load. -/
def noted (compressionType : RBChunkInfo → Nat) (records : List RBChunkInfo) : RBChunkSet :=
  records.foldl (fun s r => writeDictionaryStoreMetaData (compressionType r) s r) []

structure Call where
  dctnryOID : Int
  dbRoot : DBRootsStruct
  partition : Nat
  segment : Nat
  deriving DecidableEq

structure HWMChunk where
  call : Call
  startingHWM : Nat
  deriving DecidableEq

structure Backup where
  bBackupApplies : Bool
  chunk : Option HWMChunk
  deriving DecidableEq

def backupDctnryHWMChunk (useHdfs : Bool) (s : RBChunkSet) (c : Call) : Backup × RBChunkSet :=
  match find s ⟨c.dctnryOID, DBRootsStruct.zero, c.partition, c.segment, 0⟩ with
  | none => (⟨false, none⟩, s)
  | some chunkInfoFound =>
    (if chunkInfoFound.fPartition = c.partition then
      ⟨true, if useHdfs then none else some ⟨c, chunkInfoFound.fHwm⟩⟩
    else ⟨false, none⟩, erase s chunkInfoFound)

/-- The notes left by calls. -/
def after (useHdfs : Bool) (s : RBChunkSet) (calls : List Call) : RBChunkSet :=
  calls.foldl (fun s c => (backupDctnryHWMChunk useHdfs s c).2) s

/-- What the comparison looks at. -/
def RBChunkInfo.file (r : RBChunkInfo) : Int × Nat := (r.fOid, r.fSegment)

def Call.file (c : Call) : Int × Nat := (c.dctnryOID, c.segment)

def RBChunkInfo.key (r : RBChunkInfo) : Int × Nat × Nat := (r.fOid, r.fPartition, r.fSegment)

def Call.key (c : Call) : Int × Nat × Nat := (c.dctnryOID, c.partition, c.segment)

/-- The first record of a segment of a dictionary. -/
def firstOf (records : List RBChunkInfo) (file : Int × Nat) : Option RBChunkInfo :=
  records.find? fun r => r.file = file

variable {records : List RBChunkInfo} {s : RBChunkSet} {x y r : RBChunkInfo} {c : Call}
  {useHdfs : Bool} {file : Int × Nat}

lemma equivalent_eq (x y : RBChunkInfo) : equivalent x y = decide (y.file = x.file) := by
  simp only [equivalent, less, RBChunkInfo.file, Prod.mk.injEq]
  split_ifs <;> simp <;> omega

lemma find_eq (s : RBChunkSet) (x : RBChunkInfo) : find s x = firstOf s x.file := by
  rw [find, funext (equivalent_eq x)]
  rfl

lemma file_of_firstOf (hf : firstOf records file = some r) : r.file = file := by
  simpa using find?_some hf

lemma firstOf_insert (s : RBChunkSet) (x : RBChunkInfo) (file : Int × Nat) :
    firstOf (insert s x) file = (firstOf s file).or (firstOf [x] file) := by
  rw [insert, find_eq]
  split
  · rename_i known
    by_cases he : x.file = file
    · obtain ⟨y, hy⟩ := Option.isSome_iff_exists.mp known
      rw [he] at hy
      rw [hy, Option.some_or]
    · have none : firstOf [x] file = none := by simp [firstOf, he]
      rw [none, Option.or_none]
  · exact find?_append

lemma firstOf_noted {compressionType : RBChunkInfo → Nat}
    (hc : ∀ r ∈ records, compressionType r ≠ 0) (file : Int × Nat) :
    firstOf (noted compressionType records) file = firstOf records file := by
  induction records using reverseRecOn with
  | nil => rfl
  | append_singleton front r ih =>
    have last : compressionType r ≠ 0 := hc r (by simp)
    rw [noted, foldl_append, foldl_cons, foldl_nil, ← noted, writeDictionaryStoreMetaData,
      if_pos last, firstOf_insert, ih fun q hq => hc q (mem_append_left _ hq)]
    exact find?_append.symm

/-- A call takes out whatever is noted for its segment. -/
lemma firstOf_call (useHdfs : Bool) (s : RBChunkSet) (c : Call) (file : Int × Nat) :
    firstOf (backupDctnryHWMChunk useHdfs s c).2 file =
      if c.file = file then none else firstOf s file := by
  simp only [backupDctnryHWMChunk, find_eq]
  split
  · rename_i none
    split
    · rename_i he
      rw [← he]
      exact none
    · rfl
  · rename_i found some
    have same : found.file = c.file := file_of_firstOf some
    simp only [firstOf, erase, equivalent_eq, find?_filter, same]
    split
    · rename_i he
      simp [he]
    rename_i ho
    congr 1
    funext y
    by_cases hy : y.file = file
    · simp [hy, Ne.symm ho]
    · simp [hy]

lemma firstOf_after (useHdfs : Bool) (s : RBChunkSet) (calls : List Call) (file : Int × Nat) :
    firstOf (after useHdfs s calls) file =
      if ∃ c ∈ calls, c.file = file then none else firstOf s file := by
  induction calls generalizing s with
  | nil => simp [after]
  | cons c calls ih =>
    rw [after, foldl_cons, ← after, ih, firstOf_call]
    by_cases he : c.file = file <;> simp [he]

/-- A call backs up the chunk of a record if it is the first of its segment, and no call before
was for that segment. -/
lemma backup_iff {compressionType : RBChunkInfo → Nat}
    (hc : ∀ r ∈ records, compressionType r ≠ 0) (hd : (records.map RBChunkInfo.key).Nodup)
    (hm : r ∈ records) (he : r.key = c.key) (before : List Call) :
    (backupDctnryHWMChunk false (after false (noted compressionType records) before) c).1 =
        ⟨true, some ⟨c, r.fHwm⟩⟩ ↔
      firstOf records r.file = some r ∧ ∀ d ∈ before, d.file ≠ r.file := by
  have file : r.file = c.file := by
    simp only [RBChunkInfo.key, Call.key, Prod.mk.injEq] at he
    exact Prod.ext he.1 he.2.2
  simp only [backupDctnryHWMChunk, find_eq, firstOf_after, firstOf_noted hc, file]
  change (match (if ∃ d ∈ before, d.file = c.file then none else firstOf records c.file) with
    | none => _ | some _ => _ : Backup × RBChunkSet).1 = _ ↔ _
  by_cases asked : ∃ d ∈ before, d.file = c.file
  · obtain ⟨d, hd, hf⟩ := asked
    rw [if_pos ⟨d, hd, hf⟩]
    simp only [Backup.mk.injEq, Bool.false_eq_true, false_and, false_iff, not_and]
    exact fun _ free => free d hd hf
  rw [if_neg asked]
  push Not at asked
  cases first : firstOf records c.file with
  | none => simp
  | some q =>
    have hq : q.file = c.file := file_of_firstOf first
    simp only [Option.some.injEq]
    constructor
    · intro made
      split at made
      · rename_i part
        have same : q.key = r.key := by
          rw [he]
          simp only [RBChunkInfo.file, Call.file, Prod.mk.injEq] at hq
          exact Prod.ext hq.1 (Prod.ext part hq.2)
        exact ⟨inj_on_of_nodup_map hd (mem_of_find?_eq_some first) hm same, asked⟩
      · simp at made
    · rintro ⟨rfl, -⟩
      have part : q.fPartition = c.partition := congrArg (fun k => k.2.1) he
      rw [if_pos part]
      rfl

/-- At the first call for each recorded file, with the calls before it. -/
def AtFirstCalls (records : List RBChunkInfo) (calls : List Call)
    (P : List Call → Call → RBChunkInfo → Prop) : Prop :=
  ∀ before c later, calls = before ++ c :: later → ∀ r ∈ records, r.key = c.key →
    (∀ d ∈ before, d.key ≠ c.key) → P before c r

/-- In every sequence of calls the first one for a recorded file backs up its chunk, exactly if
the file is the first one recorded of its segment and no call before was for that segment. -/
theorem first_call_backs_up (compressionType : RBChunkInfo → Nat) (records : List RBChunkInfo)
    (hc : ∀ r ∈ records, compressionType r ≠ 0) (hd : (records.map RBChunkInfo.key).Nodup)
    (calls : List Call) :
    AtFirstCalls records calls (fun before c r =>
        (backupDctnryHWMChunk false (after false (noted compressionType records) before) c).1 =
          ⟨true, some ⟨c, r.fHwm⟩⟩) ↔
      AtFirstCalls records calls fun before _ r =>
        firstOf records r.file = some r ∧ ∀ d ∈ before, d.file ≠ r.file := by
  refine forall_congr' fun before => forall_congr' fun c => forall_congr' fun later =>
    forall_congr' fun _ => forall_congr' fun r => forall_congr' fun hm => forall_congr' fun he =>
      forall_congr' fun _ => backup_iff hc hd hm he before

def chunkAt (partition : Nat) : RBChunkInfo := ⟨3001, DBRootsStruct.zero, partition, 0, 7⟩

def callFor (partition : Nat) : Call := ⟨3001, DBRootsStruct.zero, partition, 0⟩

/-- Two segments are recorded; the call for one of them does not touch the note of the other. -/
theorem first_call_backs_up_segments :
    (backupDctnryHWMChunk false (after false (noted (fun _ => 1) [chunkAt 0,
      ⟨3001, DBRootsStruct.zero, 0, 1, 9⟩]) [⟨3001, DBRootsStruct.zero, 0, 1⟩]) (callFor 0)).1 =
      ⟨true, some ⟨callFor 0, 7⟩⟩ := by
  refine (first_call_backs_up (fun _ => 1) _ (by simp) (by decide)
    [⟨3001, DBRootsStruct.zero, 0, 1⟩, callFor 0]).mpr ?_ [⟨3001, DBRootsStruct.zero, 0, 1⟩]
      (callFor 0) [] rfl (chunkAt 0) (by simp) rfl (by decide)
  rintro before c later split r member same -
  obtain rfl | rfl : r = chunkAt 0 ∨ r = ⟨3001, DBRootsStruct.zero, 0, 1, 9⟩ := by
    simpa using member
  all_goals refine ⟨by decide, ?_⟩
  all_goals rcases before with _ | ⟨d, _ | ⟨d', before⟩⟩
  all_goals simp at split
  all_goals obtain ⟨rfl, rfl, -⟩ := split
  all_goals first | decide | exact absurd same (by decide)

/-- The call for partition 1 takes out the note of partition 0, which is then written without a
backup. -/
theorem note_of_other_partition_lost :
    (backupDctnryHWMChunk false (after false (noted (fun _ => 1) [chunkAt 0]) [callFor 1])
      (callFor 0)).1 = ⟨false, none⟩ := by
  decide

end RBMetaWriter
