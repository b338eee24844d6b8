import EryDb.KeyedMap
import EryDb.ByteStream

/-!
# Table locks and their save file

`TableLockServer` keeps the held locks in a map by id and rewrites its save file after
every edit. The stream is looked at before each lock is written, so a write that fails
while the last lock is written goes unnoticed, and so does what the stream still has in its
buffer when it is closed. On HDFS the look is at a pointer, and no failed write is noticed. A
call that changes nothing does not write at all, also when the file was left incomplete by a
call that threw.
-/

namespace TableLocks

open KeyedMap (entries_insert_new find_eq_none find_eq_some insert_erase insert_insert mem_erase
  mem_insert mem_values)
open Option (map_eq_some_iff map_some)
open List LittleEndian MessageQueue KeyedMap

inductive LockState where
  | loading
  | cleanup
  deriving DecidableEq

def LockState.code : LockState → Nat
  | .loading => 0
  | .cleanup => 1

/-- No other codes are ever written. -/
def LockState.ofCode (n : Nat) : LockState := if n = 0 then .loading else .cleanup

/-- Session and transaction are `int32_t` and the creation time is a `time_t`; all three are kept
as their bits. -/
structure TableLockInfo where
  id : Nat
  tableOID : UInt32
  ownerName : List Byte
  ownerPID : UInt32
  ownerSessionID : UInt32
  ownerTxnID : UInt32
  state : LockState
  creationTime : UInt64
  dbrootList : List UInt16
  deriving DecidableEq

def TableLockInfo.overlaps (held t : TableLockInfo) : Bool :=
  decide (held.tableOID = t.tableOID) && held.dbrootList.any
    (fun root => decide (root ∈ t.dbrootList))

/-- Each DBRoot is two bytes in memory but four are written: those of the next one follow, and
behind the last one whatever lies there. -/
def rootWrites (slack : UInt16) : List UInt16 → List (List Byte)
  | [] => []
  | [root] => [write 2 root.toNat ++ write 2 slack.toNat]
  | root :: next :: rest =>
    (write 2 root.toNat ++ write 2 next.toNat) :: rootWrites slack (next :: rest)

/-- The writes of `serialize`, one list of bytes for each. -/
def TableLockInfo.writes (slack : UInt16) (t : TableLockInfo) : List (List Byte) :=
  let nameLen := t.ownerName.length % 2 ^ 16
  let dbrootListSize := t.dbrootList.length % 2 ^ 16
  [write 8 t.id, write 4 t.tableOID.toNat, write 4 t.ownerPID.toNat, write 4 t.state.code,
    write 4 t.ownerSessionID.toNat, write 4 t.ownerTxnID.toNat, write 8 t.creationTime.toNat,
    write 2 nameLen, t.ownerName.take nameLen, write 2 dbrootListSize] ++
    (rootWrites slack t.dbrootList).take dbrootListSize

def getBytes (n : Nat) : Get (List Byte) := fun msg =>
  if msg.length < n then none else some (msg.take n, msg.drop n)

/-- Only the first two of the four bytes read for a DBRoot stay. -/
def getRoot : Get UInt16 := UInt16.ofNat <$> getNat 4

def deserialize : Get TableLockInfo := do
  let id ← getNat 8
  let tableOID ← getU32
  let ownerPID ← getU32
  let state ← LockState.ofCode <$> getNat 4
  let ownerSessionID ← getU32
  let ownerTxnID ← getU32
  let creationTime ← getU64
  let nameLen ← getNat 2
  let ownerName ← getBytes nameLen
  let dbrootListSize ← getNat 2
  let dbrootList ← getRecords getRoot dbrootListSize
  pure ⟨id, tableOID, ownerName, ownerPID, ownerSessionID, ownerTxnID, state, creationTime,
    dbrootList⟩

/-- Where the save file lies: on HDFS, or behind an `ofstream` whose buffer has room for some
bytes. The slack is what lies in memory behind the last DBRoot of a lock. -/
structure Medium where
  useHdfs : Bool
  room : Nat
  slack : UInt16

/-- An output stream: what is in the file and in the buffer, how many writes are left until one
fails and how many bytes that one gets through, and whether the stream knows of a failure. -/
structure OutStream where
  file : List Byte
  buffer : List Byte
  fault : Option (Nat × Nat)
  bad : Bool

def later : Nat × Nat → Option (Nat × Nat)
  | (0, _) => none
  | (n + 1, kept) => some (n, kept)

/-- Data that fits stays in the buffer; other data is passed on to the file, together with what is
in the buffer. On HDFS there is no buffer and no state of the stream. -/
def OutStream.write (m : Medium) (o : OutStream) (data : List Byte) : OutStream :=
  if o.bad then o
  else if m.useHdfs = false ∧ o.buffer.length + data.length < m.room then
    { o with buffer := o.buffer ++ data, fault := o.fault.bind later }
  else match o.fault with
    | some (0, kept) =>
      ⟨o.file ++ (o.buffer ++ data).take kept, o.buffer, none, !m.useHdfs⟩
    | fault => ⟨o.file ++ o.buffer ++ data, [], fault.bind later, false⟩

def OutStream.writeAll (m : Medium) (o : OutStream) (data : List (List Byte)) : OutStream :=
  data.foldl (OutStream.write m) o

lemma OutStream.writeAll_cons (m : Medium) (o : OutStream) (d : List Byte)
    (data : List (List Byte)) : o.writeAll m (d :: data) = (o.write m d).writeAll m data := rfl

/-- The file once the destructor has passed on the buffer, or as much of it as gets through. -/
def OutStream.close (o : OutStream) : Option Nat → List Byte
  | none => o.file ++ o.buffer
  | some kept => o.file ++ o.buffer.take kept

/-- `false` when the loop throws. -/
def saveLoop (m : Medium) : List TableLockInfo → OutStream → Bool × OutStream
  | [], o => (true, o)
  | t :: rest, o => if o.bad then (false, o) else saveLoop m rest (o.writeAll m (t.writes m.slack))

inductive Fault where
  | none
  | opening
  | writing (index kept : Nat)
  | closing (kept : Nat)

abbrev Locks := KeyedMap Nat TableLockInfo

def openStream (fault : Option (Nat × Nat)) : OutStream := ⟨[], [], fault, false⟩

def saveTo (m : Medium) (locks : Locks) (fault : Option (Nat × Nat)) : Bool × OutStream :=
  saveLoop m locks.values
    ((openStream fault).write m (LittleEndian.write 4 (locks.entries.length % 2 ^ 32)))

/-- `false` when it throws, and the file it leaves. -/
def save (m : Medium) (locks : Locks) (fault : Fault) (file : Option (List Byte)) :
    Bool × Option (List Byte) :=
  match fault with
  | .opening => (false, file)
  | .none => ((saveTo m locks none).1, some ((saveTo m locks none).2.close none))
  | .writing index kept => ((saveTo m locks (some (index, kept))).1,
      some ((saveTo m locks (some (index, kept))).2.close none))
  | .closing kept => ((saveTo m locks none).1, some ((saveTo m locks none).2.close (some kept)))

/-- `getUnique64`, called again when it gives 0: the id, which is also the counter. -/
def newId (unique64 : Nat) : Nat :=
  let id := (unique64 + 1) % 2 ^ 64
  if id = 0 then (id + 1) % 2 ^ 64 else id

def loadLoop : Nat → Locks × Nat → Get (Locks × Nat)
  | 0, loaded => pure loaded
  | n + 1, loaded => do
      let tli ← deserialize
      let id := newId loaded.2
      loadLoop n (loaded.1.insert id { tli with id := id }, id)

/-- `none` when it throws; a file that cannot be opened gives no locks. On HDFS a short read does
not throw and leaves the lock with whatever it held: `none` stands for that too. -/
def load (file : Option (List Byte)) (unique64 : Nat) : Option (Locks × Nat) :=
  match file with
  | none => some (empty, unique64)
  | some bytes => ((do
      let size ← getNat 4
      loadLoop size (empty, unique64) : Get (Locks × Nat)) bytes).map Prod.fst

structure TableLockServer where
  locks : Locks
  file : Option (List Byte)
  unique64 : Nat

section Calls

variable (m : Medium)

/-- Save the edited locks; if that throws, take the edit back and throw. -/
def commit (edited : Locks) (undo : Locks → Locks) (answer : Nat) (fault : Fault)
    (s : TableLockServer) : Option Nat × TableLockServer :=
  if (save m edited fault s.file).1 then
    (some answer, { s with locks := edited, file := (save m edited fault s.file).2 })
  else (none, { s with locks := undo edited, file := (save m edited fault s.file).2 })

/-- Zero when a held lock overlaps. -/
def lock (tli : TableLockInfo) (fault : Fault) (s : TableLockServer) :
    Option Nat × TableLockServer :=
  if s.locks.values.any (fun held => held.overlaps tli) then (some 0, s)
  else
    let id := newId s.unique64
    commit m (s.locks.insert id { tli with id := id }) (fun locks => locks.erase id) id fault
      { s with unique64 := id }

def unlock (id : Nat) (fault : Fault) (s : TableLockServer) : Option Nat × TableLockServer :=
  match s.locks.find id with
  | some tli => commit m (s.locks.erase id) (fun locks => locks.insert tli.id tli) 1 fault s
  | none => (some 0, s)

def changeState (id : Nat) (state : LockState) (fault : Fault) (s : TableLockServer) :
    Option Nat × TableLockServer :=
  match s.locks.find id with
  | none => (some 0, s)
  | some tli =>
    commit m (s.locks.insert id { tli with state := state })
      (fun locks => locks.insert id { tli with state := tli.state }) 1 fault s

def changeOwner (id : Nat) (ownerName : List Byte) (pid session txnID : UInt32) (fault : Fault)
    (s : TableLockServer) : Option Nat × TableLockServer :=
  match s.locks.find id with
  | none => (some 0, s)
  | some tli =>
    commit m (s.locks.insert id { tli with
        ownerName := ownerName, ownerPID := pid, ownerSessionID := session
        ownerTxnID := txnID })
      (fun locks => locks.insert id { tli with
        ownerName := tli.ownerName, ownerPID := tli.ownerPID
        ownerSessionID := tli.ownerSessionID, ownerTxnID := tli.ownerTxnID }) 1 fault s

end Calls

inductive Call where
  | lock (tli : TableLockInfo)
  | unlock (id : Nat)
  | changeState (id : Nat) (state : LockState)
  | changeOwner (id : Nat) (ownerName : List Byte) (pid session txnID : UInt32)

def Call.run (m : Medium) (fault : Fault) : Call → TableLockServer → Option Nat × TableLockServer
  | .lock tli => TableLocks.lock m tli fault
  | .unlock id => TableLocks.unlock m id fault
  | .changeState id state => TableLocks.changeState m id state fault
  | .changeOwner id ownerName pid session txnID =>
    TableLocks.changeOwner m id ownerName pid session txnID fault

section Reading

variable {slack : UInt16} {t : TableLockInfo}

lemma reads_bytes {bytes : List Byte} {k : Nat} (length : bytes.length = k) :
    Reads (getNat k) bytes (read bytes) := by
  intro rest
  rw [getNat, if_neg (by simp [length]), take_left' length, drop_left' length]

lemma reads_getBytes {bytes : List Byte} {k : Nat} (length : bytes.length = k) :
    Reads (getBytes k) bytes bytes := by
  intro rest
  rw [getBytes, if_neg (by simp [length]), take_left' length, drop_left' length]

lemma reads_getRoot (root next : UInt16) :
    Reads getRoot (write 2 root.toNat ++ write 2 next.toNat) root := by
  have bytes :=
    (@reads_bytes (write 2 root.toNat ++ write 2 next.toNat) 4 (by simp)).map UInt16.ofNat
  have hsm : root.toNat < 256 ^ 2 := root.toNat_lt
  rw [read_append, read_write hsm, read_write next.toNat_lt, length_write] at bytes
  have he : UInt16.ofNat (root.toNat + 256 ^ 2 * next.toNat) = root := by
    apply UInt16.toNat_inj.mp
    rw [UInt16.toNat_ofNat']
    omega
  rwa [he] at bytes

lemma reads_roots (slack : UInt16) (roots : List UInt16) :
    Reads (getRecords getRoot roots.length) (rootWrites slack roots).flatten roots := by
  induction roots using rootWrites.induct with
  | case1 => exact reads_pure []
  | case2 root => exact (reads_getRoot root slack).bind ((reads_pure []).last (root :: ·))
  | case3 root next rest ih => exact (reads_getRoot root next).bind (ih.last (root :: ·))

lemma length_rootWrites (slack : UInt16) (roots : List UInt16) :
    (rootWrites slack roots).length = roots.length := by
  induction roots using rootWrites.induct with
  | case1 => rfl
  | case2 root => rfl
  | case3 root next rest ih => simp [rootWrites, ih]

lemma ofCode_code (state : LockState) : LockState.ofCode state.code = state := by
  cases state <;> rfl

/-- What fits the fields of the save file. -/
structure TableLockInfo.Fits (t : TableLockInfo) : Prop where
  id : t.id < 2 ^ 64
  name : t.ownerName.length < 2 ^ 16
  roots : t.dbrootList.length < 2 ^ 16

lemma reads_deserialize (fits : t.Fits) : Reads deserialize (t.writes slack).flatten t := by
  have name : t.ownerName.length % 2 ^ 16 = t.ownerName.length := Nat.mod_eq_of_lt fits.name
  have roots : t.dbrootList.length % 2 ^ 16 = t.dbrootList.length := Nat.mod_eq_of_lt fits.roots
  have state : Reads (LockState.ofCode <$> getNat 4) (write 4 t.state.code) t.state := by
    have hsm : t.state.code < 256 ^ 4 := by cases t.state <;> decide
    have code := (reads_getNat hsm).map LockState.ofCode
    rwa [ofCode_code] at code
  have list := (reads_roots slack t.dbrootList).last fun dbrootList =>
    (⟨t.id, t.tableOID, t.ownerName, t.ownerPID, t.ownerSessionID, t.ownerTxnID, t.state,
      t.creationTime, dbrootList⟩ : TableLockInfo)
  have idBytes : t.id < 256 ^ 8 := fits.id.trans_eq (by norm_num)
  have nameBytes : t.ownerName.length < 256 ^ 2 := fits.name.trans_eq (by norm_num)
  have listBytes : t.dbrootList.length < 256 ^ 2 := fits.roots.trans_eq (by norm_num)
  simp only [TableLockInfo.writes, name, roots, take_length, flatten_append,
    flatten_cons, flatten_nil, append_nil, append_assoc,
    take_of_length_le (length_rootWrites slack t.dbrootList).le]
  unfold deserialize
  refine (reads_getNat idBytes).bind ?_
  refine (reads_getU32 t.tableOID).bind ?_
  refine (reads_getU32 t.ownerPID).bind ?_
  refine state.bind ?_
  refine (reads_getU32 t.ownerSessionID).bind ?_
  refine (reads_getU32 t.ownerTxnID).bind ?_
  refine (reads_getU64 t.creationTime).bind ?_
  refine (reads_getNat nameBytes).bind ?_
  refine (reads_getBytes rfl).bind ?_
  refine (reads_getNat listBytes).bind ?_
  exact list

end Reading

section Saving

variable {m : Medium} {o : OutStream} {data : List (List Byte)}

/-- What has been written so far, if nothing has failed. -/
def OutStream.stored (o : OutStream) : List Byte := o.file ++ o.buffer

lemma later_eq_some {fault : Option (Nat × Nat)} {n kept : Nat}
    (left : fault.bind later = some (n, kept)) : fault = some (n + 1, kept) := by
  obtain ⟨⟨_ | k, kept'⟩, isFault, counted⟩ := Option.bind_eq_some_iff.mp left
  · cases counted
  · cases counted
    exact isFault

/-- A write gets through, or it is the one that fails. -/
lemma write_cases (good : o.bad = false) (d : List Byte) :
    ((o.write m d).stored = o.stored ++ d ∧ (o.write m d).bad = false ∧
        (o.write m d).fault = o.fault.bind later) ∨
      (∃ kept, o.fault = some (0, kept)) ∧ (m.useHdfs = false → (o.write m d).bad = true) := by
  rw [OutStream.write, if_neg (by simp [good])]
  split_ifs with fits
  · exact .inl ⟨by simp [OutStream.stored], good, rfl⟩
  split
  · rename_i kept fault
    exact .inr ⟨⟨kept, fault⟩, fun onDisk => by simp [onDisk]⟩
  · exact .inl ⟨by simp [OutStream.stored], rfl, rfl⟩

lemma writeAll_bad (bad : o.bad = true) : o.writeAll m data = o := by
  induction data with
  | nil => rfl
  | cons d data ih =>
    have unchanged : o.write m d = o := by simp [OutStream.write, bad]
    rwa [OutStream.writeAll_cons, unchanged]

lemma writeAll_cases (good : o.bad = false) :
    ((o.writeAll m data).stored = o.stored ++ data.flatten ∧ (o.writeAll m data).bad = false ∧
        ∀ n kept, (o.writeAll m data).fault = some (n, kept) →
          o.fault = some (n + data.length, kept)) ∨
      (∃ n kept, o.fault = some (n, kept) ∧ n < data.length) ∧
        (m.useHdfs = false → (o.writeAll m data).bad = true) := by
  induction data generalizing o with
  | nil => exact .inl ⟨by simp [OutStream.writeAll], good, fun _ _ fault => fault⟩
  | cons d data ih =>
    rw [OutStream.writeAll_cons]
    rcases write_cases (m := m) good d with ⟨stored, good', fault'⟩ | ⟨⟨kept, fault⟩, noticed⟩
    · rcases ih good' with ⟨all, good'', last⟩ | ⟨⟨n, kept, fault, bound⟩, noticed⟩
      · refine .inl ⟨by rw [all, stored, flatten_cons, append_assoc], good'', fun n kept left => ?_⟩
        exact later_eq_some (fault' ▸ last n kept left)
      · exact .inr ⟨⟨n + 1, kept, later_eq_some (fault' ▸ fault), by simpa using bound⟩, noticed⟩
    · refine .inr ⟨⟨0, kept, fault, by simp⟩, fun onDisk => ?_⟩
      rw [writeAll_bad (noticed onDisk)]
      exact noticed onDisk

/-- How many writes the locks take. -/
def writeCount (slack : UInt16) (held : List TableLockInfo) : Nat :=
  (held.map (fun t => (t.writes slack).length)).sum

def saveData (slack : UInt16) (held : List TableLockInfo) : List Byte :=
  held.flatMap (fun t => (t.writes slack).flatten)

/-- A save that returns has written everything, unless the write that failed belongs to the last
lock, behind the last look at the stream, or no look can see it. -/
lemma saveLoop_complete {held : List TableLockInfo} (good : o.bad = false)
    (seen : ∀ n kept, o.fault = some (n, kept) →
      m.useHdfs = false ∧ n < writeCount m.slack held.dropLast ∨ writeCount m.slack held ≤ n)
    (returned : (saveLoop m held o).1 = true) :
    (saveLoop m held o).2.stored = o.stored ++ saveData m.slack held := by
  induction held generalizing o with
  | nil => simp [saveLoop, saveData]
  | cons t rest ih =>
    rw [saveLoop, if_neg (by simp [good])] at returned ⊢
    rcases @writeAll_cases m o (t.writes m.slack) good with
      ⟨stored, good', last⟩ | ⟨⟨n, kept, fault, bound⟩, noticed⟩
    · rw [ih good' ?_ returned, stored, append_assoc]
      · rfl
      intro n kept left
      have placed := seen _ kept (last n kept left)
      cases rest with
      | nil => exact .inr (Nat.zero_le n)
      | cons t' rest =>
        rw [dropLast_cons_cons] at placed
        simp only [writeCount, map_cons, sum_cons] at placed ⊢
        exact placed.imp (And.imp_right fun _ => by omega) fun _ => by omega
    · -- The failed write is one of this lock, and the next look at the stream sees it.
      rcases seen n kept fault with ⟨onDisk, before⟩ | behind
      · cases rest with
        | nil => simp [writeCount] at before
        | cons t' rest =>
          rw [saveLoop, if_pos (noticed onDisk)] at returned
          cases returned
      · simp only [writeCount, map_cons, sum_cons] at behind
        omega

/-- No write fails, or one that is looked at. -/
def Detected (m : Medium) (held : List TableLockInfo) : Fault → Prop
  | .writing index _ =>
    m.useHdfs = false ∧ held ≠ [] ∧ index ≤ writeCount m.slack held.dropLast ∨
      writeCount m.slack held < index
  | .closing _ => False
  | _ => True

lemma saveTo_complete {locks : Locks} {fault : Option (Nat × Nat)}
    (seen : ∀ index kept, fault = some (index, kept) →
      m.useHdfs = false ∧ locks.values ≠ [] ∧ index ≤ writeCount m.slack locks.values.dropLast ∨
        writeCount m.slack locks.values < index)
    (returned : (saveTo m locks fault).1 = true) : (saveTo m locks fault).2.stored =
      write 4 (locks.entries.length % 2 ^ 32) ++ saveData m.slack locks.values := by
  unfold saveTo at returned ⊢
  rcases write_cases (m := m) (o := openStream fault) rfl
    (LittleEndian.write 4 (locks.entries.length % 2 ^ 32)) with
      ⟨stored, good, fault'⟩ | ⟨⟨kept, isFault⟩, noticed⟩
  · rw [saveLoop_complete good ?_ returned, stored]
    · rfl
    intro n kept left
    exact (seen (n + 1) kept (later_eq_some (fault' ▸ left))).imp
      (fun ⟨onDisk, _, before⟩ => ⟨onDisk, before⟩) Nat.le_of_lt_succ
  · rcases seen 0 kept isFault with ⟨onDisk, some, -⟩ | none
    · obtain ⟨t, rest, held⟩ := exists_cons_of_ne_nil some
      rw [held, saveLoop, if_pos (noticed onDisk)] at returned
      cases returned
    · omega

lemma save_complete {locks : Locks} {fault : Fault} {file : Option (List Byte)}
    (detected : Detected m locks.values fault)
    (returned : (save m locks fault file).1 = true) : (save m locks fault file).2 =
      some (write 4 (locks.entries.length % 2 ^ 32) ++ saveData m.slack locks.values) := by
  cases fault with
  | opening => simp [save] at returned
  | closing kept => exact detected.elim
  | none => exact congrArg some (saveTo_complete (by simp) returned)
  | writing index kept =>
    refine congrArg some (saveTo_complete (fun n k same => ?_) returned)
    cases same
    exact detected

end Saving

section Loading

variable {slack : UInt16}

variable (unique64 : Nat)

/-- Ids run through 1 to 2^64 - 1 and start over. -/
lemma newId_eq : newId unique64 = unique64 % 2 ^ 64 % (2 ^ 64 - 1) + 1 := by
  simp only [newId]
  split <;> omega

lemma newId_lt : newId unique64 < 2 ^ 64 := by
  rw [newId_eq]
  omega

lemma newId_iterate (k : Nat) :
    newId^[k + 1] unique64 = (unique64 % 2 ^ 64 + k) % (2 ^ 64 - 1) + 1 := by
  induction k with
  | zero => simpa using newId_eq unique64
  | succ k ih =>
    rw [Function.iterate_succ_apply', ih, newId_eq]
    omega

lemma newId_iterate_ne {j : Nat} (few : j + 1 < 2 ^ 64 - 1) :
    newId^[j + 2] unique64 ≠ newId unique64 := by
  have first := newId_iterate unique64 0
  have later := newId_iterate unique64 (j + 1)
  rw [Function.iterate_one] at first
  rw [later, first]
  omega

/-- The locks of a file, each under a new id. -/
def adopt (held : List TableLockInfo) (start : Locks × Nat) : Locks × Nat :=
  held.foldl (fun loaded t =>
    (loaded.1.insert (newId loaded.2) { t with id := newId loaded.2 }, newId loaded.2)) start

variable {held : List TableLockInfo}

lemma reads_loadLoop (fits : ∀ t ∈ held, t.Fits) (start : Locks × Nat) :
    Reads (loadLoop held.length start) (saveData slack held) (adopt held start) := by
  induction held generalizing start with
  | nil => exact reads_pure start
  | cons t rest ih =>
    exact (reads_deserialize (fits t mem_cons_self)).bind
      (ih (fun t hm => fits t (mem_cons_of_mem _ hm)) _)

/-- A lock apart from its id. -/
def TableLockInfo.body (t : TableLockInfo) : TableLockInfo := { t with id := 0 }

lemma adopt_bodies {m : Locks} {unique64 : Nat} (few : held.length < 2 ^ 64 - 1)
    (hun : ∀ j, j < held.length → m.find (newId^[j + 1] unique64) = none) :
    ((adopt held (m, unique64)).1.values.map TableLockInfo.body).Perm
      (held.map TableLockInfo.body ++ m.values.map TableLockInfo.body) := by
  induction held generalizing m unique64 with
  | nil => simp [adopt]
  | cons t rest ih =>
    rw [length_cons] at few
    have fresh : m.find (newId unique64) = none := hun 0 (by simp)
    have later := @ih (m.insert (newId unique64) { t with id := newId unique64 })
      (newId unique64) (by omega) (fun j hi => ?_)
    · refine later.trans ?_
      rw [map_cons]
      refine (((values_insert_new fresh).map _).append_left _).trans ?_
      rw [map_cons]
      exact perm_middle
    have hab := hun (j + 1) (by simpa using hi)
    rw [← Function.iterate_succ_apply newId (j + 1) unique64, find_eq_none]
    intro v hm
    rw [mem_insert] at hm
    rcases hm with he | ⟨old, -⟩
    · exact newId_iterate_ne unique64 (by omega) (Prod.mk.inj he).1
    · exact find_eq_none.mp hab v old

lemma adopt_keyed {start : Locks × Nat}
    (keyed : ∀ x ∈ start.1.entries, x.2.id = x.1 ∧ x.1 < 2 ^ 64) :
    ∀ x ∈ (adopt held start).1.entries, x.2.id = x.1 ∧ x.1 < 2 ^ 64 := by
  induction held generalizing start with
  | nil => exact keyed
  | cons t rest ih =>
    refine ih fun x hm => ?_
    rcases mem_insert.mp hm with rfl | ⟨old, -⟩
    · exact ⟨rfl, newId_lt _⟩
    · exact keyed x old

/-- What is held can be written to the file and read back. -/
structure Storable (locks : Locks) : Prop where
  keyed : ∀ x ∈ locks.entries, x.2.id = x.1 ∧ x.1 < 2 ^ 64
  names : ∀ x ∈ locks.entries, x.2.ownerName.length < 2 ^ 16
  roots : ∀ x ∈ locks.entries, x.2.dbrootList.length < 2 ^ 16
  few : locks.entries.length < 2 ^ 32

lemma Storable.fits {locks : Locks} (hsto : Storable locks) : ∀ t ∈ locks.values, t.Fits := by
  intro t hm
  obtain ⟨k, hm⟩ := mem_values.mp hm
  obtain ⟨he, hsm⟩ := hsto.keyed _ hm
  exact ⟨he ▸ hsm, hsto.names _ hm, hsto.roots _ hm⟩

/-- A restarted server has the same locks under other ids. -/
def Rebuilds (s : TableLockServer) : Prop :=
  ∀ unique64, ∃ loaded, load s.file unique64 = some loaded ∧
    (∀ x ∈ loaded.1.entries, x.2.id = x.1 ∧ x.1 < 2 ^ 64) ∧
    (loaded.1.values.map TableLockInfo.body).Perm (s.locks.values.map TableLockInfo.body)

lemma rebuilds_of_complete {s : TableLockServer} (hsto : Storable s.locks)
    (hcm : s.file = some (write 4 (s.locks.entries.length % 2 ^ 32) ++
      saveData slack s.locks.values)) : Rebuilds s := by
  intro unique64
  have length : s.locks.values.length = s.locks.entries.length := by simp [values]
  have count : s.locks.entries.length % 2 ^ 32 = s.locks.values.length := by
    rw [length, Nat.mod_eq_of_lt hsto.few]
  have few : s.locks.values.length < 256 ^ 4 := by
    rw [length]
    exact hsto.few.trans_eq (by norm_num)
  have read : Reads (do
      let size ← getNat 4
      loadLoop size (empty, unique64))
      (write 4 s.locks.values.length ++ saveData slack s.locks.values)
      (adopt s.locks.values (empty, unique64)) :=
    (reads_getNat few).bind (reads_loadLoop hsto.fits _)
  have read := read []
  rw [append_nil, ← count] at read
  refine ⟨adopt s.locks.values (empty, unique64), ?_, adopt_keyed (by simp [empty]),
    ?_⟩
  · simp only [load, hcm]
    exact congrArg (Option.map Prod.fst) read
  · have bodies := @adopt_bodies s.locks.values empty unique64
      (by rw [length]; have := hsto.few; omega) (fun j _ => rfl)
    simpa [values, empty] using bodies

end Loading

section Steps

variable {m : Medium} {s : TableLockServer}

/-- The locks the call saves, if it changes anything. -/
def Call.edit (s : TableLockServer) : Call → Option Locks
  | .lock tli =>
    if s.locks.values.any (fun held => held.overlaps tli) then none
    else some (s.locks.insert (newId s.unique64) { tli with id := newId s.unique64 })
  | .unlock id => (s.locks.find id).map fun _ => s.locks.erase id
  | .changeState id state =>
    (s.locks.find id).map fun tli => s.locks.insert id { tli with state := state }
  | .changeOwner id ownerName pid session txnID =>
    (s.locks.find id).map fun tli => s.locks.insert id { tli with
      ownerName := ownerName, ownerPID := pid, ownerSessionID := session, ownerTxnID := txnID }

/-- What the call asks for fits the save file, and a new id is not in use. -/
def Call.Fits (s : TableLockServer) : Call → Prop
  | .lock tli => s.locks.find (newId s.unique64) = none ∧ tli.ownerName.length < 2 ^ 16 ∧
      tli.dbrootList.length < 2 ^ 16 ∧ s.locks.entries.length + 1 < 2 ^ 32
  | .changeOwner _ ownerName _ _ _ => ownerName.length < 2 ^ 16
  | _ => True

/-- No two held locks cover the same table and share a DBRoot. -/
def Apart (locks : Locks) : Prop := locks.values.Pairwise (fun a b => a.overlaps b = false)

lemma overlaps_comm (a b : TableLockInfo) : a.overlaps b = b.overlaps a := by
  have roots : (∃ root ∈ a.dbrootList, root ∈ b.dbrootList) ↔
      ∃ root ∈ b.dbrootList, root ∈ a.dbrootList :=
    ⟨fun ⟨root, left, right⟩ => ⟨root, right, left⟩, fun ⟨root, left, right⟩ => ⟨root, right, left⟩⟩
  rw [Bool.eq_iff_iff]
  simp only [TableLockInfo.overlaps, Bool.and_eq_true, decide_eq_true_eq, any_eq_true, roots]
  exact and_congr_left fun _ => eq_comm

instance : Std.Symm (fun a b : TableLockInfo => a.overlaps b = false) :=
  ⟨fun a b apart => by rwa [overlaps_comm]⟩

variable {tli : TableLockInfo} {id : Nat} {locks : Locks}

lemma apart_iff : Apart locks ↔
    ∀ x ∈ locks.entries, ∀ y ∈ locks.entries, x.1 ≠ y.1 → x.2.overlaps y.2 = false :=
  values_pairwise

lemma Apart.insert (hap : Apart locks)
    (free : ∀ y ∈ locks.entries, y.1 ≠ id → y.2.overlaps tli = false) :
    Apart (locks.insert id tli) := by
  rw [apart_iff] at hap ⊢
  intro x left y right ho
  rcases mem_insert.mp left with rfl | ⟨left, -⟩ <;>
    rcases mem_insert.mp right with rfl | ⟨right, -⟩
  · exact absurd rfl ho
  · rw [overlaps_comm]
    exact free y right (Ne.symm ho)
  · exact free x left ho
  · exact hap x left y right ho

/-- A lock replaced by one of the same table and DBRoots. -/
lemma apart_replace {tli' : TableLockInfo} (hap : Apart locks) (hf : locks.find id = some tli)
    (table : tli'.tableOID = tli.tableOID) (roots : tli'.dbrootList = tli.dbrootList) :
    Apart (locks.insert id tli') := by
  refine hap.insert fun y right ho => ?_
  rw [show y.2.overlaps tli' = y.2.overlaps tli by simp only [TableLockInfo.overlaps, table, roots]]
  exact apart_iff.mp hap y right _ (find_eq_some.mp hf) ho

lemma Storable.insert (hsto : Storable locks) (keyed : tli.id = id ∧ id < 2 ^ 64)
    (name : tli.ownerName.length < 2 ^ 16) (roots : tli.dbrootList.length < 2 ^ 16)
    (few : (locks.insert id tli).entries.length < 2 ^ 32) : Storable (locks.insert id tli) := by
  refine ⟨fun x ht => ?_, fun x ht => ?_, fun x ht => ?_, few⟩ <;>
    rcases mem_insert.mp ht with rfl | ⟨old, -⟩
  · exact keyed
  · exact hsto.keyed x old
  · exact name
  · exact hsto.names x old
  · exact roots
  · exact hsto.roots x old

lemma storable_replace {tli' : TableLockInfo} (hsto : Storable locks)
    (hf : locks.find id = some tli) (he : tli'.id = tli.id)
    (name : tli'.ownerName.length < 2 ^ 16) (roots : tli'.dbrootList = tli.dbrootList) :
    Storable (locks.insert id tli') := by
  have hm := find_eq_some.mp hf
  have length : (locks.insert id tli').entries.length = locks.entries.length := by
    have hcl : (locks.erase id).find id = none := by
      simp [find_eq_none]
    have replaced : locks.insert id tli' = (locks.erase id).insert id tli' := by
      ext x
      simp only [mem_insert, mem_erase]
      tauto
    have back := (entries_insert_new hcl (v := tli)).length_eq
    rw [insert_erase hf] at back
    rw [replaced, (entries_insert_new hcl (v := tli')).length_eq, back]
    rfl
  obtain ⟨key, hid⟩ := hsto.keyed _ hm
  exact hsto.insert ⟨he.trans key, hid⟩ name (roots ▸ hsto.roots _ hm) (length ▸ hsto.few)

lemma edit_apart {c : Call} {edited : Locks} (hap : Apart s.locks)
    (edits : c.edit s = some edited) : Apart edited := by
  cases c with
  | lock tli =>
    simp only [Call.edit] at edits
    split at edits
    · simp at edits
    rename_i none
    cases edits
    simp only [any_eq_true, not_exists, not_and, Bool.not_eq_true] at none
    exact hap.insert fun x hm _ => none x.2 (mem_values.mpr ⟨x.1, hm⟩)
  | unlock id =>
    obtain ⟨tli, -, rfl⟩ := map_eq_some_iff.mp edits
    rw [apart_iff] at hap ⊢
    intro x left y right ho
    exact hap x (mem_erase.mp left).1 y (mem_erase.mp right).1 ho
  | changeState id state | changeOwner id ownerName pid session txnID =>
    obtain ⟨tli, hf, rfl⟩ := map_eq_some_iff.mp edits
    exact apart_replace hap hf rfl rfl

lemma edit_storable {c : Call} {edited : Locks} (hsto : Storable s.locks)
    (fits : c.Fits s) (edits : c.edit s = some edited) : Storable edited := by
  cases c with
  | lock tli =>
    obtain ⟨hun, name, roots, few⟩ := fits
    simp only [Call.edit] at edits
    split at edits
    · simp at edits
    cases edits
    exact hsto.insert ⟨rfl, newId_lt _⟩ name roots ((entries_insert_new hun).length_eq.trans_lt few)
  | unlock id =>
    obtain ⟨tli, -, rfl⟩ := map_eq_some_iff.mp edits
    exact ⟨fun x ht => hsto.keyed x (mem_erase.mp ht).1,
      fun x ht => hsto.names x (mem_erase.mp ht).1,
      fun x ht => hsto.roots x (mem_erase.mp ht).1, (length_filter_le _ _).trans_lt hsto.few⟩
  | changeState id state =>
    obtain ⟨tli, hf, rfl⟩ := map_eq_some_iff.mp edits
    exact storable_replace hsto hf rfl (hsto.names _ (find_eq_some.mp hf)) rfl
  | changeOwner id ownerName pid session txnID =>
    obtain ⟨tli, hf, rfl⟩ := map_eq_some_iff.mp edits
    exact storable_replace hsto hf rfl fits rfl

/-- A call either changes nothing, or saves an edit that it can take back. -/
lemma run_cases (c : Call) (fault : Fault) (hsto : Storable s.locks) (fits : c.Fits s) :
    (c.edit s = none ∧ c.run m fault s = (some 0, s)) ∨
      ∃ edited undo answer unique64, c.edit s = some edited ∧ undo edited = s.locks ∧
        c.run m fault s =
          commit m edited undo answer fault { s with unique64 := unique64 } := by
  cases c with
  | lock tli =>
    by_cases refused : s.locks.values.any (fun held => held.overlaps tli) = true
    · exact Or.inl ⟨by simp only [Call.edit, if_pos refused],
        by simp only [Call.run, lock, if_pos refused]⟩
    · refine Or.inr ⟨_, _, _, _, by simp only [Call.edit, if_neg refused]; rfl, ?_,
        by simp only [Call.run, lock, if_neg refused]; rfl⟩
      exact erase_insert fits.1
  | unlock id =>
    cases hf : s.locks.find id with
    | none => exact Or.inl ⟨by simp [Call.edit, hf], by simp [Call.run, unlock, hf]⟩
    | some tli =>
      refine Or.inr ⟨_, _, _, s.unique64, by simp only [Call.edit, hf, map_some]; rfl, ?_,
        by simp only [Call.run, unlock, hf]; rfl⟩
      have key := (hsto.keyed _ (find_eq_some.mp hf)).1
      simp only at key ⊢
      rw [key]
      exact insert_erase hf
  | changeState id state | changeOwner id ownerName pid session txnID =>
    cases hf : s.locks.find id with
    | none =>
      exact Or.inl ⟨by simp [Call.edit, hf], by simp [Call.run, changeState, changeOwner, hf]⟩
    | some tli =>
      exact Or.inr ⟨_, _, _, s.unique64, by simp only [Call.edit, hf, map_some]; rfl,
        insert_insert hf, by simp only [Call.run, changeState, changeOwner, hf]; rfl⟩

end Steps

section Runs

variable {m : Medium}

/-- The server, and whether the last save was completed. -/
structure State where
  server : TableLockServer
  saved : Bool

/-- A call that saves does not lose a failed write, and one that does not finds the file
complete. -/
def Careful (m : Medium) (st : State) (c : Call) (fault : Fault) : Prop :=
  c.Fits st.server ∧ match c.edit st.server with
    | none => st.saved = true
    | some edited => Detected m edited.values fault

def State.after (m : Medium) (st : State) (c : Call) (fault : Fault) : State :=
  let reply := c.run m fault st.server
  ⟨reply.2, reply.1.isSome⟩

/-- The states of servers whose calls are careful; a server is restarted after a call that
returned. -/
inductive Reached (m : Medium) : State → Prop where
  | start (unique64 : Nat) : Reached m ⟨⟨empty, none, unique64⟩, true⟩
  | call {st : State} (reached : Reached m st) (c : Call) (fault : Fault)
      (careful : Careful m st c fault) : Reached m (st.after m c fault)
  | restart {st : State} (reached : Reached m st) (returned : st.saved = true)
      {unique64 : Nat} {loaded : Locks × Nat} (loads : load st.server.file unique64 = some loaded) :
      Reached m ⟨⟨loaded.1, st.server.file, loaded.2⟩, true⟩

structure Sound (st : State) : Prop where
  storable : Storable st.server.locks
  apart : Apart st.server.locks
  rebuilds : st.saved = true → Rebuilds st.server

/-- A careful call that throws leaves the locks alone; one that returns can be followed by a
restart. -/
lemma careful_step {st : State} {c : Call} {fault : Fault} (hs : Sound st)
    (hca : Careful m st c fault) :
    Sound (st.after m c fault) ∧ ((c.run m fault st.server).1 = none →
        (c.run m fault st.server).2.locks = st.server.locks) ∧
      ((c.run m fault st.server).1 ≠ none → Rebuilds (c.run m fault st.server).2) := by
  obtain ⟨fits, hca⟩ := hca
  rcases @run_cases m st.server c fault hs.storable fits with
    ⟨nothing, ran⟩ | ⟨edited, undo, answer, unique64, edits, undone, ran⟩
  · rw [nothing] at hca
    have rebuilds := hs.rebuilds hca
    simp only [State.after, ran]
    exact ⟨⟨hs.storable, hs.apart, fun _ => rebuilds⟩, by simp, fun _ => rebuilds⟩
  rw [edits] at hca
  simp only [State.after, ran, commit]
  split_ifs with hre
  · have hsto := edit_storable hs.storable fits edits
    have rebuilds : Rebuilds { st.server with
        locks := edited, file := (save m edited fault st.server.file).2,
        unique64 := unique64 } :=
      rebuilds_of_complete hsto (save_complete hca hre)
    exact ⟨⟨hsto, edit_apart hs.apart edits, fun _ => rebuilds⟩, by simp, fun _ => rebuilds⟩
  · rw [undone]
    exact ⟨⟨hs.storable, hs.apart, by simp⟩, by simp, by simp⟩

/-- What a restart finds is as good as what was held. -/
lemma sound_restart {st : State} {unique64 : Nat} {loaded : Locks × Nat} (hs : Sound st)
    (hre : st.saved = true) (loads : load st.server.file unique64 = some loaded) :
    Sound ⟨⟨loaded.1, st.server.file, loaded.2⟩, true⟩ := by
  have rebuilds := hs.rebuilds hre
  obtain ⟨reloaded, loads', keyed, bodies⟩ := rebuilds unique64
  cases loads.symm.trans loads'
  -- A property of bodies goes over from the held locks to the loaded ones.
  have carries : ∀ P : TableLockInfo → Prop, (∀ t, P t ↔ P t.body) →
      (∀ x ∈ st.server.locks.entries, P x.2) → ∀ x ∈ loaded.1.entries, P x.2 := by
    intro P he held x hm
    have ht : x.2.body ∈ st.server.locks.values.map TableLockInfo.body :=
      bodies.subset (mem_map_of_mem (mem_values.mpr ⟨x.1, hm⟩))
    obtain ⟨t, value, heq⟩ := mem_map.mp ht
    obtain ⟨k, entry⟩ := mem_values.mp value
    rw [he, ← heq, ← he]
    exact held _ entry
  have hsto : Storable loaded.1 := by
    refine ⟨keyed,
      carries (fun t => t.ownerName.length < 2 ^ 16) (fun _ => Iff.rfl) hs.storable.names,
      carries (fun t => t.dbrootList.length < 2 ^ 16) (fun _ => Iff.rfl) hs.storable.roots, ?_⟩
    have length := bodies.length_eq
    simp only [length_map, values] at length
    rw [length]
    exact hs.storable.few
  refine ⟨hsto, ?_, fun _ => ?_⟩
  · have held : (st.server.locks.values.map TableLockInfo.body).Pairwise
        (fun a b => a.overlaps b = false) := pairwise_map.mpr hs.apart
    exact pairwise_map.mp ((bodies.pairwise_iff fun hap => by rwa [overlaps_comm]).mpr held)
  · intro ho
    obtain ⟨again, loads'', keyed', bodies'⟩ := rebuilds ho
    exact ⟨again, loads'', keyed', bodies'.trans bodies.symm⟩

lemma reached_sound {st : State} (hr : Reached m st) : Sound st := by
  induction hr with
  | start unique64 =>
    refine ⟨⟨by simp [empty], by simp [empty], by simp [empty],
      by simp [empty]⟩, by simp [Apart, values, empty], fun _ => ?_⟩
    intro ho
    exact ⟨(empty, ho), rfl, by simp [empty], List.Perm.refl _⟩
  | call hr c fault hca ih => exact (careful_step ih hca).1
  | restart hr hre loads ih => exact sound_restart ih hre loads

/-- In every run of careful calls, held locks are apart; every such call that throws leaves the
held locks alone, and after every one that returns a restart finds the held locks. -/
theorem locks_durable {st : State} (reached : Reached m st) :
    Apart st.server.locks ∧ ∀ c fault, Careful m st c fault →
      ((c.run m fault st.server).1 = none →
        (c.run m fault st.server).2.locks = st.server.locks) ∧
      ((c.run m fault st.server).1 ≠ none → Rebuilds (c.run m fault st.server).2) := by
  have sound := reached_sound reached
  exact ⟨sound.apart, fun c fault careful => (careful_step sound careful).2⟩

/-- A lock on DBRoot 1 of table 3000. -/
def oneLock : TableLockInfo := ⟨0, 3000, [], 1, 2, 3, .loading, 5, [1]⟩

def noLocks : TableLockServer := ⟨KeyedMap.empty, none, 0⟩

def otherLock : TableLockInfo := { oneLock with tableOID := 3001 }

/-- An `ofstream` that buffers fewer than 16 bytes. -/
def smallBuffer : Medium := ⟨false, 16, 0⟩

def firstCall : Option Nat × TableLockServer := (Call.lock oneLock).run smallBuffer .none noLocks

/-- The third write passes the buffer on and fails. -/
def failedCall : Option Nat × TableLockServer :=
  (Call.lock otherLock).run smallBuffer (.writing 2 3) firstCall.2

/-- The second lock is refused while the disk is full, without a trace among the held locks, and
given afterwards. -/
theorem locks_durable_afterFailure : firstCall.1 = some 1 ∧ failedCall.1 = none ∧
    failedCall.2.locks = firstCall.2.locks ∧
    ((Call.lock otherLock).run smallBuffer .none failedCall.2).1 = some 3 ∧
    Rebuilds ((Call.lock otherLock).run smallBuffer .none failedCall.2).2 := by
  have first : Careful smallBuffer ⟨noLocks, true⟩ (.lock oneLock) .none :=
    ⟨⟨by decide, by decide, by decide, by decide⟩, trivial⟩
  have afterFirst : Reached smallBuffer ⟨firstCall.2, true⟩ := .call (.start 0) _ _ first
  have failing : Careful smallBuffer ⟨firstCall.2, true⟩ (.lock otherLock) (.writing 2 3) :=
    ⟨⟨by decide, by decide, by decide, by decide⟩, .inl ⟨rfl, by decide, by decide⟩⟩
  have afterFailure : Reached smallBuffer ⟨failedCall.2, false⟩ := .call afterFirst _ _ failing
  have again : Careful smallBuffer ⟨failedCall.2, false⟩ (.lock otherLock) .none :=
    ⟨⟨by decide, by decide, by decide, by decide⟩, trivial⟩
  exact ⟨by decide, by decide, ((locks_durable afterFirst).2 _ _ failing).1 (by decide), by decide,
    ((locks_durable afterFailure).2 _ _ again).2 (by decide)⟩

/-- The whole file is in the buffer when the stream is closed, and only the count gets through. The
call returns all the same, and the server does not come up again. -/
theorem lock_not_durable :
    ((Call.lock oneLock).run ⟨false, 8191, 0⟩ (.closing 4) noLocks).1 = some 1 ∧
      load ((Call.lock oneLock).run ⟨false, 8191, 0⟩ (.closing 4) noLocks).2.file 1 = none := by
  decide

end Runs

end TableLocks
