import EryDb.Sessions
import EryDb.FileBytes
import EryDb.LittleEndian

/-!
# Transaction numbers over restarts

The session manager stores the last transaction number, and the last version of the system
catalogue, in a file when it starts a transaction, and a server that starts takes them from
there. The transaction is entered in memory before the file is written. A write that fails
makes the call fail, but the transaction stays, and a second call of the session returns it;
a write that is too short is not noticed at all.

A run counts the transactions as they are started, notes under its count each number that a
call returns, and knows the count of the transaction of each session. It also notes how many
transactions there were when a write last stored everything, as long as no later write has
damaged the file (`durable`).
-/

namespace TxnFile

open LittleEndian (Byte)
open List Sessions

structure Server where
  sm : SessionManagerServer
  txnidFile : List Byte

/-- An `int` of the file; one that is not there in full counts as 0. -/
def storedInt (file : List Byte) (offset : Nat) : Int :=
  let bytes := FileBytes.readAt file offset 4
  if bytes.length = 4 then LittleEndian.readInt bytes else 0

/-- A server that starts. -/
def loadState (maxTxns : Nat) (file : List Byte) : Server :=
  ⟨started maxTxns (storedInt file 0) (storedInt file 4), file⟩

/-- What the file should begin with. -/
def filedata (sm : SessionManagerServer) : List Byte :=
  LittleEndian.writeInt 4 sm._verID ++ LittleEndian.writeInt 4 sm._sysCatVerID

/-- What a write does to the beginning of the file. -/
inductive Effect where
  | untouched
  | complete
  | damaged

/-- Fewer bytes than those of `data` are not enough. -/
def effectOf (data : List Byte) (n : Nat) : Effect :=
  if data.length ≤ n then .complete else .damaged

/-- What writing `data`, and on HDFS the state flags behind it, can do to the file, and whether
the caller takes it for success. On HDFS the file is opened empty. -/
inductive Writes (useHdfs : Bool) (data state file : List Byte) :
    Bool → Effect → List Byte → Prop
  | failed (posix : useHdfs = false) : Writes useHdfs data state file false .untouched file
  | written (n : Nat) (posix : useHdfs = false) : Writes useHdfs data state file true
      (effectOf data n) (FileBytes.writeAt 0 file 0 (data.take n))
  | notOpened (hdfs : useHdfs = true) : Writes useHdfs data state file false .untouched file
  | dataFailed (hdfs : useHdfs = true) : Writes useHdfs data state file false .damaged []
  | stateFailed (n : Nat) (hdfs : useHdfs = true) :
      Writes useHdfs data state file false (effectOf data n) (data.take n)
  | stored (n m : Nat) (hdfs : useHdfs = true) : Writes useHdfs data state file true
      (effectOf data n) (data.take n ++ state.take m)

structure Run where
  server : Server
  count : Nat
  owner : Nat → Nat
  returned : List (Nat × Int)
  durable : Option Nat

/-- The transactions that are safe in the file after a write for the last one of `count`. -/
def Effect.durable (count : Nat) (before : Option Nat) : Effect → Option Nat
  | .untouched => before
  | .complete => some count
  | .damaged => none

inductive Event where
  | newTxnID
  | finishTransaction
  | restart

/-- One call, or a restart. A call that waits or is refused changes nothing. -/
inductive Step (useHdfs : Bool) : Event → Run → Run → Prop
  | again {r : Run} {session : Nat} {block isDDL : Bool} {txn : TxnID}
      (active : r.server.sm.activeTxns.lookup session = some txn.id)
      (ran : newTxnID session block isDDL r.server.sm = some (txn, r.server.sm)) :
      Step useHdfs .newTxnID r { r with returned := (r.owner session, txn.id) :: r.returned }
  | started {r : Run} {session : Nat} {block isDDL : Bool} {txn : TxnID}
      {sm : SessionManagerServer} {state file : List Byte} {success : Bool} {effect : Effect}
      (idle : r.server.sm.activeTxns.lookup session = none)
      (ran : newTxnID session block isDDL r.server.sm = some (txn, sm)) (valid : txn.valid = true)
      (writes : Writes useHdfs (filedata sm) state r.server.txnidFile success effect file) :
      Step useHdfs .newTxnID r {
        server := ⟨sm, file⟩
        count := r.count + 1
        owner := Function.update r.owner session r.count
        returned := if success then (r.count, txn.id) :: r.returned else r.returned
        durable := effect.durable (r.count + 1) r.durable }
  | finished {r : Run} {txn : TxnID} {sm : SessionManagerServer}
      (ran : finishTransaction txn r.server.sm = some (.ok sm)) :
      Step useHdfs .finishTransaction r { r with server := ⟨sm, r.server.txnidFile⟩ }
  | restarted {r : Run} : Step useHdfs .restart r
      { r with
        server := loadState r.server.sm.maxTxns r.server.txnidFile
        durable := some r.count }

def first (maxTxns : Nat) (file : List Byte) : Run :=
  ⟨loadState maxTxns file, 0, fun _ => 0, [], some 0⟩

/-- A restart is safe if the last write that changed the file was complete, and no transaction
whose number was returned was started behind it. A call is safe while the 32-bit counter can
still be increased. -/
def Safe (r : Run) : Event → Prop
  | .newTxnID => r.server.sm._verID < 2 ^ 31 - 1
  | .finishTransaction => True
  | .restart => ∃ d, r.durable = some d ∧ ∀ t ∈ r.returned, t.1 < d

/-- A transaction that was started later has a greater number, so that no two transactions
have the same one. -/
def Increasing (r : Run) : Prop := ∀ s ∈ r.returned, ∀ t ∈ r.returned, s.1 < t.1 → s.2 < t.2

def Balanced (r : Run) : Prop :=
  r.server.sm.semValue + r.server.sm.activeTxns.length = r.server.sm.maxTxns

/-- What every run keeps. The server started with number `base` when `before` transactions had
been counted; the later ones have the numbers behind it, without a gap. -/
structure Inv (base : Int) (before : Nat) (r : Run) : Prop where
  later : before ≤ r.count
  current : r.server.sm._verID = base + (r.count - before : Nat)
  counted : ∀ t ∈ r.returned, t.1 < r.count
  old : ∀ t ∈ r.returned, t.1 < before → t.2 ≤ base
  new : ∀ t ∈ r.returned, before ≤ t.1 → t.2 = base + (t.1 - before : Nat) + 1
  increasing : Increasing r
  owned : ∀ a ∈ r.server.sm.activeTxns, before ≤ r.owner a.1 ∧ r.owner a.1 < r.count ∧
    a.2 = base + (r.owner a.1 - before : Nat) + 1
  sessions : (r.server.sm.activeTxns.map Prod.fst).Nodup
  numbers : (r.server.sm.activeTxns.map Prod.snd).Nodup
  balanced : Balanced r
  bounded : -2 ^ 31 ≤ base ∧ r.server.sm._verID < 2 ^ 31
  inFile : ∀ d, r.durable = some d → before ≤ d ∧ d ≤ r.count ∧
    storedInt r.server.txnidFile 0 = base + (d - before : Nat)

/-! ## Numbers in the file -/

variable {base id : Int} {before : Nat} {r : Run}

variable (inv : Inv base before r)
include inv

/-- A number noted for a transaction of this server keeps the order. -/
lemma Inv.note {k : Nat} (new : before ≤ k) (id_eq : id = base + (k - before : Nat) + 1) :
    ∀ s ∈ (k, id) :: r.returned, ∀ t ∈ (k, id) :: r.returned, s.1 < t.1 → s.2 < t.2 := by
  have against : ∀ t ∈ r.returned, (k < t.1 → id < t.2) ∧ (t.1 < k → t.2 < id) := by
    intro t mem
    rcases lt_or_ge t.1 before with old | later
    · have := inv.old t mem old
      constructor <;> intro order <;> omega
    · have := inv.new t mem later
      constructor <;> intro order <;> omega
  intro s s_mem t t_mem order
  rcases mem_cons.mp s_mem with rfl | s_mem <;> rcases mem_cons.mp t_mem with rfl | t_mem
  · exact absurd order (lt_irrefl _)
  · exact (against t t_mem).1 order
  · exact (against s s_mem).2 order
  · exact inv.increasing s s_mem t t_mem order

variable {session : Nat}

variable {sm : SessionManagerServer} {txn : TxnID}

omit inv

def idle : Run := first 10 []

/-- Session 5 has transaction 1, and the file says so. -/
def stored : Run :=
  ⟨⟨⟨10, 1, 0, 9, [(5, 1)]⟩, [1, 0, 0, 0, 0, 0, 0, 0]⟩, 1, Function.update (fun _ => 0) 5 0,
    [(0, 1)], some 1⟩

/-- The call of session 7 has failed with its write. -/
def refused : Run := ⟨⟨⟨10, 2, 0, 8, [(7, 2), (5, 1)]⟩, [1, 0, 0, 0, 0, 0, 0, 0]⟩, 2,
    Function.update stored.owner 7 1, [(0, 1)], some 1⟩

def reloaded : Run :=
  { refused with server := loadState 10 refused.server.txnidFile, durable := some 2 }

/-- The write of session 5 has failed, and so has its call. -/
def pending : Run :=
  ⟨⟨⟨10, 1, 0, 9, [(5, 1)]⟩, []⟩, 1, Function.update (fun _ => 0) 5 0, [], some 0⟩

end TxnFile
