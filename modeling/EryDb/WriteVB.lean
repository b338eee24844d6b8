import EryDb.RollbackGuard

/-!
# Copying the blocks of a transaction into the version buffer

Before a transaction changes blocks, `BRMWrapper::writeVB` copies them into the version
buffer file of the local PM and records each copy with `writeVBEntry`. A block with
several replicas lies on as many PMs, and each of them runs `writeVB` for its own. All
PMs see one state of the block resolution manager, since the master confirms a command
only when every slave has run it.

`pruneLBIDList` takes a block out of the list when the transaction has a version of it
already. Files are kept as far as an open or a copy can fail; the releasing of copy
locks and the mapping of error codes are left out.
-/

namespace BRMWrapper

open Option List SlotTable BrmTypes Vss Vbbm SlaveNode

variable (cfg : NodeConfig)

/-- A command as a client sees it: the answer of a confirmed success. -/
def request (c : Command) (n : SlaveDBRMNode) : Option (List VBRange × SlaveDBRMNode) :=
  match c.run cfg n with
  | some (r, t) => if r.code = .ok then some (r.freeList, confirmChanges c t) else none
  | none => none

section Prune

variable {cfg : NodeConfig} {n t : SlaveDBRMNode} {transID lbid : Int}

end Prune

section Write

variable {cfg : NodeConfig} {n t : SlaveDBRMNode} {transID lbid : Int}

variable {c : Command} {dbRoot : DBRootsStruct} {dbrIdx : Fin 4} {freeList : List VBRange}

lemma request_some (ran : request cfg c n = some (freeList, t)) :
    ∃ r m, c.run cfg n = some (r, m) ∧ r.code = .ok ∧ r.freeList = freeList ∧
      t = confirmChanges c m := by
  rw [request] at ran
  split at ran
  · rename_i r m done
    split_ifs at ran with ok
    cases ran
    exact ⟨r, m, done, ok, rfl, rfl⟩
  · cases ran

lemma Reachable.request (hr : Reachable cfg n) (real : c.real)
    (ran : request cfg c n = some (freeList, t)) : Reachable cfg t := by
  obtain ⟨r, m, done, ok, -, rfl⟩ := request_some ran
  exact hr.step real (.confirmed done ok)

end Write

section Replicas

variable {cfg : NodeConfig} {n t : SlaveDBRMNode} {transID : Int} {io : FileIO}
  {existDbroot : Nat → Nat → Bool} {pmOf : Nat → Nat} {dbRoot : DBRootsStruct} {k : Nat}
  {b : SourceBlock} {copies : List VBCopy}

end Replicas

end BRMWrapper
