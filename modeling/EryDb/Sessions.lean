import EryDb.Vss
import EryDb.BrmTypes

/-!
# The session manager

`SessionManagerServer` numbers the transactions and knows which are active. A query context
is the last number given out, with the active transactions. The file that keeps the numbers
over a restart and the state flags of the system are left out.
-/

namespace Sessions

open BrmTypes Vss

structure TxnID where
  id : Int
  valid : Bool

structure SessionManagerServer where
  maxTxns : Nat
  _verID : Int
  _sysCatVerID : Int
  semValue : Nat
  activeTxns : List (Nat × Int)

/-- The context of a query. -/
def verID (sm : SessionManagerServer) : QueryContext :=
  ⟨sm._verID, (sm.activeTxns.map Prod.snd).toFinset⟩

/-- A session has one transaction at a time. There is no answer while a blocking call waits. -/
def newTxnID (session : Nat) (block isDDL : Bool) (sm : SessionManagerServer) :
    Option (TxnID × SessionManagerServer) :=
  match sm.activeTxns.lookup session with
  | some id => some (⟨id, true⟩, sm)
  | none =>
    if sm.semValue = 0 then if block then none else some (⟨0, false⟩, sm)
    else
      let id := sm._verID + 1
      some (⟨id, true⟩, { sm with
        semValue := sm.semValue - 1
        _verID := id
        activeTxns := (session, id) :: sm.activeTxns
        _sysCatVerID := if isDDL then sm._sysCatVerID + 1 else sm._sysCatVerID })

/-- There is no answer after a failed assertion. -/
def finishTransaction (txn : TxnID) (sm : SessionManagerServer) :
    Option (Except BrmExcept SessionManagerServer) :=
  if txn.valid = false then some (.error .invalidArgument)
  else if sm.activeTxns.any (fun p => decide (p.2 = txn.id)) then
    if sm.semValue + 1 ≤ sm.maxTxns then
      some (.ok { sm with
        semValue := sm.semValue + 1
        activeTxns := sm.activeTxns.filter (fun p => decide (p.2 ≠ txn.id)) })
    else none
  else some (.error .invalidArgument)

/-- The numbers of a fresh server come from the file. -/
def started (maxTxns : Nat) (lastTxnID lastSysCatVerId : Int) : SessionManagerServer :=
  ⟨maxTxns, lastTxnID, lastSysCatVerId, maxTxns, []⟩

variable {sm sm' : SessionManagerServer} {txn : TxnID} {session : Nat} {block isDDL : Bool}

def Active (sm : SessionManagerServer) (transID : Int) : Prop := ∃ p ∈ sm.activeTxns, p.2 = transID

lemma mem_verID_txns {transID : Int} : transID ∈ (verID sm).txns ↔ Active sm transID := by
  simp [verID, Active]

/-- The active transactions have positive numbers that were given out. -/
structure Numbered (sm : SessionManagerServer) : Prop where
  natural : 0 ≤ sm._verID
  given : ∀ transID, Active sm transID → 0 < transID ∧ transID ≤ sm._verID

/-- A call that answers leaves the transactions as they are or opens a new one. -/
lemma newTxnID_cases (ran : newTxnID session block isDDL sm = some (txn, sm')) :
    sm' = sm ∨ (sm'._verID = sm._verID + 1 ∧
      ∀ transID, Active sm' transID ↔ transID = sm._verID + 1 ∨ Active sm transID) := by
  unfold newTxnID at ran
  split at ran
  · exact Or.inl (Prod.mk.inj (Option.some.inj ran)).2.symm
  split at ran
  · split at ran
    · cases ran
    · exact Or.inl (Prod.mk.inj (Option.some.inj ran)).2.symm
  · cases ran
    refine Or.inr ⟨rfl, fun transID => ?_⟩
    simp only [Active, List.mem_cons, exists_eq_or_imp]
    exact or_congr_left eq_comm

lemma newTxnID_numbered (hnu : Numbered sm)
    (ran : newTxnID session block isDDL sm = some (txn, sm')) : Numbered sm' := by
  rcases newTxnID_cases ran with rfl | ⟨next, hop⟩
  · exact hnu
  have hna := hnu.natural
  refine ⟨by omega, fun transID hact => ?_⟩
  rcases (hop transID).mp hact with rfl | hb
  · omega
  · have := hnu.given transID hb
    omega

lemma finishTransaction_active (ran : finishTransaction txn sm = some (.ok sm')) :
    sm'._verID = sm._verID ∧
      ∀ transID, Active sm' transID ↔ Active sm transID ∧ transID ≠ txn.id := by
  unfold finishTransaction at ran
  split at ran
  · cases Option.some.inj ran
  split at ran
  · split at ran
    · cases ran
      refine ⟨rfl, fun transID => ?_⟩
      simp only [Active, List.mem_filter, decide_eq_true_eq]
      constructor
      · rintro ⟨p, ⟨hi, ho⟩, rfl⟩
        exact ⟨⟨p, hi, rfl⟩, ho⟩
      · rintro ⟨⟨p, hi, rfl⟩, ho⟩
        exact ⟨p, ⟨hi, ho⟩, rfl⟩
    · cases ran
  · cases Option.some.inj ran

lemma finishTransaction_numbered (hnu : Numbered sm)
    (ran : finishTransaction txn sm = some (.ok sm')) : Numbered sm' := by
  obtain ⟨he, hact⟩ := finishTransaction_active ran
  refine ⟨by rw [he]; exact hnu.natural, fun transID still => ?_⟩
  rw [he]
  exact hnu.given transID ((hact transID).mp still).1

end Sessions
