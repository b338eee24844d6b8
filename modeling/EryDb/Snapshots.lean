import EryDb.Sessions
import EryDb.SnapshotBlocks
import EryDb.RollbackGuard

/-!
# Query contexts over whole runs

The node, the session manager and the images of the blocks together: the main file, the
version buffer, and the image of each block that was committed last. A transaction copies
a block out before it stores a new image, and a rollback copies the image back that the
version buffer has. A context captured at some point of a run is to read, at any later
point, the image committed last at its capture, unless it is told that it is too old.
-/

namespace Snapshots

open Function Multiset SlotTable Vss Vbbm SlaveNode Sessions

structure System (Image : Type) where
  node : SlaveDBRMNode
  sessions : SessionManagerServer
  main : Int → Image
  buffered : Int → Int → Image
  committed : Int → Image

inductive Outcome where
  | confirmed
  | undone

inductive Event (Image : Type) where
  | command (c : Command) (outcome : Outcome)
  | store (transID lbid : Int) (image : Image)
  | newTxn (session : Nat) (block isDDL : Bool)
  | finish (txn : TxnID)

/-- The transaction a command is for. -/
def transactionOf : Command → Option Int
  | .beginVBCopy transID _ _ _ => some transID
  | .writeVBEntry transID _ _ _ _ => some transID
  | .vbCommit transID => some transID
  | .vbRollback transID _ => some transID
  | .vbRollbackBlocks transID _ => some transID
  | .deleteOID _ => none

variable {Image : Type} {cfg : NodeConfig} {s t : System Image} {c : Command} {ctx : QueryContext}

/-- The main file after the blocks of a rollback have been copied back. -/
def copiedBack (cfg : NodeConfig) (s : System Image) (transID : Int) (lbids : List Int) :
    Int → Image := fun l =>
  if l ∈ lbids then s.buffered l (getHighestVerInVB cfg.vssHasher s.node.vss l transID)
  else s.main l

/-- The version buffer after a block has been copied out, unless it is a further replica. -/
def copiedOut (cfg : NodeConfig) (s : System Image) (transID lbid : Int) : Int → Int → Image :=
  let oldVerID := getCurrentVersion cfg.vssHasher s.node.vss lbid
  if oldVerID = transID then s.buffered
  else update s.buffered lbid (update (s.buffered lbid) oldVerID (s.main lbid))

open Classical in
/-- The images after a confirmed command. -/
noncomputable def System.confirm (cfg : NodeConfig) (s : System Image) (c : Command)
    (node : SlaveDBRMNode) : System Image :=
  match c with
  | .writeVBEntry transID lbid _ _ _ =>
    { s with node := node, buffered := copiedOut cfg s transID lbid }
  | .vbCommit transID =>
    { s with
      node := node
      committed := fun l => if LockedBy s.node transID l then s.main l else s.committed l }
  | .vbRollback transID lbidList =>
    { s with
      node := node
      main := copiedBack cfg s transID (lbidList.flatMap LBIDRange.lbids) }
  | .vbRollbackBlocks transID lbidList =>
    { s with node := node, main := copiedBack cfg s transID lbidList }
  | _ => { s with node := node }

/-- A command of an active transaction; a rollback names exactly its blocks. -/
structure Proper (s : System Image) (c : Command) : Prop where
  active : ∃ transID, transactionOf c = some transID ∧ Active s.sessions transID
  real : c.real
  rollback : RollsBackUncommitted s.node c

/-- A transaction stores images of the blocks it holds, and ends when it holds none. -/
inductive SystemStep (cfg : NodeConfig) (s : System Image) : Event Image → System Image → Prop where
  | confirmed {c : Command} {r : Reply} {n : SlaveDBRMNode} (proper : Proper s c)
      (ran : c.run cfg s.node = some (r, n)) (ok : r.code = .ok) :
      SystemStep cfg s (.command c .confirmed) (s.confirm cfg c (confirmChanges c n))
  | undone {c : Command} {r : Reply} {n u : SlaveDBRMNode} (proper : Proper s c)
      (ran : c.run cfg s.node = some (r, n)) (undo : undoChanges c n = some u) :
      SystemStep cfg s (.command c .undone) { s with node := u }
  | stored {transID lbid : Int} (held : LockedBy s.node transID lbid) (image : Image) :
      SystemStep cfg s (.store transID lbid image)
        { s with main := update s.main lbid image }
  | opened {session : Nat} {block isDDL : Bool} {txn : TxnID} {sm : SessionManagerServer}
      (ran : newTxnID session block isDDL s.sessions = some (txn, sm)) :
      SystemStep cfg s (.newTxn session block isDDL) { s with sessions := sm }
  | finished {txn : TxnID} {sm : SessionManagerServer}
      (ran : finishTransaction txn s.sessions = some (.ok sm))
      (ended : ∀ l, ¬ LockedBy s.node txn.id l) :
      SystemStep cfg s (.finish txn) { s with sessions := sm }

/-- No block is written while another transaction holds it, and nothing is undone that cannot
be: not with records of an earlier command pending, and no request for a further replica. -/
def Careful (s : System Image) : Event Image → Prop
  | .command c .confirmed => WritesAlone s.node c
  | .command c .undone => Quiet s.node ∧ c.locksVSS = true
  | _ => True

/-- What holds in every state of a careful run. -/
structure Coherent (cfg : NodeConfig) (s : System Image) : Prop where
  reachable : Reachable cfg s.node
  orderly : ∀ l, ((view s.node).block l).Orderly
  last : ∀ l, LastCommitted (s.committed l) (s.main l) (s.buffered l)
    (versionsOf (contents s.node.vss) l)
  numbered : Numbered s.sessions
  given : ∀ e ∈ contents s.node.vss, e.verID ≤ s.sessions._verID
  active : ∀ e ∈ contents s.node.vss, e.data.locked = true → Active s.sessions e.verID

variable {l transID lbid : Int} {top : Entry VssData} {d : Copies} {n : SlaveDBRMNode}

/-- A block with its images. -/
structure BlockState (Image : Type) where
  committed : Image
  main : Image
  buffered : Int → Image
  versions : Versions

def System.block (s : System Image) (l : Int) : BlockState Image :=
  ⟨s.committed l, s.main l, s.buffered l, versionsOf (contents s.node.vss) l⟩

/-- What a confirmed write or commit of a transaction does to a block. -/
inductive Moved (transID l : Int) : BlockState Image → BlockState Image → Prop where
  | same {b : BlockState Image} : Moved transID l b b
  | started {K main : Image} {buffered : Int → Image} :
      Moved transID l ⟨K, main, buffered, 0⟩ ⟨K, main, update buffered 0 main,
        ⟨l, transID, ⟨false, true⟩⟩ ::ₘ {⟨l, 0, ⟨true, false⟩⟩}⟩
  | pushed {K main : Image} {buffered : Int → Image} {top : Entry VssData} {older : Versions}
      {d : Copies} (stacked : Stacked top older d) (free : top.data.locked = false) :
      Moved transID l ⟨K, main, buffered, top ::ₘ older⟩
        ⟨K, main, update buffered top.verID main,
          ⟨l, transID, ⟨false, true⟩⟩ ::ₘ ⟨l, top.verID, ⟨true, top.data.locked⟩⟩ ::ₘ older⟩
  | committed {K main : Image} {buffered : Int → Image} {top : Entry VssData} {older : Versions}
      {d : Copies} (stacked : Stacked top older d)
      (held : ∃ e ∈ top ::ₘ older, e.verID = transID ∧ e.data.locked = true) :
      Moved transID l ⟨K, main, buffered, top ::ₘ older⟩
        ⟨main, main, buffered, (top ::ₘ older).map (unlocked transID)⟩

/-- What a rollback does to a block that its transaction holds, with `v` the version under the
current one. -/
inductive Popped (transID l v : Int) : BlockState Image → BlockState Image → Prop where
  | intro {K main : Image} {buffered : Int → Image} {top e : Entry VssData} {rest : Versions}
      {d : Copies} (stacked : Stacked top (e ::ₘ rest) d)
        (highest : ∀ e' ∈ rest, e'.verID < e.verID)
      (own : top.verID = transID) (locked : top.data.locked = true) (named : e.lbid = l)
      (version : e.verID = v) :
      Popped transID l v ⟨K, main, buffered, top ::ₘ e ::ₘ rest⟩ ⟨K, buffered e.verID, buffered,
        settled (⟨l, e.verID, ⟨false, e.data.locked⟩⟩ ::ₘ rest)⟩

/-- The current version of a block that a write finds. -/
lemma current_empty (hs : NodeSound cfg s.node) (hem : (view s.node).block l = .empty) :
    getCurrentVersion cfg.vssHasher s.node.vss l = 0 := by
  have none : versionsOf (contents s.node.vss) l = 0 := congrArg Block.versions hem
  have hcu : Current (contents s.node.vss) l (getCurrentVersion cfg.vssHasher s.node.vss l) :=
    getCurrentVersion_spec hs.vss.toChained l
  refine hcu.of_absent fun e hi hn => ?_
  have hm : e ∈ versionsOf (contents s.node.vss) l := mem_versionsOf.mpr ⟨hi, hn⟩
  simp [none] at hm

/-- A block with a version has a current one, with the others under it. -/
lemma stacked_of_mem {e : Entry VssData} (hor : ((view n).block l).Orderly)
    (hi : e ∈ versionsOf (contents n.vss) l) : ∃ top older,
      versionsOf (contents n.vss) l = top ::ₘ older ∧
        Stacked top older ((view n).block l).copies := by
  rcases hor with none | stacked
  · rw [show versionsOf (contents n.vss) l = 0 from congrArg Block.versions none] at hi
    exact absurd hi (notMem_zero e)
  · exact stacked

/-- The version a rollback of the current one goes back to. -/
lemma highest_stacked (hs : NodeSound cfg s.node) {e : Entry VssData} {rest : Versions}
    (hst : Stacked top (e ::ₘ rest) d)
    (shape : versionsOf (contents s.node.vss) l = top ::ₘ e ::ₘ rest)
    (hhi : ∀ e' ∈ rest, e'.verID < e.verID) (own : top.verID = transID) :
    getHighestVerInVB cfg.vssHasher s.node.vss l transID = e.verID := by
  have hl := hst.below e (mem_cons_self _ _)
  rcases getHighestVerInVB_spec hs.vss.toChained l transID with hf | ⟨-, none⟩
  · obtain ⟨⟨u, hun, hver⟩, above⟩ := highestInVB_under hst shape hf
    have upper := above e (mem_cons_self _ _) (by omega)
    rcases mem_cons.mp hun with rfl | later
    · exact hver.symm
    · have := hhi u later
      omega
  · have ht : e ∈ versionsOf (contents s.node.vss) l := by simp [shape]
    obtain ⟨hi, hn⟩ := mem_versionsOf.mp ht
    exact absurd ⟨hst.natural e (mem_cons_self _ _), by omega⟩
      (none e hi hn (hst.flagged e (mem_cons_self _ _)))

/-- The version a transaction holds of a block is the current one. -/
lemma held_top {K main : Image} {buffered : Int → Image} {c older : Versions}
    (last : LastCommitted K main buffered c) (hst : Stacked top older d)
    (shape : c = top ::ₘ older) (held : ∃ e ∈ c, e.verID = transID ∧ e.data.locked = true) :
    top.verID = transID ∧ top.data.locked = true := by
  obtain ⟨e, hi, hver, hlo⟩ := held
  have hm := hi
  rw [shape] at hm
  rcases mem_cons.mp hm with rfl | hun
  · exact ⟨hver, hlo⟩
  · rw [last.older e hi (hst.flagged e hun)] at hlo
    cases hlo

lemma write_moved (hco : Coherent cfg s) {dbrIdx : Fin 4} {vbOID vbFBO : Nat}
    (hal : WritesAlone s.node (.writeVBEntry transID lbid dbrIdx vbOID vbFBO))
    (hwr : Written transID lbid dbrIdx vbOID vbFBO (view s.node) (view n)) (l : Int) :
    Moved transID l (s.block l)
      (s.confirm cfg (.writeVBEntry transID lbid dbrIdx vbOID vbFBO) n |>.block l) := by
  have hs := reachable_sound hco.reachable
  by_cases hh : l = lbid
  swap
  · have versions : versionsOf (contents n.vss) l = versionsOf (contents s.node.vss) l :=
      congrArg Block.versions (hwr.block_frame hh)
    have buffered : copiedOut cfg s transID lbid l = s.buffered l := by
      rw [copiedOut]
      split
      · rfl
      · exact update_of_ne hh _ _
    simp only [System.block, System.confirm, versions, buffered]
    exact .same
  subst hh
  rcases hwr.block_cases (hco.orderly l) with ⟨versions, -, e, hi, hver, hcu⟩ |
      ⟨hem, hp, ha⟩ | ⟨top, older, hb, hst, newer, ha⟩
  · -- a further replica of the copy under the version the transaction has
    have versions : versionsOf (contents n.vss) l = versionsOf (contents s.node.vss) l := versions
    have buffered : copiedOut cfg s transID l = s.buffered := by
      obtain ⟨top, older, shape, hst⟩ := stacked_of_mem (hco.orderly l) hi
      have he : top = e := by
        rw [View.block] at hi
        rcases mem_cons.mp (by rw [← shape]; exact hi) with he | hun
        · exact he.symm
        · rw [hst.flagged e hun] at hcu
          cases hcu
      rw [copiedOut, Current.eq_top hst shape (getCurrentVersion_spec hs.vss.toChained l),
        if_pos (by rw [he, hver])]
    simp only [System.block, System.confirm, versions, buffered]
    exact .same
  · have none : versionsOf (contents s.node.vss) l = 0 := congrArg Block.versions hem
    have versions : versionsOf (contents n.vss) l =
        ⟨l, transID, ⟨false, true⟩⟩ ::ₘ {⟨l, 0, ⟨true, false⟩⟩} := congrArg Block.versions ha
    have buffered : copiedOut cfg s transID l l = update (s.buffered l) 0 (s.main l) := by
      rw [copiedOut, current_empty hs hem, if_neg (by omega), update_self]
    simp only [System.block, System.confirm, none, versions, buffered]
    exact .started
  · have shape : versionsOf (contents s.node.vss) l = top ::ₘ older := congrArg Block.versions hb
    have versions : versionsOf (contents n.vss) l =
        ⟨l, transID, ⟨false, true⟩⟩ ::ₘ ⟨l, top.verID, ⟨true, top.data.locked⟩⟩ ::ₘ older :=
      congrArg Block.versions ha
    have buffered : copiedOut cfg s transID l l =
        update (s.buffered l) top.verID (s.main l) := by
      rw [copiedOut, Current.eq_top hst shape (getCurrentVersion_spec hs.vss.toChained l),
        if_neg (by omega), update_self]
    have free : top.data.locked = false := by
      by_contra hlo
      obtain ⟨hi, hn⟩ := mem_versionsOf.mp
        (show top ∈ versionsOf (contents s.node.vss) l by simp [shape])
      have := hal top.verID ⟨top, hi, hn, rfl, by simpa using hlo⟩
      omega
    simp only [System.block, System.confirm, shape, versions, buffered]
    exact .pushed hst free

lemma commit_moved (hco : Coherent cfg s)
    (unlocks : contents n.vss = (contents s.node.vss).map (unlocked transID)) (l : Int) :
    Moved transID l (s.block l) (s.confirm cfg (.vbCommit transID) n |>.block l) := by
  have versions : versionsOf (contents n.vss) l =
      (versionsOf (contents s.node.vss) l).map (unlocked transID) := by
    rw [unlocks, versionsOf_map_unlocked]
  by_cases held : LockedBy s.node transID l
  · obtain ⟨e, hi, own⟩ := held.versionsOf
    obtain ⟨top, older, shape, hst⟩ := stacked_of_mem (hco.orderly l) hi
    simp only [System.block, System.confirm, versions, shape, if_pos held]
    rw [view, shape] at hi
    exact .committed hst ⟨e, hi, own⟩
  · have hunh : ¬ ∃ e ∈ versionsOf (contents s.node.vss) l,
        e.verID = transID ∧ e.data.locked = true := by
      rintro ⟨e, hi, hver, hlo⟩
      obtain ⟨ht, hn⟩ := mem_versionsOf.mp hi
      exact held ⟨e, ht, hn, hver, hlo⟩
    simp only [System.block, System.confirm, versions, unlocked_others hunh, if_neg held]
    exact .same

/-- The blocks a rollback names are copied back, each with the image under its version. -/
lemma rollback_moved (hco : Coherent cfg s) {lbids : List Int} (hdi : lbids.Nodup)
    (held : ∀ l ∈ lbids, LockedBy s.node transID l)
    (hrol : RolledBackAll transID lbids (view s.node) (view n)) (l : Int) :
    (l ∉ lbids ∧ s.block l = ⟨s.committed l, copiedBack cfg s transID lbids l, s.buffered l,
        versionsOf (contents n.vss) l⟩) ∨
      (l ∈ lbids ∧ Popped transID l (getHighestVerInVB cfg.vssHasher s.node.vss l transID)
        (s.block l) ⟨s.committed l, copiedBack cfg s transID lbids l, s.buffered l,
          versionsOf (contents n.vss) l⟩) := by
  have hs := reachable_sound hco.reachable
  rcases hrol.block hdi l with ⟨hout, he⟩ | ⟨v', w', hi, hb, once, ha⟩
  · have versions : versionsOf (contents n.vss) l = versionsOf (contents s.node.vss) l :=
      congrArg Block.versions he
    rw [copiedBack, if_neg hout, versions]
    exact Or.inl ⟨hout, rfl⟩
  obtain ⟨own, ht, hver, hlo⟩ := (held l hi).versionsOf
  obtain ⟨top, older, shape, hst⟩ := stacked_of_mem (hco.orderly l) ht
  obtain ⟨number, topLocked⟩ := held_top (hco.last l) hst shape ⟨own, ht, hver, hlo⟩
  have shape' : versionsOf v'.versions l = top ::ₘ older := (congrArg Block.versions hb).trans shape
  have copies' : copiesOf v'.copies l = ((view s.node).block l).copies :=
    congrArg Block.copies hb
  obtain ⟨e, rest, rfl, hhi, versions, -⟩ := once.pops (by rw [copies']; exact hst) shape' number
  have left : versionsOf (contents n.vss) l =
      settled (⟨l, e.verID, ⟨false, e.data.locked⟩⟩ ::ₘ rest) :=
    (congrArg Block.versions ha).trans versions
  have hn : e.lbid = l := (mem_versionsOf.mp
    (show e ∈ versionsOf (contents s.node.vss) l by simp [shape])).2
  rw [copiedBack, if_pos hi, highest_stacked hs hst shape hhi number, left, System.block, shape]
  exact Or.inr ⟨hi, .intro hst hhi number topLocked hn rfl⟩

section Blocks

variable {b b' : BlockState Image} {transID l v : Int} {K : Image}

def BlockState.Last (b : BlockState Image) : Prop :=
  LastCommitted b.committed b.main b.buffered b.versions

def BlockState.Serves (ctx : QueryContext) (K : Image) (b : BlockState Image) : Prop :=
  SlaveNode.Serves ctx K b.main b.buffered b.versions

lemma Moved.last (hmo : Moved transID l b b') (last : b.Last) : b'.Last := by
  cases hmo with
  | same => exact last
  | started => exact LastCommitted.started last
  | pushed hst free => exact LastCommitted.pushed hst last free
  | committed hst held => exact LastCommitted.committed hst last held

lemma Moved.serves (hmo : Moved transID l b b') (hser : b.Serves ctx K)
    (hidden : ¬ Visible ctx transID) (zero : 0 ∉ ctx.txns) : b'.Serves ctx K := by
  cases hmo with
  | same => exact hser
  | started => exact SlaveNode.Serves.started hser hidden zero
  | pushed hst free => exact SlaveNode.Serves.pushed hst hser hidden
  | committed hst held => exact SlaveNode.Serves.committed hser transID

/-- The version of an entry is a new one, or 0, or that of an old entry, locked if it is. -/
def Accounted (new : Int → Prop) (c : Versions) (e : Entry VssData) : Prop :=
  (new e.verID ∨ e.verID = 0 ∨ ∃ u ∈ c, u.verID = e.verID) ∧
    (e.data.locked = true → new e.verID ∨ ∃ u ∈ c, u.verID = e.verID ∧ u.data.locked = true)

section Accounts

variable {new new' : Int → Prop} {c c' : Versions} {e u : Entry VssData}

lemma Accounted.of_new (own : new e.verID) : Accounted new c e := ⟨Or.inl own, fun _ => Or.inl own⟩

lemma Accounted.of_old (hi : u ∈ c) (hver : u.verID = e.verID)
    (hlo : e.data.locked = true → u.data.locked = true) : Accounted new c e :=
  ⟨Or.inr (Or.inr ⟨u, hi, hver⟩), fun held => Or.inr ⟨u, hi, hver, hlo held⟩⟩

lemma Accounted.mono (known : Accounted new c e) (own : ∀ v, new v → new' v)
    (old : ∀ u ∈ c, u ∈ c') : Accounted new' c' e :=
  ⟨known.1.imp (own _) (Or.imp_right fun ⟨u, hi, hver⟩ => ⟨u, old u hi, hver⟩),
    fun held => (known.2 held).imp (own _) fun ⟨u, hi, same⟩ => ⟨u, old u hi, same⟩⟩

end Accounts

/-- The versions a write or a commit leaves are old ones, or that of its transaction, or 0. -/
lemma Moved.versions (hmo : Moved transID l b b') :
    ∀ e ∈ b'.versions, Accounted (· = transID) b.versions e := by
  intro e hi
  cases hmo with
  | same => exact .of_old hi rfl id
  | started =>
    have hi : e ∈ (⟨l, transID, ⟨false, true⟩⟩ ::ₘ {⟨l, 0, ⟨true, false⟩⟩} : Versions) := hi
    rcases mem_cons.mp hi with rfl | hun
    · exact .of_new rfl
    · obtain rfl := mem_singleton.mp hun
      exact ⟨Or.inr (Or.inl rfl), fun hlo => by cases hlo⟩
  | @pushed K main buffered top older d hst free =>
    rcases mem_cons.mp hi with rfl | hi
    · exact .of_new rfl
    rcases mem_cons.mp hi with rfl | hun
    · exact .of_old (mem_cons_self top _) rfl id
    · exact .of_old (mem_cons_of_mem hun) rfl id
  | committed hst held =>
    obtain ⟨u, hb, rfl⟩ := mem_map.mp hi
    refine .of_old hb (unlocked_verID transID u).symm fun hlo => ?_
    by_contra free
    rw [unlocked_free transID (by simpa using free)] at hlo
    cases hlo

/-- The versions of a block without those of a transaction, the one below as the current one. -/
def uncovered (transID v : Int) (c : Versions) : Versions :=
  (c.filter fun e => e.verID ≠ transID).map fun e =>
    if e.verID = v then ⟨e.lbid, e.verID, ⟨false, e.data.locked⟩⟩ else e

lemma uncovered_stacked {e : Entry VssData} {rest : Versions} (hst : Stacked top (e ::ₘ rest) d)
    (hn : e.lbid = l) : uncovered top.verID e.verID (top ::ₘ e ::ₘ rest) =
      ⟨l, e.verID, ⟨false, e.data.locked⟩⟩ ::ₘ rest := by
  have hun : (e ::ₘ rest).filter (fun u => u.verID ≠ top.verID) = e ::ₘ rest :=
    filter_eq_self.mpr fun u hi => ne_of_lt (hst.below u hi)
  have hos : rest.map (fun u : Entry VssData => if u.verID = e.verID then
      (⟨u.lbid, u.verID, ⟨false, u.data.locked⟩⟩ : Entry VssData) else u) = rest := by
    conv_rhs => rw [← map_id rest]
    exact map_congr rfl fun u hi => if_neg (hst.beneath.2.2.1 u hi)
  rw [uncovered, filter_cons_of_neg _ (by simp), hun, map_cons, if_pos rfl, hos, hn]

lemma Popped.last (hpop : Popped transID l v b b') (last : b.Last) : b'.Last := by
  cases hpop with
  | intro hst hhi own hlo => exact LastCommitted.rolledBack hst hhi last hlo

lemma Popped.serves (hpop : Popped transID l v b b') (hser : b.Serves ctx K)
    (hwh : settled b.versions = b.versions)
    (huq : ∀ e ∈ b.versions, ∀ u ∈ b.versions, e.verID = u.verID → e = u)
    (stays : StaysReadable ctx b.versions (uncovered transID v b.versions)) : b'.Serves ctx K := by
  cases hpop with
  | @intro K main buffered top e rest d hst hhi own hlo hn hver =>
    rw [← own, ← hver, uncovered_stacked hst hn] at stays
    refine SlaveNode.Serves.cut hser hwh huq (fun u hi => ?_)
      (fun none => absurd none cons_ne_zero) stays
    rcases mem_cons.mp hi with rfl | hun
    · refine ⟨e, by simp, rfl, ?_⟩
      rw [if_pos (hst.flagged e (mem_cons_self _ _)), if_neg (by simp)]
    · have hfl := hst.flagged u (mem_cons_of_mem hun)
      exact ⟨u, by simp [hun], rfl, by rw [if_pos hfl, if_pos hfl]⟩

lemma Popped.versions (hpop : Popped transID l v b b') : ∀ e ∈ b'.versions,
    ∃ u ∈ b.versions, u.verID = e.verID ∧ u.data.locked = e.data.locked := by
  intro e hi
  cases hpop with
  | @intro K main buffered top e' rest d hst hhi own hlo hn hver =>
    rcases mem_cons.mp (mem_settled hi) with rfl | hun
    · exact ⟨e', by simp, rfl, rfl⟩
    · exact ⟨e, by simp [hun], rfl, rfl⟩

/-- A path of aging keeps the image committed last. -/
lemma aged_last {v w : View} {committed main : Int → Image} {buffered : Int → Int → Image}
    (path : Relation.ReflTransGen AgeStep v w) (hor : ∀ l, (v.block l).Orderly)
    (last : ∀ l, LastCommitted (committed l) (main l) (buffered l) (v.block l).versions) :
    (∀ l, (w.block l).Orderly) ∧
      ∀ l, LastCommitted (committed l) (main l) (buffered l) (w.block l).versions := by
  induction path with
  | refl => exact ⟨hor, last⟩
  | tail _ step ih =>
    obtain ⟨hord, kept⟩ := ih
    refine ⟨step.orderly hord, fun l => ?_⟩
    rcases step.block_cases hord l with he | ⟨top, e, rest, hb, hst, hung, ha⟩
    · rw [he]
      exact kept l
    · have hh := kept l
      rw [hb] at hh
      rw [ha]
      exact LastCommitted.aged hst hh hung

end Blocks

variable {r : Reply}

lemma oneEach_of_orderly (hor : ∀ l, ((view n).block l).Orderly) : OneEach n.vbbm := by
  have single : ∀ l, ((copiesOf (contents n.vbbm) l).map Entry.verID).Nodup := by
    intro l
    rcases hor l with hem | ⟨top, older, -, hst⟩
    · rw [show copiesOf (contents n.vbbm) l = 0 from congrArg Block.copies hem]
      exact nodup_zero
    · exact hst.single
  rw [OneEach, nodup_iff_count_le_one]
  rintro ⟨l, v⟩
  have block := single l
  rw [copies_keys] at block
  have once := nodup_iff_count_le_one.mp (Multiset.Nodup.of_map Prod.snd block) (l, v)
  rwa [count_filter_of_pos (p := fun k : Int × Int => k.1 = l) rfl] at once

/-- What a request leaves of every block. -/
lemma begin_blocks (hco : Coherent cfg s) {vbOID : BrmTypes.DBRootsStruct} {dbrIndex : Fin 4}
    {ranges : List LBIDRange}
    (ran : (Command.beginVBCopy transID vbOID dbrIndex ranges).run cfg s.node = some (r, n))
    (ok : r.code = .ok) : ∃ d, Survivors s.node.vbbm (vbOID.get dbrIndex) (requested ranges) d ∧
      (∀ l, LastCommitted (s.committed l) (s.main l) (s.buffered l)
        (versionsOf (contents n.vss) l)) ∧
      ∀ l, versionsOf (contents n.vss) l = settled (uncopied
        (AgedOut cfg s.node.vbbm (vbOID.get dbrIndex) (requested ranges))
        ⟨versionsOf (contents s.node.vss) l, copiesOf d l⟩) := by
  have served := begin_served (reachable_sound hco.reachable)
    (reachable_filed hco.reachable).now (oneEach_of_orderly hco.orderly) ran ok
  obtain ⟨d, hcar, path⟩ := served.aged
  have start : ∀ l, (View.block ⟨contents s.node.vss, d⟩ l).Orderly := fun l =>
    (recopied_of_keys (v := view s.node) (w := ⟨contents s.node.vss, d⟩) rfl
      (map_le_map hcar.1) l).orderly (hco.orderly l)
  have steps : Relation.ReflTransGen AgeStep ⟨contents s.node.vss, d⟩ (view n) := by
    refine Relation.ReflTransGen.mono ?_ _ _ path
    rintro v w ⟨x, held, -, rest⟩
    exact ⟨x, held, rest⟩
  exact ⟨d, hcar, (aged_last steps start hco.last).2, aged_versions start path served.clear⟩

variable {e : Event Image}

/-- What a confirmed command does to every block. -/
inductive Confirmed (cfg : NodeConfig) (s : System Image) (c : Command) (t : System Image) :
    Prop where
  | moved {transID : Int} (active : Active s.sessions transID)
      (blocks : ∀ l, Moved transID l (s.block l) (t.block l))
  | rolledBack {transID : Int} {lbids : List Int} (command : c.rollsBack = some (transID, lbids))
      (blocks : ∀ l, (l ∉ lbids ∧ s.block l = t.block l) ∨
        (l ∈ lbids ∧ Popped transID l (getHighestVerInVB cfg.vssHasher s.node.vss l transID)
          (s.block l) (t.block l)))
  | begun {transID : Int} {vbOID : BrmTypes.DBRootsStruct} {dbrIndex : Fin 4}
      {ranges : List LBIDRange} {d : Copies}
      (command : c = .beginVBCopy transID vbOID dbrIndex ranges)
      (carried : Survivors s.node.vbbm (vbOID.get dbrIndex) (requested ranges) d)
      (last : ∀ l, (t.block l).Last)
      (blocks : ∀ l, t.block l = { s.block l with versions := settled (uncopied
        (AgedOut cfg s.node.vbbm (vbOID.get dbrIndex) (requested ranges))
        ⟨(s.block l).versions, copiesOf d l⟩) })

lemma versions_confirmChanges (c : Command) (n : SlaveDBRMNode) :
    contents (confirmChanges c n).vss = contents n.vss :=
  congrArg View.versions (view_confirmChanges c n)

lemma confirmed_blocks (hco : Coherent cfg s) (proper : Proper s c)
    (hal : WritesAlone s.node c) (ran : c.run cfg s.node = some (r, n)) (ok : r.code = .ok) :
    Confirmed cfg s c (s.confirm cfg c (confirmChanges c n)) := by
  have hs := reachable_sound hco.reachable
  have he : view (confirmChanges c n) = view n := view_confirmChanges c n
  obtain ⟨transID, whose, hact⟩ := proper.active
  cases c with
  | beginVBCopy T vbOID dbrIndex ranges =>
    obtain ⟨d, hcar, last, left⟩ := begin_blocks hco ran ok
    rw [← versions_confirmChanges (.beginVBCopy T vbOID dbrIndex ranges) n] at last left
    refine .begun rfl hcar last fun l => ?_
    simp only [System.block, System.confirm, left l]
  | writeVBEntry T lbid dbrIdx vbOID vbFBO =>
    cases whose
    have hwr := written_of_run hs proper.real ran ok
    rw [← he] at hwr
    exact .moved hact (write_moved hco hal hwr)
  | vbCommit T =>
    obtain rfl := Option.some.inj whose
    obtain ⟨-, rfl⟩ := Prod.mk.inj (Option.some.inj ran)
    refine .moved hact (commit_moved hco ?_)
    rw [versions_confirmChanges, (commit_spec T s.node.vss).2]
  | vbRollback T lbidList =>
    have hrol := rolledBack_of_run hs (c := .vbRollback T lbidList) rfl ran
    obtain ⟨hdi, held⟩ := proper.rollback _ _ rfl
    rw [← he] at hrol
    exact .rolledBack rfl (rollback_moved hco hdi (fun l hn => (held l).mp hn) hrol)
  | vbRollbackBlocks T lbidList =>
    have hrol := rolledBack_of_run hs (c := .vbRollbackBlocks T lbidList) rfl ran
    obtain ⟨hdi, held⟩ := proper.rollback _ _ rfl
    rw [← he] at hrol
    exact .rolledBack rfl (rollback_moved hco hdi (fun l hn => (held l).mp hn) hrol)
  | deleteOID lbids => cases whose

lemma RollsBackUncommitted.own (rollback : RollsBackUncommitted n c) : RollsBackOwn n c := by
  intro transID lbids command
  obtain ⟨hdi, held⟩ := rollback transID lbids command
  exact ⟨hdi, fun l hn => (held l).mp hn⟩

/-- The versions a confirmed command leaves were there, or are its transaction's, or 0. -/
lemma Confirmed.versions (hcf : Confirmed cfg s c t) : ∀ e ∈ contents t.node.vss,
    Accounted (Active s.sessions) (contents s.node.vss) e := by
  intro e inside
  have member : e ∈ (t.block e.lbid).versions := mem_versionsOf.mpr ⟨inside, rfl⟩
  have old : ∀ u ∈ (s.block e.lbid).versions, u ∈ contents s.node.vss := fun u there =>
    (mem_versionsOf.mp there).1
  cases hcf with
  | moved hact blocks =>
    exact ((blocks e.lbid).versions e member).mono (fun _ own => own ▸ hact) old
  | rolledBack command blocks =>
    rcases blocks e.lbid with ⟨-, same⟩ | ⟨-, hpop⟩
    · rw [← same] at member
      exact .of_old (old e member) rfl id
    · obtain ⟨u, there, version, locked⟩ := hpop.versions e member
      exact .of_old (old u there) version fun held => locked.trans held
  | begun command hcar last blocks =>
    rw [blocks] at member
    exact .of_old (old e (mem_uncopied.mp (mem_settled member)).1) rfl id

lemma Confirmed.last (hcf : Confirmed cfg s c t) (last : ∀ l, (s.block l).Last) (l : Int) :
    (t.block l).Last := by
  cases hcf with
  | moved hact blocks => exact (blocks l).last (last l)
  | rolledBack command blocks =>
    rcases blocks l with ⟨-, he⟩ | ⟨-, hpop⟩
    · rw [← he]
      exact last l
    · exact hpop.last (last l)
  | begun command hcar kept blocks => exact kept l

lemma sessions_confirm (cfg : NodeConfig) (s : System Image) (c : Command) (n : SlaveDBRMNode) :
    (s.confirm cfg c n).sessions = s.sessions ∧ (s.confirm cfg c n).node = n := by
  cases c <;> exact ⟨rfl, rfl⟩

variable (hco : Coherent cfg s)
include hco

/-- A step that keeps the versions and the sessions. -/
lemma Coherent.undone (proper : Proper s c) {u : SlaveDBRMNode} (hq : Quiet s.node)
    (locks : c.locksVSS = true) (ran : c.run cfg s.node = some (r, n))
    (undo : undoChanges c n = some u) :
    contents u.vss = contents s.node.vss ∧ Coherent cfg { s with node := u } := by
  have hs := reachable_sound hco.reachable
  have he := undone_versions hs hq proper.real ran undo locks
  refine ⟨he, .step hco.reachable proper.real (.undone ran undo),
    (undone_effect hs hq proper.real ran undo).orderly
      (RollsBackUncommitted.own proper.rollback) hco.orderly,
    ?_, hco.numbered, ?_, ?_⟩
  · intro l
    rw [he]
    exact hco.last l
  · rw [he]
    exact hco.given
  · rw [he]
    exact hco.active

lemma Coherent.stored (held : LockedBy s.node transID lbid) (image : Image) :
    Coherent cfg { s with main := update s.main lbid image } := by
  refine ⟨hco.reachable, hco.orderly, fun l => ?_, hco.numbered, hco.given, hco.active⟩
  by_cases hh : l = lbid
  · subst hh
    obtain ⟨e, hi, hn, -, hlo⟩ := held
    show LastCommitted _ (update s.main l image l) _ _
    rw [update_self]
    exact (hco.last l).stored ⟨e, mem_versionsOf.mpr ⟨hi, hn⟩, hlo⟩ image
  · show LastCommitted _ (update s.main lbid image l) _ _
    rw [update_of_ne hh]
    exact hco.last l

lemma Coherent.opened {session : Nat} {block isDDL : Bool} {txn : TxnID}
    {sm : SessionManagerServer} (ran : newTxnID session block isDDL s.sessions = some (txn, sm)) :
    Coherent cfg { s with sessions := sm } := by
  have hnu := newTxnID_numbered hco.numbered ran
  rcases newTxnID_cases ran with rfl | ⟨next, hop⟩
  · exact hco
  refine ⟨hco.reachable, hco.orderly, hco.last, hnu, fun e hi => ?_,
    fun e hi hlo => (hop e.verID).mpr (Or.inr (hco.active e hi hlo))⟩
  have := hco.given e hi
  show e.verID ≤ sm._verID
  omega

lemma Coherent.finished {txn : TxnID} {sm : SessionManagerServer}
    (ran : finishTransaction txn s.sessions = some (.ok sm))
    (ended : ∀ l, ¬ LockedBy s.node txn.id l) : Coherent cfg { s with sessions := sm } := by
  obtain ⟨he, hact⟩ := finishTransaction_active ran
  refine ⟨hco.reachable, hco.orderly, hco.last,
    finishTransaction_numbered hco.numbered ran, ?_, fun e hi hlo => ?_⟩
  · show ∀ e ∈ contents s.node.vss, e.verID ≤ sm._verID
    rw [he]
    exact hco.given
  · refine (hact e.verID).mpr ⟨hco.active e hi hlo, fun own => ?_⟩
    exact ended e.lbid ⟨e, hi, rfl, own, hlo⟩

omit hco

section Contexts

variable {K : Int → Image}

/-- What a context still asks of a command: an aging request and a rollback leave it the version
it reads, or tell it that it came too late. -/
def Keeps (cfg : NodeConfig) (ctx : QueryContext) (s : System Image) : Event Image → Prop
  | .command c .confirmed =>
    (∀ transID vbOID dbrIndex ranges, c = .beginVBCopy transID vbOID dbrIndex ranges →
      ∀ d l, Survivors s.node.vbbm (vbOID.get dbrIndex) (requested ranges) d →
        StaysReadable ctx (versionsOf (contents s.node.vss) l) (uncopied
          (AgedOut cfg s.node.vbbm (vbOID.get dbrIndex) (requested ranges))
          ⟨versionsOf (contents s.node.vss) l, copiesOf d l⟩)) ∧
    ∀ transID lbids, c.rollsBack = some (transID, lbids) → ∀ l ∈ lbids,
      StaysReadable ctx (versionsOf (contents s.node.vss) l) (uncovered transID
        (getHighestVerInVB cfg.vssHasher s.node.vss l transID) (versionsOf (contents s.node.vss) l))
  | _ => True

/-- A context that finds the images of its capture, and whose transactions are still those that
were active then. -/
structure Reading (ctx : QueryContext) (K : Int → Image) (s : System Image) : Prop where
  serves : ∀ l, (s.block l).Serves ctx (K l)
  current : 0 ≤ ctx.currentScn
  past : ctx.currentScn ≤ s.sessions._verID
  zero : 0 ∉ ctx.txns
  hidden : ∀ transID, Active s.sessions transID → ¬ Visible ctx transID

/-- A context captured while the versions of every active transaction are locked. -/
lemma Coherent.reading (hco : Coherent cfg s)
    (hlo : ∀ e ∈ contents s.node.vss, Active s.sessions e.verID → e.data.locked = true) :
    Reading (verID s.sessions) s.committed s := by
  have hnu := hco.numbered
  refine ⟨fun l => ?_, hnu.natural, le_rfl, fun zero => ?_, fun transID hact hvis =>
    hvis.1 (mem_verID_txns.mpr hact)⟩
  · have hi : ∀ e ∈ versionsOf (contents s.node.vss) l, e ∈ contents s.node.vss :=
      fun e hm => (mem_versionsOf.mp hm).1
    have shape : versionsOf (contents s.node.vss) l = 0 ∨ ∃ top older,
        versionsOf (contents s.node.vss) l = top ::ₘ older ∧
          Stacked top older ((view s.node).block l).copies := by
      rcases hco.orderly l with none | hst
      · exact Or.inl (congrArg Block.versions none)
      · exact Or.inr hst
    refine (hco.last l).serves shape (fun e hm => hco.given e (hi e hm)) fun e hm => ?_
    rw [mem_verID_txns]
    exact ⟨hlo e (hi e hm), hco.active e (hi e hm)⟩
  · exact absurd (hnu.given 0 (mem_verID_txns.mp zero)).1 (lt_irrefl 0)

lemma Confirmed.serves (hco : Coherent cfg s) (hcf : Confirmed cfg s c t)
    (reading : Reading ctx K s) (keeps : Keeps cfg ctx s (.command c .confirmed)) (l : Int) :
    (t.block l).Serves ctx (K l) := by
  have hser := reading.serves l
  have hwh : settled (s.block l).versions = (s.block l).versions := (hco.orderly l).settled
  have huq := (hco.orderly l).unique
  cases hcf with
  | moved hact blocks =>
    exact (blocks l).serves hser (reading.hidden _ hact) reading.zero
  | rolledBack command blocks =>
    rcases blocks l with ⟨-, he⟩ | ⟨hn, hpop⟩
    · rw [← he]
      exact hser
    · exact hpop.serves hser hwh huq (keeps.2 _ _ command l hn)
  | begun command hcar last blocks =>
    rw [blocks l]
    refine SlaveNode.Serves.cut hser hwh huq (fun e hi => ?_) (fun _ => rfl)
      (keeps.1 _ _ _ _ command _ l hcar)
    exact ⟨e, (mem_uncopied.mp hi).1, rfl, rfl⟩

lemma Reading.stored (hco : Coherent cfg s) (reading : Reading ctx K s)
    (held : LockedBy s.node transID lbid) (image : Image) :
    Reading ctx K { s with main := update s.main lbid image } := by
  refine ⟨fun l => ?_, reading.current, reading.past, reading.zero, reading.hidden⟩
  by_cases hh : l = lbid
  · subst hh
    obtain ⟨e, hi, hn, -, hlo⟩ := held
    have hm : e ∈ versionsOf (contents s.node.vss) l := mem_versionsOf.mpr ⟨hi, hn⟩
    obtain ⟨top, older, shape, hst⟩ := stacked_of_mem (hco.orderly l) hm
    obtain ⟨own, -⟩ := held_top (hco.last l) hst shape ⟨e, hm, rfl, hlo⟩
    have hser := reading.serves l
    rw [BlockState.Serves, System.block, shape] at hser ⊢
    show SlaveNode.Serves ctx (K l) (update s.main l image l) _ _
    rw [update_self]
    refine SlaveNode.Serves.stored hst hser ?_ image
    exact reading.hidden _ (own.symm ▸ hco.active e hi hlo)
  · show SlaveNode.Serves ctx (K l) (update s.main lbid image l) _ _
    rw [update_of_ne hh]
    exact reading.serves l

lemma SystemStep.reading (hco : Coherent cfg s) (hca : Careful s e)
    (keeps : Keeps cfg ctx s e) (reading : Reading ctx K s) (next : SystemStep cfg s e t) :
    Reading ctx K t := by
  cases next with
  | @confirmed c r n proper ran ok =>
    have confirmed := confirmed_blocks hco proper hca ran ok
    obtain ⟨sessions, -⟩ := sessions_confirm cfg s c (confirmChanges c n)
    refine ⟨confirmed.serves hco reading keeps, reading.current, ?_, reading.zero, ?_⟩
    · rw [sessions]
      exact reading.past
    · rw [sessions]
      exact reading.hidden
  | undone proper ran undo =>
    obtain ⟨he, -⟩ := hco.undone proper hca.1 hca.2 ran undo
    refine ⟨fun l => ?_, reading.current, reading.past, reading.zero, reading.hidden⟩
    have serves := reading.serves l
    rw [BlockState.Serves, System.block] at serves ⊢
    rw [he]
    exact serves
  | stored held image => exact reading.stored hco held image
  | opened ran =>
    rcases newTxnID_cases ran with rfl | ⟨next, opened⟩
    · exact reading
    have past := reading.past
    refine ⟨reading.serves, reading.current, ?_, reading.zero, fun transID active => ?_⟩
    · rw [next]
      omega
    rcases (opened transID).mp active with rfl | hb
    · -- a later number than that of the context
      intro visible
      have := visible.2
      omega
    · exact reading.hidden transID hb
  | finished ran ended =>
    obtain ⟨he, active⟩ := finishTransaction_active ran
    refine ⟨reading.serves, reading.current, ?_, reading.zero, fun transID still =>
      reading.hidden transID ((active transID).mp still).1⟩
    show ctx.currentScn ≤ _
    rw [he]
    exact reading.past

/-- Nothing has been written, and the next transaction is the given one. -/
def untouched (transID : Int) : System Bool :=
  ⟨initial, started 2 (transID - 1) 0, fun _ => false, fun _ _ => false, fun _ => false⟩

/-- A step of a careful run. -/
def TakenStep (cfg : NodeConfig) (s t : System Image) : Prop :=
  ∃ e, Careful s e ∧ SystemStep cfg s e t

lemma SystemStep.taken (next : SystemStep cfg s e t) (hca : Careful s e) : TakenStep cfg s t :=
  ⟨e, hca, next⟩

end Contexts

end Snapshots
