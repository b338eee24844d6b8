import EryDb.RowOrder

/-!
# ORDER BY with LIMIT

`LimitedOrderBy` keeps the rows of a subquery that come first in its order. Rows are
copied into row groups of 8192 and never moved; a priority queue of pointers to them has the
greatest row on top, and once enough rows are held a smaller row overwrites the top one in
place. At the end the rows are taken from the row groups if the limit starts at the first
row, and from the queue, greatest first, if it does not. With DISTINCT a hash set of pointers
to the same rows turns away a row that equals one of them.
-/

namespace LimitedOrderBy

open List RowOrder TopSlices

variable {n : Nat} {F D : Type}

def fRowsPerRG : Nat := 8192

inductive Error where
  | limitTooBig
  deriving DecidableEq

/-- What `initialize` is given. The ORDER BY columns are positions in the row group, with
their directions; `hasher` hashes the fields of a row, one after the other. -/
structure Query (n : Nat) (F D : Type) where
  rg : RowGroup n F D
  orderByColVec : List (Fin n × Bool)
  fStart : UInt64
  fCount : UInt64
  fDistinct : Bool
  hasher : List F → UInt64

namespace Query

def fOrderByCond (q : Query n F D) : List (IdbSortSpec n) :=
  q.orderByColVec.map fun column => IdbSortSpec.of column.1 column.2

def rule (q : Query n F D) : List (Compare n) := compileRules q.fOrderByCond q.rg.types

def getKeyLength (_ : Query n F D) : Nat := n

end Query

/-- `Row::hash` over the columns up to `lastCol`. -/
def rowHash (q : Query n F D) (lastCol : Nat) (r : Row n F) : UInt64 :=
  if lastCol ≥ n then 0
  else q.hasher (((List.finRange n).filter fun i : Fin n => decide (i.val ≤ lastCol)).map r)

/-- `Row::equals` over the columns up to `lastCol`. -/
def rowEquals [DecidableEq F] (lastCol : Nat) (r1 r2 : Row n F) : Bool :=
  if lastCol ≥ n then true
  else decide (∀ i : Fin n, (i : Nat) ≤ lastCol → r1 i = r2 i)

/-- Full row groups, the one being filled, the queue and the distinct set. A pointer is the
position of a row in the row groups. `requests` counts the calls of `getMemory`. -/
structure State (n : Nat) (F : Type) where
  fDataQueue : List (List (Row n F))
  fData : List (Row n F)
  fOrderByQueue : List Nat
  fDistinctMap : List Nat
  requests : Nat

/-- Overwrite one row of a sequence of row groups. -/
def setRow : List (List (Row n F)) → Nat → Row n F → List (List (Row n F))
  | [], _, _ => []
  | group :: groups, p, row =>
    if p < group.length then group.set p row :: groups
    else group :: setRow groups (p - group.length) row

namespace State

def rows (s : State n F) : List (Row n F) := s.fDataQueue.flatten ++ s.fData

def write (s : State n F) (p : Nat) (row : Row n F) : State n F :=
  if p < s.fDataQueue.flatten.length then { s with fDataQueue := setRow s.fDataQueue p row }
  else { s with fData := s.fData.set (p - s.fDataQueue.flatten.length) row }

def getMemory (memory : Nat → Bool) (s : State n F) : Except Error (State n F) :=
  if memory s.requests then .ok { s with requests := s.requests + 1 } else .error .limitTooBig

end State

section Code

variable [DecidableEq F] [Inhabited F] [LinearOrder D]

def rowAt (rows : List (Row n F)) (p : Nat) : Row n F := rows.getD p fun _ => default

variable (q : Query n F D)

def pointerLess (rows : List (Row n F)) (p₁ p₂ : Nat) : Bool :=
  less q.rg q.rule (rowAt rows p₁) (rowAt rows p₂)

/-- The comparison the distinct set makes: the hash of its bucket and `Eq`. -/
def sameEntry (r1 r2 : Row n F) : Bool :=
  rowHash q q.getKeyLength r1 == rowHash q q.getKeyLength r2 && rowEquals q.getKeyLength r1 r2

variable (queue : PriorityQueue Nat) (s : State n F)

def findDistinct (row : Row n F) : Option Nat :=
  s.fDistinctMap.find? fun p => sameEntry q (rowAt s.rows p) row

def insertDistinct (p : Nat) : State n F :=
  if (findDistinct q s (rowAt s.rows p)).isSome then s
  else { s with fDistinctMap := p :: s.fDistinctMap }

def eraseDistinct (row : Row n F) : State n F :=
  { s with fDistinctMap := s.fDistinctMap.filter fun p => !sameEntry q (rowAt s.rows p) row }

/-- Copy the row behind the rows held and push a pointer to it. -/
def addRow (memory : Nat → Bool) (s : State n F) (row : Row n F) : Except Error (State n F) :=
  let fRow0 := s.rows.length
  let s := { s with fData := s.fData ++ [row] }
  let s := { s with fOrderByQueue := queue.push (pointerLess q s.rows) s.fOrderByQueue fRow0 }
  let s := if q.fDistinct then insertDistinct q s fRow0 else s
  if s.fData.length ≥ fRowsPerRG then
    State.getMemory memory { s with fDataQueue := s.fDataQueue ++ [s.fData], fData := [] }
  else .ok s

/-- Overwrite the row on top of the queue. -/
def swapRow (top : Nat) (row : Row n F) : State n F :=
  let s := { s with fOrderByQueue := queue.pop (pointerLess q s.rows) s.fOrderByQueue }
  let s :=
    if q.fDistinct then insertDistinct q ((eraseDistinct q s row).write top row) top
    else s.write top row
  { s with fOrderByQueue := queue.push (pointerLess q s.rows) s.fOrderByQueue top }

/-- The queue is not empty in the third branch unless `fStart + fCount` wraps to zero, where the
code reads the top of an empty queue. -/
def processRow (memory : Nat → Bool) (s : State n F) (row : Row n F) : Except Error (State n F) :=
  if q.fDistinct ∧ (findDistinct q s row).isSome then .ok s
  else if q.fCount = 0 then .ok s
  else if s.fOrderByQueue.length < (q.fStart + q.fCount).toNat then addRow q queue memory s row
  else
    match s.fOrderByQueue with
    | [] => .ok s
    | top :: _ =>
      if q.fOrderByCond.length > 0 ∧ less q.rg q.rule row (rowAt s.rows top) then
        .ok (swapRow q queue s top row)
      else .ok s

/-- `finalize` copies a row behind those it has copied. -/
def copyOut (memory : Nat → Bool) (out : State n F) (row : Row n F) : Except Error (State n F) :=
  let out := { out with fData := out.fData ++ [row] }
  if out.fData.length ≥ fRowsPerRG then
    State.getMemory memory { out with fDataQueue := out.fDataQueue ++ [out.fData], fData := [] }
  else .ok out

/-- The loop of `finalize`: the rows on top are copied into new row groups. `rows` are the rows
the pointers point to, `out` holds what has been copied. -/
def drain (q : Query n F D) (queue : PriorityQueue Nat) (memory : Nat → Bool)
    (rows : List (Row n F)) : Nat → List Nat → State n F → Except Error (State n F)
  | 0, _, out => .ok out
  | _ + 1, [], out => .ok out
  | count + 1, top :: rest, out =>
    if (top :: rest).length > q.fStart.toNat then do
      let out ← copyOut memory out (rowAt rows top)
      drain q queue memory rows count (queue.pop (pointerLess q rows) (top :: rest)) out
    else .ok out

/-- The row groups with the one being filled, unless that is empty. -/
def State.groups : List (List (Row n F)) :=
  if s.fData.length > 0 then s.fDataQueue ++ [s.fData] else s.fDataQueue

def finalize (memory : Nat → Bool) (s : State n F) : Except Error (List (List (Row n F))) :=
  if q.fStart ≠ 0 then do
    let out ← State.getMemory memory { s with fDataQueue := [], fData := [] }
    let out ← drain q queue memory s.rows q.fCount.toNat s.fOrderByQueue out
    .ok out.groups
  else .ok s.groups

def initializeRows (memory : Nat → Bool) : Except Error (State n F) :=
  State.getMemory memory ⟨[], [], [], [], 0⟩

/-- The row groups `getData` hands out after all rows have been processed. -/
def run (memory : Nat → Bool) (rows : List (Row n F)) : Except Error (List (List (Row n F))) := do
  let s ← initializeRows memory
  let s ← rows.foldlM (processRow q queue memory) s
  finalize q queue memory s

end Code

/-- A computation whose results satisfy `P`, and which has one where memory is granted. -/
structure Ends {α : Type} (memory : Nat → Bool) (P : α → Prop) (x : Except Error α) : Prop where
  post : ∀ v, x = .ok v → P v
  returns : (∀ i, memory i = true) → ∃ v, x = .ok v

namespace Ends

variable {α β : Type} {memory : Nat → Bool} {P : α → Prop} {Q : β → Prop}

lemma ok {v : α} (hd : P v) : Ends memory P (.ok v) :=
  ⟨fun _ he => by cases he; exact hd, fun _ => ⟨v, rfl⟩⟩

lemma bind {x : Except Error α} {f : α → Except Error β} (left : Ends memory P x)
    (rest : ∀ v, P v → Ends memory Q (f v)) : Ends memory Q (x >>= f) := by
  cases x with
  | error e =>
    refine ⟨fun v he => (by cases he), fun hgr => ?_⟩
    obtain ⟨v, he⟩ := left.returns hgr
    cases he
  | ok a => exact rest a (left.post a rfl)

/-- A fold that keeps an invariant of the rows read so far. -/
lemma foldlM {γ : Type} {step : α → γ → Except Error α} {I : List γ → α → Prop}
    (keeps : ∀ seen v c, I seen v → Ends memory (I (seen ++ [c])) (step v c)) (rows seen : List γ)
    {v : α} (hd : I seen v) : Ends memory (I (seen ++ rows)) (rows.foldlM step v) := by
  induction rows generalizing seen v with
  | nil =>
    rw [append_nil]
    exact ok hd
  | cons c rows ih =>
    rw [foldlM_cons]
    refine (keeps seen v c hd).bind fun v' hd' => ?_
    have rest := ih (seen ++ [c]) hd'
    rwa [append_assoc] at rest

end Ends

variable {memory : Nat → Bool} {s : State n F}

lemma State.getMemory_ends {P : State n F → Prop} (hd : P { s with requests := s.requests + 1 }) :
    Ends memory P (s.getMemory memory) := by
  unfold State.getMemory
  split
  · exact Ends.ok hd
  · rename_i refused
    exact ⟨fun v he => (by cases he), fun hgr => absurd (hgr _) refused⟩

lemma flatten_setRow (groups : List (List (Row n F))) (p : Nat) (row : Row n F) :
    (setRow groups p row).flatten = groups.flatten.set p row := by
  induction groups generalizing p with
  | nil => rfl
  | cons group groups ih =>
    by_cases hw : p < group.length
    · rw [setRow, if_pos hw, flatten_cons, flatten_cons,
        set_append_left p row hw]
    · rw [setRow, if_neg hw, flatten_cons, flatten_cons, ih,
        set_append_right p row (Nat.le_of_not_lt hw)]

lemma State.rows_write (s : State n F) (p : Nat) (row : Row n F) :
    (s.write p row).rows = s.rows.set p row := by
  unfold State.write
  split
  · rename_i hw
    rw [State.rows, State.rows, flatten_setRow, set_append_left p row hw]
  · rename_i beyond
    rw [State.rows, State.rows, set_append_right p row (Nat.le_of_not_lt beyond)]

@[simp] lemma State.queue_write (s : State n F) (p : Nat) (row : Row n F) :
    (s.write p row).fOrderByQueue = s.fOrderByQueue := by
  unfold State.write
  split <;> rfl

lemma State.flatten_groups (s : State n F) : s.groups.flatten = s.rows := by
  unfold State.groups
  split
  · simp [State.rows]
  · rename_i none
    rw [State.rows, length_eq_zero_iff.mp (Nat.eq_zero_of_not_pos none), append_nil]

variable {p top : Nat} {rest : List Nat} {seen : List (Row n F)}

section Plain

variable [Inhabited F] [LinearOrder D] {q : Query n F D}

lemma rowAt_append {rows : List (Row n F)} (hl : p < rows.length) (more : List (Row n F)) :
    rowAt (rows ++ more) p = rowAt rows p := by
  simp [rowAt, getElem?_append_left hl]

lemma rowAt_set_ne {rows : List (Row n F)} {p' : Nat} (ho : p ≠ p') (row : Row n F) :
    rowAt (rows.set p row) p' = rowAt rows p' := by
  simp [rowAt, getElem?_set_ne ho]

lemma map_rowAt_range (rows : List (Row n F)) :
    (List.range rows.length).map (rowAt rows) = rows := by
  refine ext_getElem (by simp) fun i _ hl => ?_
  simp [rowAt, hl]

omit [Inhabited F] [LinearOrder D] in
lemma rule_directed (q : Query n F D) : Directed q.rule :=
  compileRules_directed q.orderByColVec q.rg.types

omit [Inhabited F] in
lemma rule_orders (q : Query n F D) : Orders (less q.rg q.rule) (keys q.rg q.rule) :=
  less_orders (rule_directed q)

lemma pointerLess_weak (q : Query n F D) (rows : List (Row n F)) : WeakOrder (pointerLess q rows) :=
  (rule_orders q).toWeakOrder.pullback (rowAt rows)

/-- The queue points to every row once, in heap order. -/
structure Queued (q : Query n F D) (rows : List (Row n F)) (pointers : List Nat) : Prop where
  all : pointers.Perm (List.range rows.length)
  heap : IsHeap (pointerLess q rows) pointers

namespace Queued

variable {rows : List (Row n F)} {pointers : List Nat}

variable (hq : Queued q rows pointers)
include hq

lemma mem_iff : p ∈ pointers ↔ p < rows.length := by
  rw [hq.all.mem_iff, mem_range]

lemma length : pointers.length = rows.length := by
  rw [hq.all.length_eq, length_range]

lemma rows_perm : rows.Perm (pointers.map (rowAt rows)) := by
  have listed := (hq.all.map (rowAt rows)).symm
  rwa [map_rowAt_range] at listed

omit hq

lemma push (queue : PriorityQueue Nat) (hq : Queued q rows pointers) (row : Row n F) :
    Queued q (rows ++ [row]) (queue.push (pointerLess q (rows ++ [row])) pointers rows.length) := by
  have weak := pointerLess_weak q (rows ++ [row])
  refine ⟨(queue.push_perm weak _ _).trans ?_, queue.push_heap weak _ (hq.heap.congr ?_)⟩
  · rw [length_append, length_singleton, range_succ]
    exact (hq.all.cons _).trans (perm_append_singleton _ _).symm
  · intro a mem b mem'
    rw [pointerLess, pointerLess, rowAt_append (hq.mem_iff.mp mem),
      rowAt_append (hq.mem_iff.mp mem')]

/-- The row on top is not less than any row. -/
lemma top_greatest (hq : Queued q rows (top :: rest)) :
    ∀ a ∈ rows, less q.rg q.rule (rowAt rows top) a = false := by
  intro a mem
  obtain ⟨p, listed, rfl⟩ := mem_map.mp (hq.rows_perm.mem_iff.mp mem)
  exact hq.heap.greatest (pointerLess_weak q rows) p listed

lemma swap (queue : PriorityQueue Nat) (hq : Queued q rows (top :: rest)) (row : Row n F) :
    Queued q (rows.set top row) (queue.push (pointerLess q (rows.set top row))
      (queue.pop (pointerLess q rows) (top :: rest)) top) := by
  have weak := pointerLess_weak q (rows.set top row)
  have hpop := queue.pop_perm (pointerLess_weak q rows) (top :: rest)
  have once : (top :: rest).Nodup := hq.all.nodup_iff.mpr nodup_range
  refine ⟨(queue.push_perm weak _ _).trans ?_, queue.push_heap weak _
    ((queue.pop_heap (pointerLess_weak q rows) hq.heap).congr ?_)⟩
  · rw [length_set]
    exact (hpop.cons top).trans hq.all
  -- the row overwritten is not in the queue when its place is changed
  intro a mem b mem'
  have hap : ∀ p ∈ queue.pop (pointerLess q rows) (top :: rest), top ≠ p := fun p listed he =>
    (nodup_cons.mp once).1 (he ▸ hpop.mem_iff.mp listed)
  rw [pointerLess, pointerLess, rowAt_set_ne (hap a mem), rowAt_set_ne (hap b mem')]

end Queued

variable [DecidableEq F]

/-- The rows held are least rows of those seen, and the queue points to them. -/
structure Holds (q : Query n F D) (seen : List (Row n F)) (s : State n F) : Prop where
  queued : Queued q s.rows s.fOrderByQueue
  kept : Kept (less q.rg q.rule) (q.fStart.toNat + q.fCount.toNat) seen s.rows

variable (queue : PriorityQueue Nat)

lemma Holds.swap (hpl : q.fDistinct = false) (hd : Holds q seen s)
    (left : s.fOrderByQueue = top :: rest) (full : s.rows.length = q.fStart.toNat + q.fCount.toNat)
    {row : Row n F} (hsm : less q.rg q.rule row (rowAt s.rows top) = true) :
    Holds q (seen ++ [row]) (swapRow q queue s top row) := by
  obtain ⟨hq, kept⟩ := hd
  rw [left] at hq
  have hl : top < s.rows.length := hq.mem_iff.mp mem_cons_self
  have hh : s.rows[top] = rowAt s.rows top := by simp [rowAt, hl]
  have out : s.rows.Perm (rowAt s.rows top :: s.rows.eraseIdx top) := by
    rw [← hh]
    exact (getElem_cons_eraseIdx_perm hl).symm
  have replaced := (kept.reorder out).replace (rule_orders q).toWeakOrder
    (out.length_eq.symm.trans full)
    (fun a mem => hq.top_greatest a (out.mem_iff.mpr (mem_cons_of_mem _ mem))) hsm
  have rows : (swapRow q queue s top row).rows = s.rows.set top row := by
    simp only [swapRow, hpl, Bool.false_eq_true, if_false]
    exact State.rows_write _ top row
  refine ⟨?_, ?_⟩
  · have swapped := hq.swap queue row
    rw [← rows, ← left] at swapped
    simp only [swapRow, hpl, Bool.false_eq_true, if_false, State.queue_write] at swapped ⊢
    exact swapped
  · rw [rows]
    exact replaced.reorder (set_perm_cons_eraseIdx hl row).symm

omit [Inhabited F] [DecidableEq F] in
lemma copyOut_ends (out : State n F) (row : Row n F) :
    Ends memory (fun out' : State n F => out'.rows = out.rows ++ [row])
      (copyOut memory out row) := by
  rw [copyOut]
  split
  · exact State.getMemory_ends (by simp [State.rows])
  · exact Ends.ok (by simp [State.rows])

omit [DecidableEq F] in
lemma drain_ends (rows : List (Row n F)) (count : Nat) (pointers : List Nat) (out : State n F) :
    Ends memory (fun out' : State n F => out'.rows = out.rows ++
        (queue.takeTop (pointerLess q rows) q.fStart.toNat count pointers).1.map (rowAt rows))
      (drain q queue memory rows count pointers out) := by
  induction count generalizing pointers out with
  | zero => exact Ends.ok (by simp [PriorityQueue.takeTop])
  | succ count ih =>
    cases pointers with
    | nil => exact Ends.ok (by simp [PriorityQueue.takeTop])
    | cons top rest =>
      rw [drain, PriorityQueue.takeTop]
      split_ifs
      · refine (copyOut_ends out (rowAt rows top)).bind fun out' left => ?_
        have rest' := ih (queue.pop (pointerLess q rows) (top :: rest)) out'
        rw [left, append_assoc] at rest'
        exact rest'
      · exact Ends.ok (by simp)

variable (q memory) in
omit [DecidableEq F] in
/-- With an offset the rows are copied from the top of the queue. -/
lemma finalize_rows (s : State n F) : Ends memory (fun groups => groups.flatten =
      if q.fStart ≠ 0 then (queue.takeTop (pointerLess q s.rows) q.fStart.toNat q.fCount.toNat
        s.fOrderByQueue).1.map (rowAt s.rows) else s.rows) (finalize q queue memory s) := by
  rw [finalize]
  split
  · have hem : Ends memory (fun out : State n F => out.rows = [])
        (State.getMemory memory { s with fDataQueue := [], fData := [] }) :=
      State.getMemory_ends rfl
    refine hem.bind fun out none => ?_
    refine (drain_ends queue s.rows q.fCount.toNat s.fOrderByQueue out).bind
      fun out' drained => Ends.ok ?_
    rw [State.flatten_groups, drained, none, nil_append]
  · exact Ends.ok (State.flatten_groups s)

omit [DecidableEq F] in
lemma Holds.start (q : Query n F D) (requests : Nat) : Holds q [] ⟨[], [], [], [], requests⟩ :=
  ⟨⟨List.Perm.refl _, fun _ _ _ _ at_a => by simp at at_a⟩, Kept.start⟩

/-- A limit of zero rows keeps none. -/
lemma run_none (zero : q.fCount = 0) (rows : List (Row n F)) :
    Ends memory (fun groups => groups.flatten = []) (run q queue memory rows) := by
  have begun : Ends memory (fun s : State n F => s.rows = []) (initializeRows memory) :=
    State.getMemory_ends rfl
  refine begun.bind fun s none => ?_
  have idle : Ends memory (fun s : State n F => s.rows = [])
      (rows.foldlM (processRow q queue memory) s) :=
    Ends.foldlM (I := fun _ (s : State n F) => s.rows = []) (fun _ s row none => by
      rw [processRow, if_pos zero, ite_self]
      exact Ends.ok none) rows [] none
  refine idle.bind fun s none => ?_
  obtain ⟨all, returns⟩ := finalize_rows memory q queue s
  refine ⟨fun groups he => ?_, returns⟩
  rw [all groups he, zero, none]
  exact ite_self []

end Plain

/-- One BIGINT column in ascending order. -/
def oneColumn (fDistinct : Bool) (fStart fCount : UInt64) : Query 1 Int Int where
  rg :=
    { isNullValue := fun _ _ => false
      getIntField := id
      getUintField := Int.toNat
      getStringField := fun _ => []
      getDoubleField := id
      getFloatField := id
      types := fun _ => .bigint }
  orderByColVec := [(0, true)]
  fStart := fStart
  fCount := fCount
  fDistinct := fDistinct
  hasher := fun _ => 7

section Distinct

variable [DecidableEq F] [Inhabited F] [LinearOrder D] {q : Query n F D}

omit [Inhabited F] [LinearOrder D] in
/-- The set is asked to compare one column more than there are, so any two rows are the same
entry to it. -/
lemma sameEntry_always (r1 r2 : Row n F) : sameEntry q r1 r2 = true := by
  simp [sameEntry, rowHash, rowEquals, Query.getKeyLength]

omit [LinearOrder D] in
lemma findDistinct_isSome (s : State n F) (row : Row n F) :
    (findDistinct q s row).isSome = true ↔ s.fDistinctMap ≠ [] := by
  rw [findDistinct]
  cases s.fDistinctMap with
  | nil => simp
  | cons p ps => simp [sameEntry_always]

/-- With DISTINCT only the first row is held. -/
structure OneRow (seen : List (Row n F)) (s : State n F) : Prop where
  rows : s.rows = seen.take 1
  queue : s.fOrderByQueue.length = s.rows.length
  set : s.fDistinctMap = [] ↔ seen = []

lemma processRow_distinct (queue : PriorityQueue Nat) (hdi : q.fDistinct = true)
    (fits : q.fStart.toNat + q.fCount.toNat < 2 ^ 64) (some' : q.fCount ≠ 0) (seen : List (Row n F))
    (s : State n F) (row : Row n F) (hd : OneRow seen s) :
    Ends memory (OneRow (seen ++ [row])) (processRow q queue memory s row) := by
  cases seen with
  | cons left seen =>
    have hf : (findDistinct q s row).isSome = true :=
      (findDistinct_isSome s row).mpr fun none => by simpa using hd.set.mp none
    rw [processRow, if_pos ⟨hdi, hf⟩]
    exact Ends.ok ⟨hd.rows, hd.queue, by simpa using hd.set⟩
  | nil =>
    have hem : s.fDistinctMap = [] := hd.set.mpr rfl
    have missing : ¬ (findDistinct q s row).isSome = true := fun hf =>
      (findDistinct_isSome s row).mp hf hem
    have rows : s.rows = [] := hd.rows
    have limit : s.fOrderByQueue.length < (q.fStart + q.fCount).toNat := by
      rw [hd.queue, rows, UInt64.toNat_add, Nat.mod_eq_of_lt fits]
      have : q.fCount.toNat ≠ 0 := fun zero => some' (UInt64.toNat_inj.mp zero)
      simp only [length_nil]
      omega
    obtain ⟨groups, data⟩ : s.fDataQueue.flatten = [] ∧ s.fData = [] := by
      simpa [State.rows] using rows
    rw [processRow, if_neg fun both => missing both.2, if_neg some', if_pos limit, addRow]
    have pushed := queue.push_perm
      (pointerLess_weak q (s.fDataQueue.flatten ++ (s.fData ++ [row]))) s.fOrderByQueue
      s.rows.length
    have none : s.fOrderByQueue = [] := by
      rw [← length_eq_zero_iff, hd.queue, rows, length_nil]
    simp only [hdi, insertDistinct, findDistinct, hem, find?_nil, Option.isSome_none,
      Bool.false_eq_true, if_false, if_true]
    rw [if_neg (by simp [data, fRowsPerRG])]
    refine Ends.ok ⟨by simp [State.rows, groups, data], ?_, by simp⟩
    simp only [State.rows] at pushed ⊢
    rw [pushed.length_eq]
    simp [groups, data, none]

/-- The rows handed out. -/
lemma run_distinct (queue : PriorityQueue Nat) (hdi : q.fDistinct = true)
    (fits : q.fStart.toNat + q.fCount.toNat < 2 ^ 64) (rows : List (Row n F)) :
    Ends memory (fun groups => groups.flatten =
        if q.fCount = 0 ∨ q.fStart ≠ 0 then [] else rows.take 1)
      (run q queue memory rows) := by
  by_cases zero : q.fCount = 0
  · simp only [zero, true_or, if_true]
    exact run_none queue zero rows
  have begun : Ends memory (OneRow (n := n) (F := F) []) (initializeRows memory) :=
    State.getMemory_ends ⟨rfl, rfl, by simp⟩
  refine begun.bind fun s hd => ?_
  have all : Ends memory (OneRow ([] ++ rows)) (rows.foldlM (processRow q queue memory) s) :=
    Ends.foldlM (processRow_distinct queue hdi fits zero) rows [] hd
  refine all.bind fun s' hd' => ?_
  rw [nil_append] at hd'
  obtain ⟨out, returns⟩ := finalize_rows memory q queue s'
  refine ⟨fun groups he => ?_, returns⟩
  simp only [out groups he, zero, false_or]
  split_ifs with offset
  · rw [map_eq_nil_iff]
    -- a queue of one row at most never holds more than `fStart`
    have few : s'.fOrderByQueue.length ≤ 1 := by
      rw [hd'.queue, hd'.rows, length_take]
      omega
    have hp : q.fStart.toNat ≠ 0 := fun none => offset (UInt64.toNat_inj.mp none)
    cases count : q.fCount.toNat with
    | zero => rfl
    | succ count =>
      cases listed : s'.fOrderByQueue with
      | nil => rfl
      | cons top rest =>
        rw [listed] at few
        rw [PriorityQueue.takeTop, if_neg (by omega)]
  · exact hd'.rows

/-- `out` has no row twice, and the keys of the slice of the distinct rows of `seen`. -/
structure DistinctSliceOf (q : Query n F D) (seen out : List (Row n F)) : Prop where
  unlike : out.Nodup
  keys : ∀ sorted : List (Row n F), sorted.Perm seen.dedup →
    (sorted.Pairwise fun a b => ¬ Precedes q.rg q.rule b a) → (out.map (keys q.rg q.rule)).Perm
      (((sorted.drop q.fStart.toNat).take q.fCount.toNat).map (keys q.rg q.rule))

omit [Inhabited F] in
/-- A sorted arrangement of the distinct rows. -/
lemma distinct_sorted (q : Query n F D) (seen : List (Row n F)) :
    ∃ sorted : List (Row n F), sorted.Perm seen.dedup ∧
      sorted.Pairwise fun a b => ¬ Precedes q.rg q.rule b a := by
  refine ⟨sort (less q.rg q.rule) seen.dedup, sort_perm _ _,
    (sort_sorted (rule_orders q).toWeakOrder seen.dedup).imp fun above => ?_⟩
  rw [← less_iff (rule_directed q), above]
  exact Bool.false_ne_true

omit [Inhabited F] in
lemma nil_distinctSlice (some' : q.fCount.toNat ≠ 0) :
    DistinctSliceOf q seen [] ↔ seen.dedup.length ≤ q.fStart.toNat := by
  constructor
  · intro slice
    obtain ⟨hso, perm, pairs⟩ := distinct_sorted q seen
    have none := (slice.keys hso perm pairs).length_eq
    simp only [map_nil, length_nil, length_map, length_take, length_drop, perm.length_eq] at none
    omega
  · intro few
    refine ⟨nodup_nil, fun hso perm _ => ?_⟩
    rw [drop_eq_nil_of_le (by rw [perm.length_eq]; exact few)]
    simp

omit [Inhabited F] in
lemma first_distinctSlice {r : Row n F} (zero : q.fStart.toNat = 0) (some' : q.fCount.toNat ≠ 0) :
    DistinctSliceOf q (r :: seen) [r] ↔ (r :: seen).dedup.length ≤ 1 ∨
      q.fCount.toNat = 1 ∧ ∀ r' ∈ r :: seen, ¬ Precedes q.rg q.rule r' r := by
  have hi : r ∈ (r :: seen).dedup := mem_dedup.mpr mem_cons_self
  have orders := rule_orders q
  have falls : ∀ a b, less q.rg q.rule a b = false ↔ ¬ Precedes q.rg q.rule a b := fun a b => by
    rw [← less_iff (rule_directed q), Bool.not_eq_true]
  constructor
  · intro slice
    obtain ⟨sorted, perm, pairs⟩ := distinct_sorted q (r :: seen)
    have listed := slice.keys sorted perm pairs
    rw [zero, drop_zero] at listed
    have size := listed.length_eq
    simp only [map_cons, map_nil, length_cons, length_nil, length_map,
      length_take, perm.length_eq] at size
    rcases Nat.lt_or_ge 1 (r :: seen).dedup.length with many | few
    · have one : q.fCount.toNat = 1 := by omega
      refine Or.inr ⟨one, fun r' mem => ?_⟩
      cases sorted with
      | nil => simpa using perm.mem_iff.mpr hi
      | cons x rest =>
        have he : keys q.rg q.rule r = keys q.rg q.rule x := by
          simpa [one] using listed
        have least : less q.rg q.rule r' x = false := by
          rcases mem_cons.mp (perm.mem_iff.mpr (mem_dedup.mpr mem)) with rfl | later
          · exact orders.irrefl r'
          · exact (falls r' x).mpr (rel_of_pairwise_cons pairs later)
        rw [← falls]
        exact orders.trans (orders.alike he.symm) least
    · exact Or.inl few
  · intro cases'
    refine ⟨nodup_singleton r, fun sorted perm pairs => ?_⟩
    rw [zero, drop_zero]
    have listed : r ∈ sorted := perm.mem_iff.mpr hi
    cases sorted with
    | nil => exact absurd listed (not_mem_nil)
    | cons x rest =>
      obtain ⟨k, count⟩ : ∃ k, q.fCount.toNat = k + 1 := ⟨q.fCount.toNat - 1, by omega⟩
      rw [count, take_succ_cons]
      rcases cases' with few | ⟨one, least⟩
      · have single : rest = [] := by
          have size := perm.length_eq
          rw [length_cons] at size
          exact length_eq_zero_iff.mp (by omega)
        subst single
        obtain rfl : r = x := by simpa using listed
        simp
      · have he : keys q.rg q.rule r = keys q.rg q.rule x := by
          refine orders.same ((falls r x).mpr ?_) ((falls x r).mpr (least x ?_))
          · rcases mem_cons.mp listed with rfl | later
            · exact (falls r r).mp (orders.irrefl r)
            · exact rel_of_pairwise_cons pairs later
          · exact mem_dedup.mp (perm.mem_iff.mp mem_cons_self)
        obtain rfl : k = 0 := by omega
        simp [he]

/-- With DISTINCT the rows handed out are the slice asked for exactly if no row beyond the first
was needed. -/
theorem limited_distinct_rows (q : Query n F D) (queue : PriorityQueue Nat) (memory : Nat → Bool)
    (rows : List (Row n F)) (distinct : q.fDistinct = true)
    (fits : q.fStart.toNat + q.fCount.toNat < 2 ^ 64) :
    (∀ out, run q queue memory rows = .ok out → (DistinctSliceOf q rows out.flatten ↔
        q.fCount = 0 ∨ (q.fStart ≠ 0 ∧ rows.dedup.length ≤ q.fStart.toNat) ∨
        (q.fStart = 0 ∧ rows.dedup.length ≤ 1) ∨ (q.fStart = 0 ∧ q.fCount = 1 ∧
          ∀ first ∈ rows.head?, ∀ r ∈ rows, ¬ Precedes q.rg q.rule r first))) ∧
    ((∀ i, memory i = true) → ∃ out, run q queue memory rows = .ok out) := by
  obtain ⟨post, returns⟩ : Ends memory _ (run q queue memory rows) :=
    run_distinct queue distinct fits rows
  refine ⟨fun out ran => ?_, returns⟩
  rw [post out ran]
  by_cases none : q.fCount = 0
  · simp only [none, true_or, if_true, iff_true]
    exact ⟨nodup_nil, fun sorted _ _ => by simp [none]⟩
  have some' : q.fCount.toNat ≠ 0 := fun zero => none (UInt64.toNat_inj.mp zero)
  by_cases offset : q.fStart = 0
  · have zero : q.fStart.toNat = 0 := by rw [offset]; rfl
    have one : q.fCount = 1 ↔ q.fCount.toNat = 1 := UInt64.toNat_inj.symm
    simp only [none, offset, ne_eq, not_true_eq_false, or_self, if_false, false_and, false_or,
      true_and]
    cases rows with
    | nil =>
      rw [take_nil, nil_distinctSlice some']
      simp [zero]
    | cons r rows =>
      rw [take_succ_cons, take_zero, first_distinctSlice zero some', one]
      simp
  · simp only [none, offset, ne_eq, not_false_eq_true, or_true, if_true, true_and, false_and,
      or_false, false_or]
    exact nil_distinctSlice some'

end Distinct

/-- Two different rows, both wanted: the second one is turned away as equal to the first. -/
theorem distinct_row_lost :
    run (oneColumn true 0 2) .sorting (fun _ => true) [fun _ => 1, fun _ => 2] =
        .ok [[fun _ => 1]] ∧
      ¬ DistinctSliceOf (oneColumn true 0 2) [fun _ => 1, fun _ => 2] [fun _ => 1] := by
  refine ⟨rfl, fun slice => ?_⟩
  obtain ⟨sorted, perm, pairs⟩ := distinct_sorted (oneColumn true 0 2) [fun _ => 1, fun _ => 2]
  have size := (slice.keys sorted perm pairs).length_eq
  have two : [fun _ : Fin 1 => (1 : Int), fun _ => 2].dedup.length = 2 := by decide
  rw [length_map, length_map, length_take, length_drop, perm.length_eq, two] at size
  exact absurd size (by decide)

theorem limited_distinct_rows_equalRows :
    run (oneColumn true 0 2) .sorting (fun _ => true) [fun _ => 1, fun _ => 1] =
        .ok [[fun _ => 1]] ∧
      DistinctSliceOf (oneColumn true 0 2) [fun _ => 1, fun _ => 1] [fun _ => 1] :=
  ⟨rfl, ((limited_distinct_rows (oneColumn true 0 2) .sorting (fun _ => true)
    [fun _ => 1, fun _ => 1] rfl (by decide)).1 [[fun _ => 1]] rfl).mpr
      (.inr (.inr (.inl ⟨rfl, by decide⟩)))⟩

end LimitedOrderBy
