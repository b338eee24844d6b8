import Mathlib.Data.List.Sort
import Mathlib.Data.List.Perm.Basic

/-!
# Slices of a sorted sequence kept by a priority queue

A comparison is a Boolean `less` that orders values up to equal keys. Whatever keeps a
block of least values of a sequence, and splits the block again from above, holds a slice
of the sorted sequence as far as the keys go. A priority queue is any pair of operations
on lists that keeps the heap condition of the C++ library, the greatest value first.
-/

namespace TopSlices

open List

variable {α β : Type}

structure WeakOrder (less : α → α → Bool) : Prop where
  asymm {a b : α} : less a b = true → less b a = false
  trans {a b c : α} : less b a = false → less c b = false → less c a = false

namespace WeakOrder

variable {less : α → α → Bool} (weak : WeakOrder less)
include weak

lemma irrefl (a : α) : less a a = false := by
  cases hl : less a a with
  | false => rfl
  | true => rw [weak.asymm hl] at hl; contradiction

lemma pullback (f : β → α) : WeakOrder fun p q => less (f p) (f q) where
  asymm := weak.asymm
  trans := weak.trans

end WeakOrder

/-- Values that `less` does not tell apart are those with equal keys. -/
structure Orders (less : α → α → Bool) (key : α → β) : Prop extends WeakOrder less where
  same {a b : α} : less a b = false → less b a = false → key a = key b
  alike {a b : α} : key a = key b → less a b = false

def Sorted (less : α → α → Bool) (l : List α) : Prop := l.Pairwise fun a b => less b a = false

/-- No value of the second list is less than one of the first. -/
def Below (less : α → α → Bool) (lower upper : List α) : Prop :=
  ∀ a ∈ lower, ∀ b ∈ upper, less b a = false

def sort (less : α → α → Bool) (l : List α) : List α := l.mergeSort fun a b => !less b a

lemma sort_perm (less : α → α → Bool) (l : List α) : (sort less l).Perm l := mergeSort_perm l _

lemma sort_sorted {less : α → α → Bool} (weak : WeakOrder less) (l : List α) :
    Sorted less (sort less l) := by
  have hso := @pairwise_mergeSort _ (fun a b => !less b a) (fun a b c ab bc => by
      simp only [Bool.not_eq_true'] at ab bc ⊢
      exact weak.trans ab bc)
    (fun a b => by
      cases above : less b a with
      | false => rfl
      | true => rw [weak.asymm above]; rfl) l
  exact hso.imp fun ab => by simpa using ab

section Keys

variable {less : α → α → Bool} {key : α → β} (orders : Orders less key)
include orders

lemma sorted_keys {l₁ l₂ : List α} (hso₁ : Sorted less l₁) (hso₂ : Sorted less l₂)
    (perm : l₁.Perm l₂) : l₁.map key = l₂.map key := by
  -- keys are compared through any values that have them
  let le : β → β → Prop := fun x y => ∃ a b, key a = x ∧ key b = y ∧ less b a = false
  have keyed : ∀ {l : List α}, Sorted less l → (l.map key).Pairwise le := fun hso =>
    pairwise_map.mpr (hso.imp fun above => ⟨_, _, rfl, rfl, above⟩)
  refine @List.Perm.eq_of_pairwise _ le _ _ ?_ (keyed hso₁) (keyed hso₂) (perm.map key)
  rintro x y - - ⟨a, b, rfl, rfl, ab⟩ ⟨c, d, cy, dx, cd⟩
  have bc : less c b = false := orders.alike cy
  have da : less a d = false := orders.alike dx.symm
  exact orders.same (orders.trans (orders.trans bc cd) da) ab

/-- The middle one of three blocks, none reaching into the next, is a slice. -/
lemma slice_keys {rows lower middle upper l : List α} (hso : Sorted less l)
    (perm : l.Perm rows) (blocks : rows.Perm (lower ++ (middle ++ upper)))
    (low : Below less lower (middle ++ upper)) (high : Below less middle upper) :
    (((l.drop lower.length).take middle.length).map key).Perm (middle.map key) := by
  have hw : ∀ part : List α, ∀ a, a ∈ sort less part ↔ a ∈ part := fun part a =>
    (sort_perm less part).mem_iff
  have joined : Sorted less (sort less lower ++ (sort less middle ++ sort less upper)) := by
    refine pairwise_append.mpr ⟨sort_sorted orders.toWeakOrder _,
      pairwise_append.mpr ⟨sort_sorted orders.toWeakOrder _, sort_sorted orders.toWeakOrder _,
        fun a am b bu => high a ((hw _ a).mp am) b ((hw _ b).mp bu)⟩,
      fun a al b bmu => low a ((hw _ a).mp al) b ?_⟩
    simpa [hw] using bmu
  have keys := sorted_keys orders hso joined (perm.trans (blocks.trans
    ((sort_perm less lower).symm.append
      ((sort_perm less middle).symm.append (sort_perm less upper).symm))))
  have lengths : ∀ part : List α, ((sort less part).map key).length = part.length := fun part => by
    rw [length_map, (sort_perm less part).length_eq]
  rw [map_take, map_drop, keys, map_append, map_append, ← lengths lower,
    drop_left, ← lengths middle, take_left]
  exact (sort_perm less middle).map key

end Keys

/-- `kept` are least values of `seen`, at most `k` of them, and fewer only if all are kept. -/
structure Kept (less : α → α → Bool) (k : Nat) (seen kept : List α) : Prop where
  parts : ∃ dropped, seen.Perm (kept ++ dropped) ∧ Below less kept dropped ∧
    (dropped = [] ∨ kept.length = k)
  few : kept.length ≤ k

namespace Kept

variable {less : α → α → Bool} {k : Nat} {seen kept : List α}

lemma start : Kept less k [] [] :=
  ⟨⟨[], List.Perm.refl _, by simp [Below], Or.inl rfl⟩, Nat.zero_le _⟩

variable (hd : Kept less k seen kept)
include hd

lemma reorder {kept' : List α} (perm : kept.Perm kept') : Kept less k seen kept' := by
  obtain ⟨⟨hdr, parts, hl, full⟩, few⟩ := hd
  refine ⟨⟨hdr, parts.trans (perm.append_right _), fun a mem => hl a (perm.mem_iff.mpr mem),
    ?_⟩, ?_⟩
  · rwa [← perm.length_eq]
  · rwa [← perm.length_eq]

/-- Below the limit everything is kept. -/
lemma all (room : kept.length < k) : seen.Perm kept := by
  obtain ⟨⟨hdr, parts, -, full⟩, -⟩ := hd
  rcases full with rfl | full
  · simpa using parts
  · omega

lemma add (room : kept.length < k) (x : α) : Kept less k (seen ++ [x]) (kept ++ [x]) := by
  refine ⟨⟨[], ?_, by simp [Below], Or.inl rfl⟩, by rw [length_append]; exact room⟩
  rw [append_nil]
  exact (hd.all room).append_right [x]

omit hd

/-- What is not less than the greatest value kept is not less than any of them. -/
lemma skip (weak : WeakOrder less) {top : α} (hd : Kept less k seen kept)
    (full : kept.length = k) (hgr : ∀ a ∈ kept, less top a = false) {x : α}
    (above : less x top = false) : Kept less k (seen ++ [x]) kept := by
  obtain ⟨⟨hdr, parts, hl, -⟩, few⟩ := hd
  refine ⟨⟨hdr ++ [x], ?_, fun a mem b mem' => ?_, Or.inr full⟩, few⟩
  · rw [← append_assoc]
    exact parts.append_right [x]
  · rcases mem_append.mp mem' with old | new
    · exact hl a mem b old
    · rw [mem_singleton.mp new]
      exact weak.trans (hgr a mem) above

lemma replace (weak : WeakOrder less) {top : α} {rest : List α}
    (hd : Kept less k seen (top :: rest)) (full : (top :: rest).length = k)
    (hgr : ∀ a ∈ rest, less top a = false) {x : α} (hsm : less x top = true) :
    Kept less k (seen ++ [x]) (x :: rest) := by
  obtain ⟨⟨hdr, parts, hl, -⟩, -⟩ := hd
  have hun : less top x = false := weak.asymm hsm
  refine ⟨⟨top :: hdr, ?_, fun a mem b mem' => ?_, Or.inr full⟩, Nat.le_of_eq full⟩
  · refine (parts.append_right [x]).trans ?_
    refine perm_append_comm.trans ?_
    simpa using (@perm_middle _ top rest hdr).symm
  have beyond : less b top = false ∧ (b = top ∨ b ∈ hdr) := by
    rcases mem_cons.mp mem' with rfl | old
    · exact ⟨weak.irrefl b, Or.inl rfl⟩
    · exact ⟨hl top mem_cons_self b old, Or.inr old⟩
  rcases mem_cons.mp mem with rfl | old
  · exact weak.trans hun beyond.1
  · exact weak.trans (hgr a old) beyond.1

/-- Splitting the values kept from above leaves the slice behind the first `start` values. -/
lemma slice {key : α → β} (orders : Orders less key) {start count : Nat} {l low high : List α}
    (hd : Kept less (start + count) seen kept) (hso : Sorted less l) (perm : l.Perm seen)
    (split : kept.Perm (low ++ high)) (hl : Below less low high)
    (size : low.length = min start kept.length) :
    (high.map key).Perm (((l.drop start).take count).map key) := by
  obtain ⟨⟨hdr, parts, beyond, full⟩, few⟩ := hd
  have lengths := split.length_eq
  rw [length_append] at lengths
  have blocks : seen.Perm (low ++ (high ++ hdr)) := by
    rw [← append_assoc]
    exact parts.trans (split.append_right hdr)
  have cut := slice_keys orders hso perm blocks
    (fun a mem b mem' => (mem_append.mp mem').elim (hl a mem b)
      (beyond a (split.mem_iff.mpr (mem_append_left _ mem)) b))
    (fun a mem => beyond a (split.mem_iff.mpr (mem_append_right _ mem)))
  refine cut.symm.trans (List.Perm.of_eq (congrArg (List.map key) ?_))
  have total := (perm.trans blocks).length_eq
  simp only [length_append] at total
  rcases full with rfl | full
  · -- nothing was dropped, so both slices end with the sequence
    simp only [length_nil, Nat.add_zero] at total
    by_cases short : start ≤ kept.length
    · rw [size, Nat.min_eq_left short, take_of_length_le, take_of_length_le]
      · rw [length_drop]; omega
      · rw [length_drop]; omega
    · have none : high.length = 0 := by omega
      rw [none, take_zero, drop_eq_nil_of_le (by omega), take_nil]
  · rw [size, Nat.min_eq_left (by omega)]
    congr 1
    omega

end Kept

/-- The heap condition of the C++ library: no value is less than one of its children. -/
def IsHeap (less : α → α → Bool) (q : List α) : Prop :=
  ∀ i a b, 0 < i → q[(i - 1) / 2]? = some a → q[i]? = some b → less a b = false

namespace IsHeap

variable {less : α → α → Bool} {q : List α}

lemma congr {less' : α → α → Bool} (heap : IsHeap less q)
    (he : ∀ a ∈ q, ∀ b ∈ q, less a b = less' a b) : IsHeap less' q := by
  intro i a b hp at_a at_b
  rw [← he a (mem_of_getElem? at_a) b (mem_of_getElem? at_b)]
  exact heap i a b hp at_a at_b

lemma of_sorted (hso : q.Pairwise fun a b => less a b = false) : IsHeap less q := by
  intro i a b hp at_a at_b
  obtain ⟨parent, rfl⟩ := List.getElem?_eq_some_iff.mp at_a
  obtain ⟨child, rfl⟩ := List.getElem?_eq_some_iff.mp at_b
  exact List.pairwise_iff_getElem.mp hso _ _ parent child (by omega)

/-- The first value is a greatest one. -/
lemma greatest (weak : WeakOrder less) {top : α} {rest : List α}
    (heap : IsHeap less (top :: rest)) : ∀ a ∈ top :: rest, less top a = false := by
  have reach : ∀ (i : Nat) a, (top :: rest)[i]? = some a → less top a = false := by
    intro i
    induction i using Nat.strongRecOn with
    | ind i ih =>
      intro a at_a
      cases i with
      | zero =>
        obtain rfl : top = a := by simpa using at_a
        exact weak.irrefl top
      | succ i =>
        obtain ⟨hl, -⟩ := List.getElem?_eq_some_iff.mp at_a
        have parent : ∃ b, (top :: rest)[(i + 1 - 1) / 2]? = some b :=
          ⟨_, List.getElem?_eq_getElem (by omega)⟩
        obtain ⟨b, at_b⟩ := parent
        exact weak.trans (heap (i + 1) b a (Nat.succ_pos i) at_b at_a) (ih _ (by omega) b at_b)
  intro a mem
  obtain ⟨i, at_a⟩ := List.getElem?_of_mem mem
  exact reach i a at_a

end IsHeap

/-- A priority queue on lists whose first value is the top. What the operations do with the
rest of the list is left to them. -/
structure PriorityQueue (α : Type) where
  push : (α → α → Bool) → List α → α → List α
  pop : (α → α → Bool) → List α → List α
  push_perm {less : α → α → Bool} (weak : WeakOrder less) (q : List α) (x : α) :
    (push less q x).Perm (x :: q)
  pop_perm {less : α → α → Bool} (weak : WeakOrder less) (q : List α) : (pop less q).Perm q.tail
  push_heap {less : α → α → Bool} (weak : WeakOrder less) {q : List α} (x : α) :
    IsHeap less q → IsHeap less (push less q x)
  pop_heap {less : α → α → Bool} (weak : WeakOrder less) {q : List α} :
    IsHeap less q → IsHeap less (pop less q)

/-- Sorting after every operation is one way to keep the heap condition. -/
def descending (less : α → α → Bool) (q : List α) : List α :=
  q.insertionSort fun a b => less a b = false

lemma descending_heap {less : α → α → Bool} (weak : WeakOrder less) (q : List α) :
    IsHeap less (descending less q) := by
  have : Std.Total fun a b => less a b = false := ⟨fun a b => by
    cases hl : less a b with
    | false => exact Or.inl rfl
    | true => exact Or.inr (weak.asymm hl)⟩
  have : IsTrans α fun a b => less a b = false := ⟨fun a b c ab bc => weak.trans bc ab⟩
  exact IsHeap.of_sorted (pairwise_insertionSort _ q)

def PriorityQueue.sorting : PriorityQueue α where
  push less q x := descending less (x :: q)
  pop less q := descending less q.tail
  push_perm _ q x := perm_insertionSort _ (x :: q)
  pop_perm _ q := perm_insertionSort _ q.tail
  push_heap weak _ _ _ := descending_heap weak _
  pop_heap weak _ _ := descending_heap weak _

/-- Take values off the top, at most `count`, until `start` are left. -/
def PriorityQueue.takeTop (queue : PriorityQueue α) (less : α → α → Bool) (start : Nat) :
    Nat → List α → List α × List α
  | 0, q => ([], q)
  | _ + 1, [] => ([], [])
  | count + 1, top :: q =>
    if start < (top :: q).length then
      let rest := queue.takeTop less start count (queue.pop less (top :: q))
      (top :: rest.1, rest.2)
    else ([], top :: q)

end TopSlices
