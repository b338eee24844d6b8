import Mathlib.Data.List.Basic

/-!
# Undo by reverse replay of memory images

A memory is a value for every address. A record keeps the value an address had
when the record was made; undoing writes the records back, newest first. A write
is undone only when its address was recorded before it, and a record is of use
only while the segment it points into stays mapped: moving a segment leaves the
records of its addresses dangling, and replaying one of those is a memory fault.

Addresses carry their own value types. Nothing is assumed about what they are.
-/

namespace ImageUndo

universe u v

variable {Addr : Type u} [DecidableEq Addr] {Val : Addr → Type v}

structure ImageDelta (Val : Addr → Type v) where
  start : Addr
  data : Val start

/-- `undoRecords` is newest first; `dangling` counts records whose segment moved. -/
structure Undoable (Val : Addr → Type v) where
  image : (a : Addr) → Val a
  undoRecords : List (ImageDelta Val)
  dangling : Nat

def clean (image : (a : Addr) → Val a) : Undoable Val := ⟨image, [], 0⟩

def restore (image : (a : Addr) → Val a) (records : List (ImageDelta Val)) : (a : Addr) → Val a :=
  records.foldl (fun m d => Function.update m d.start d.data) image

namespace Undoable

def makeUndoRecord (s : Undoable Val) (a : Addr) : Undoable Val :=
  { s with undoRecords := ⟨a, s.image a⟩ :: s.undoRecords }

def store (s : Undoable Val) (a : Addr) (value : Val a) : Undoable Val :=
  { s with image := Function.update s.image a value }

/-- Give the addresses of one segment new contents at a new place. -/
def moveSegment (s : Undoable Val) (inside : Addr → Bool) (contents : (a : Addr) → Val a) :
    Undoable Val where
  image := fun a => if inside a then contents a else s.image a
  undoRecords := s.undoRecords.filter (fun d => !inside d.start)
  dangling := s.dangling + (s.undoRecords.filter (fun d => inside d.start)).length

def undoChanges (s : Undoable Val) : Option (Undoable Val) :=
  if s.dangling = 0 then some (clean (restore s.image s.undoRecords)) else none

def confirmChanges (s : Undoable Val) : Undoable Val := clean s.image

/-- The memory a replay of the records would leave. -/
def restored (s : Undoable Val) : (a : Addr) → Val a := restore s.image s.undoRecords

def Recorded (s : Undoable Val) (a : Addr) : Prop := ∃ d ∈ s.undoRecords, d.start = a

end Undoable

open Undoable

/-- What a replay leaves at an address depends on the memory there only when no
record of that address exists. -/
lemma restore_congr {image image' : (a : Addr) → Val a} {a : Addr}
    {records : List (ImageDelta Val)} (agree : (∃ d ∈ records, d.start = a) ∨ image a = image' a) :
    restore image records a = restore image' records a := by
  induction records generalizing image image' with
  | nil => simpa [restore] using agree
  | cons d records ih =>
    simp only [restore, List.foldl_cons]
    refine ih ?_
    by_cases he : d.start = a
    · subst he
      exact Or.inr (by simp)
    rcases agree with ⟨d', hm, start⟩ | heq
    · rcases List.mem_cons.mp hm with rfl | later
      · exact absurd start he
      · exact Or.inl ⟨d', later, start⟩
    · exact Or.inr (by simp [Function.update_of_ne (Ne.symm he), heq])

lemma restore_apply_of_not_recorded (image : (a : Addr) → Val a) {a : Addr}
    {records : List (ImageDelta Val)} (fresh : ∀ d ∈ records, d.start ≠ a) :
    restore image records a = image a := by
  induction records generalizing image with
  | nil => rfl
  | cons d records ih =>
    simp only [restore, List.foldl_cons]
    have later := ih (Function.update image d.start d.data)
      (fun d' hm => fresh d' (List.mem_cons_of_mem _ hm))
    refine later.trans ?_
    exact Function.update_of_ne (fresh d List.mem_cons_self).symm _ _

namespace Undoable

section
omit [DecidableEq Addr]
variable (s : Undoable Val) (a b : Addr)

@[simp] lemma recorded_makeUndoRecord : (s.makeUndoRecord a).Recorded b ↔ a = b ∨ s.Recorded b := by
  simp [Recorded, makeUndoRecord]

end

variable (s : Undoable Val) (a b : Addr)

variable (value : Val a)

@[simp] lemma image_store : (s.store a value).image = Function.update s.image a value := rfl

@[simp] lemma restored_makeUndoRecord : (s.makeUndoRecord a).restored = s.restored := by
  simp [restored, makeUndoRecord, restore]

variable {s a b}

lemma restored_store (hrec : s.Recorded a) : (s.store a value).restored = s.restored := by
  funext b
  refine restore_congr ?_
  by_cases he : b = a
  · subst he
    exact Or.inl hrec
  · exact Or.inr (Function.update_of_ne he _ _)

lemma restored_store_ne (ho : b ≠ a) : (s.store a value).restored b = s.restored b :=
  restore_congr (Or.inr (Function.update_of_ne ho _ _))

lemma restored_apply (fresh : ¬ s.Recorded a) : s.restored a = s.image a :=
  restore_apply_of_not_recorded s.image (fun d hm start => fresh ⟨d, hm, start⟩)

/-- From `s` to `t` nothing is written without a record of it. -/
structure Logged (s t : Undoable Val) : Prop where
  dangling : t.dangling = s.dangling
  restored : t.restored = s.restored
  records : ∀ a, s.Recorded a → t.Recorded a

lemma Logged.refl (s : Undoable Val) : Logged s s := ⟨rfl, rfl, fun _ => id⟩

lemma Logged.trans {s t u : Undoable Val} (first : Logged s t) (second : Logged t u) : Logged s u :=
  ⟨second.dangling.trans first.dangling, second.restored.trans first.restored,
    fun a hrec => second.records a (first.records a hrec)⟩

lemma logged_makeUndoRecord (s : Undoable Val) (a : Addr) : Logged s (s.makeUndoRecord a) :=
  ⟨rfl, restored_makeUndoRecord s a, fun _ hrec => by simp [hrec]⟩

lemma logged_store (hrec : s.Recorded a) : Logged s (s.store a value) :=
  ⟨rfl, restored_store value hrec, fun _ => id⟩

end Undoable

end ImageUndo
