import EryDb.JoinLeaves

/-!
# The leaves of a disk-based join

`getNextPartition` walks the tree and returns its leaves from left to right. With the invariant of
the nodes this says which rows are joined with which: every row is in one leaf, and rows with
equal keys are in the same. A split must not have read its file back past unhashed rows that make
the row index jump.
-/

namespace JoinPartition

open List
open LittleEndian (Byte)
open GroupFolds (bind_ok)

variable {S L : Type} {c : Setting S L}

mutual

/-- The leaves that are still to be returned. -/
def leavesOf : Node S L → List (Leaf S L)
  | .file _ smallFile _ _ largeFile next => if 0 < next then [] else [⟨smallFile, largeFile⟩]
  | .split _ _ _ _ buckets next => leavesFrom next buckets

def leavesFrom : Nat → List (Node S L) → List (Leaf S L)
  | _, [] => []
  | k + 1, _ :: rest => leavesFrom k rest
  | 0, b :: rest => leavesOf b ++ leavesFrom 0 rest

end

mutual

lemma getNextPartition_leaves : ∀ node : Node S L,
    (getNextPartition node).1 = (leavesOf node).head? ∧
      leavesOf (getNextPartition node).2 = (leavesOf node).tail
  | .file hsm smallFile est large largeFile next => by
      by_cases hre : 0 < next <;> simp [getNextPartition, leavesOf, hre]
  | .split reread got hsm large buckets next => by
      obtain ⟨head, tail⟩ := nextFrom_leaves next buckets
      rw [getNextPartition, leavesOf]
      exact ⟨head, tail⟩

lemma nextFrom_leaves : ∀ (k : Nat) (buckets : List (Node S L)),
    (nextFrom k buckets).1 = (leavesFrom k buckets).head? ∧
      leavesFrom (nextFrom k buckets).2.2 (nextFrom k buckets).2.1 = (leavesFrom k buckets).tail
  | _, [] => by simp [nextFrom, leavesFrom]
  | k + 1, b :: rest => by
      obtain ⟨head, tail⟩ := nextFrom_leaves k rest
      rw [nextFrom, leavesFrom]
      exact ⟨head, tail⟩
  | 0, b :: rest => by
      obtain ⟨head, tail⟩ := getNextPartition_leaves b
      rw [nextFrom, leavesFrom]
      rcases asked : getNextPartition b with ⟨leaf | leaf, b'⟩
      · obtain ⟨headRest, tailRest⟩ := nextFrom_leaves 0 rest
        rw [asked] at head
        have none_left : leavesOf b = [] := head?_eq_none_iff.mp head.symm
        rw [none_left, nil_append]
        exact ⟨headRest, tailRest⟩
      rw [asked] at head tail
      obtain ⟨hos, he⟩ := head?_eq_some_iff.mp head.symm
      dsimp only at tail ⊢
      rw [leavesFrom, tail, he]
      exact ⟨rfl, rfl⟩

end

variable {rows s : List S} {leaves : List (Leaf S L)} {l : List L} {path : Path}

/-- No row of `b` on the large side has the key of a hashed row of `a`. -/
def Apart (c : Setting S L) (a b : Leaf S L) : Prop :=
  ∀ row ∈ a.small, c.unhashed row = false → ∀ other ∈ b.large, c.smallKey row ≠ c.largeKey other

lemma Shares.bucket_eq {own : List S} {i : Nat} (shares : Shares c path rows own i) {row : S}
    (hm : row ∈ own) (hha : c.unhashed row = false) :
    c.bucket path (c.smallKey row) = i := by
  have kept : row ∈ own.filter (!c.unhashed ·) := mem_filter.mpr ⟨hm, by simp [hha]⟩
  rw [shares.1] at kept
  exact beq_iff_eq.mp (mem_filter.mp kept).2

section Keys

/-- What a key column says: a number or a string. -/
def KeyValue.value : KeyValue → Int ⊕ List Byte
  | .signed bytes => .inl (LittleEndian.readInt bytes)
  | .unsigned bytes => .inl (LittleEndian.read bytes)
  | .text string _ _ => .inr string

/-- A typed join widens a string by its last byte. Two columns with the same string agree if they
are as wide, or if the string leaves room in the narrower one or does not end in a high byte. -/
def KeyValue.Alike : KeyValue → KeyValue → Prop
  | .text string width _, .text _ width' _ =>
    width = width' ∨ string.length < min width width' ∨ (string.getLastD 0).val < 128
  | _, _ => True

/-- The same letter in a column of one byte and in one of two. -/
example : (KeyValue.text [0xE9] 1 (by decide)).word ≠
    (KeyValue.text [0xE9] 2 (by decide)).word := by
  decide

end Keys

end JoinPartition
