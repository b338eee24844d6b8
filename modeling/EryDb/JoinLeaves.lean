import EryDb.GroupFolds
import EryDb.JoinPartition
import Mathlib.Data.List.Pairwise

/-!
# Where the rows of a disk-based join end up

Every node knows, in its files, buffers and children, the rows that were handed to it. The
invariant `Holds` says so for each node of the tree, together with how an inner node shares its
rows among its buckets. A split reads its file back in an order of its own, `visits`; it shares
the rows rightly if those visits are like the rows of the file.
-/

namespace JoinPartition

open List
open GroupFolds (bind_ok)

variable {S L : Type} (c : Setting S L)

variable {rows v : List S} {row : S} {i fuel : Nat}

section Visits

/-- The unhashed rows that every bucket gets. -/
def copied (rows : List S) : List S :=
  if c.needsAllNullRows then rows.filter c.unhashed else (rows.filter c.unhashed).take 1

/-- Handed to the buckets, both lists leave the same rows there. -/
def Alike (a b : List S) : Prop :=
  a.filter (!c.unhashed ·) = b.filter (!c.unhashed ·) ∧ copied c a = copied c b

variable {c}

lemma copied_append (a b : List S) : copied c (a ++ b) =
      if c.needsAllNullRows then copied c a ++ copied c b
      else (copied c a ++ copied c b).take 1 := by
  unfold copied
  by_cases all : c.needsAllNullRows
  · simp [all]
  · simp only [all, Bool.false_eq_true, if_false, filter_append]
    cases a.filter c.unhashed with
    | nil => simp [take_take]
    | cons row rest => rfl

lemma copied_hashed (hha : c.unhashed row = false) :
    copied c (rows ++ [row]) = copied c rows := by
  simp [copied, hha]

lemma copied_copy (null : c.unhashed row = true)
    (copies : (c.needsAllNullRows || !rows.any c.unhashed) = true) :
    copied c (rows ++ [row]) = copied c rows ++ [row] := by
  by_cases all : c.needsAllNullRows = true
  · simp [copied, all, null]
  · have none_before : rows.filter c.unhashed = [] := by
      simpa [all] using copies
    simp [copied, all, null, none_before]

lemma copied_skip (skips : (c.needsAllNullRows || !rows.any c.unhashed) = false) :
    copied c (rows ++ [row]) = copied c rows := by
  obtain ⟨all, some⟩ := Bool.or_eq_false_iff.mp skips
  obtain ⟨first, hm, null⟩ := any_eq_true.mp (by simpa using some)
  have present : rows.filter c.unhashed ≠ [] := ne_nil_of_mem (mem_filter.mpr ⟨hm, null⟩)
  rw [copied, copied, all, if_neg (by decide), if_neg (by decide), filter_append]
  obtain ⟨head, tail, split⟩ := exists_cons_of_ne_nil present
  rw [split]
  rfl

lemma Alike.refl (a : List S) : Alike c a a := ⟨rfl, rfl⟩

lemma Alike.append {a b a' b' : List S} (left : Alike c a b) (right : Alike c a' b') :
    Alike c (a ++ a') (b ++ b') := by
  refine ⟨by rw [filter_append, filter_append, left.1, right.1], ?_⟩
  rw [copied_append, copied_append, left.2, right.2]

/-- The rows that the loop over a row group takes, in its order. -/
def visits (c : Setting S L) (rows : List S) : Nat → Nat → Bool → Option (List S)
  | 0, _, _ => none
  | fuel + 1, j, got =>
    match rows[j]? with
    | none => some []
    | some row =>
      if c.unhashed row && (c.needsAllNullRows || !got) then
        (visits c rows fuel 3 true).map (row :: ·)
      else (visits c rows fuel (j + 1) got).map (row :: ·)

/-- No row is left out or taken twice because of the row index. If every unhashed row is copied,
each has to be the third of its group, or the last and before the third. -/
def RowsRereadable (c : Setting S L) (got : Bool) (rows : List S) : Prop :=
  if c.needsAllNullRows then
    ∀ i (h : i < rows.length), c.unhashed rows[i] = true → i = 2 ∨ (i < 2 ∧ rows.length = i + 1)
  else got = true ∨ ∀ i ∈ rows.findIdx? c.unhashed,
    i = 2 ∨ i = 3 ∨ (i < 2 ∧ ∀ row ∈ (rows.take 3).drop (i + 1), c.unhashed row = true)

def Rereadable (c : Setting S L) : Bool → List (List S) → Prop
  | _, [] => True
  | got, rows :: rest =>
    RowsRereadable c got rows ∧ Rereadable c (got || rows.any c.unhashed) rest

end Visits

variable {path : Path} {buckets buckets' : List (Node S L)} {routed l : List L} {more s : List S}
  {node node' : Node S L}

section Trees

inductive Phase where
  | small
  | large
  | done
  deriving DecidableEq

/-- The buffers that are empty once a phase has begun. -/
def Flushed (phase : Phase) (small : List S) (large : List L) : Prop :=
  (phase ≠ .small → small = []) ∧ (phase = .done → large = [])

/-- The part of `rows` that bucket `i` has. -/
def Shares (c : Setting S L) (path : Path) (rows own : List S) (i : Nat) : Prop :=
  own.filter (!c.unhashed ·) = (rows.filter (!c.unhashed ·)).filter
    (fun row => c.bucket path (c.smallKey row) == i) ∧
  own.filter c.unhashed = copied c rows

/-- The rows that were hashed found a bucket. -/
def Inside (c : Setting S L) (path : Path) (rows : List S) (routed : List L)
    (buckets : List (Node S L)) : Prop :=
  (∀ row ∈ rows, c.unhashed row = false → c.bucket path (c.smallKey row) < buckets.length) ∧
  ∀ row ∈ routed, c.bucket path (c.largeKey row) < buckets.length

/-- The node has taken the rows `s` and `l`. -/
inductive Holds (c : Setting S L) : Phase → Path → Node S L → List S → List L → Prop
  | file {phase : Phase} {path : Path} {small : List S} {smallFile : List (List S)} {est : Nat}
      {large : List L} {largeFile : List (List L)} {s : List S} {l : List L}
      (below : path ≠ []) (flushed : Flushed phase small large)
      (smallRows : s = smallFile.flatten ++ small) (largeRows : l = largeFile.flatten ++ large) :
      Holds c phase path (.file small smallFile est large largeFile 0) s l
  | split {phase : Phase} {path : Path} {reread : List (List S)} {got : Bool} {small : List S}
      {large : List L} {buckets : List (Node S L)} {s : List S} {l : List L}
      (visited later : List S) (routed : List L) (smallOf : Nat → List S) (largeOf : Nat → List L)
      (flushed : Flushed phase small large)
      (smallRows : s = reread.flatten ++ later ++ small) (largeRows : l = routed ++ large)
      (reordered : Rereadable c false reread → Alike c visited reread.flatten)
      (count : buckets.length = c.bucketCount path)
      (gotNull : got = (visited ++ later).any c.unhashed)
      (children : ∀ i child, buckets[i]? = some child →
        Holds c phase (path ++ [i]) child (smallOf i) (largeOf i))
      (shared : ∀ i, Shares c path (visited ++ later) (smallOf i) i)
      (sent : ∀ i, largeOf i = routed.filter (fun row => c.bucket path (c.largeKey row) == i))
      (inside : Inside c path (visited ++ later) routed buckets) :
      Holds c phase path (.split reread got small large buckets 0) s l

variable {c}

lemma Inside.add (hi : Inside c path rows routed buckets)
    (length : buckets'.length = buckets.length)
    (hf : c.unhashed row = false → c.bucket path (c.smallKey row) < buckets.length) :
    Inside c path (rows ++ [row]) routed buckets' := by
  rw [Inside, length]
  refine ⟨fun ho hm hha => ?_, hi.2⟩
  rcases mem_append.mp hm with old | new
  · exact hi.1 ho old hha
  · obtain rfl := mem_singleton.mp new
    exact hf hha

section Shares

variable {path : Path} {rows own : List S} {row : S} {i : Nat}

lemma Shares.nil : Shares c path ([] : List S) [] i := by
  constructor
  · rfl
  · unfold copied
    split <;> rfl

variable (shares : Shares c path rows own i)
include shares

lemma Shares.elsewhere (hha : c.unhashed row = false) (ho : c.bucket path (c.smallKey row) ≠ i) :
    Shares c path (rows ++ [row]) own i := by
  constructor
  · simp [shares.1, hha, ho]
  · rw [copied_hashed hha, shares.2]

lemma Shares.copy (null : c.unhashed row = true)
    (copies : (c.needsAllNullRows || !rows.any c.unhashed) = true) :
    Shares c path (rows ++ [row]) (own ++ [row]) i := by
  constructor
  · simp [shares.1, null]
  · rw [copied_copy null copies, filter_append, shares.2]
    simp [null]

lemma Shares.skip (null : c.unhashed row = true)
    (skips : (c.needsAllNullRows || !rows.any c.unhashed) = false) :
    Shares c path (rows ++ [row]) own i := by
  constructor
  · simp [shares.1, null]
  · rw [copied_skip skips, shares.2]

end Shares

section Feeding

variable {insert : Path → S → Node S L → Except Stop (Node S L)} {path : Path}
  {feed feed' : Feed S L} {rows : List S} {smallOf : Nat → List S} {row : S}

end Feeding

lemma Holds.setSmall (hd : Holds c .small path node s []) :
    Holds c .small path (node.setSmall (node.small ++ more)) (s ++ more) [] := by
  cases hd with
  | file hl hflu smallRows largeRows =>
    refine Holds.file hl ⟨fun ho => absurd rfl ho, nofun⟩ ?_ largeRows
    rw [smallRows, append_assoc]
    rfl
  | split visited later routed smallOf largeOf hflu smallRows largeRows reordered count gotNull
      children shared sent inside =>
      refine Holds.split visited later routed smallOf largeOf ⟨fun ho => absurd rfl ho, nofun⟩
        ?_ largeRows reordered count gotNull children shared sent inside
      rw [smallRows, append_assoc]
      rfl

section Large

variable {insert : Path → L → Node S L → Except Stop (Node S L)} {path : Path}

lemma Holds.setLarge {more : List L} (hd : Holds c .large path node s l) :
    Holds c .large path (node.setLarge (node.large ++ more)) s (l ++ more) := by
  cases hd with
  | file hl hflu smallRows largeRows =>
    refine Holds.file hl ⟨hflu.1, nofun⟩ smallRows ?_
    rw [largeRows, append_assoc]
    rfl
  | split visited later routed smallOf largeOf hflu smallRows largeRows reordered count gotNull
      children shared sent inside =>
      refine Holds.split visited later routed smallOf largeOf ⟨hflu.1, nofun⟩ smallRows ?_
        reordered count gotNull children shared sent inside
      rw [largeRows, append_assoc]
      rfl

end Large

end Trees

end JoinPartition
