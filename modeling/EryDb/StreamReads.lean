import EryDb.LittleEndian

/-!
# Reading from a byte stream

The read position of a `ByteStream` and what each `operator>>` does to it. Every reader tests
how many bytes are left before it moves the position, except two: the one of a nested stream
forgets the four bytes of the length, and `deserialize` takes the length off the stream before
it knows that the bytes are there.
-/

namespace StreamReads

open List LittleEndian

/-- The pointers of a stream, from the start of its bytes. What lies behind `fCurInPtr` in
`memory` belongs to nobody. -/
structure Cursor where
  memory : Nat → Byte
  fCurOutPtr : Nat
  fCurInPtr : Nat

namespace Cursor

/-- The difference of the pointers as a `uint32_t`. -/
def length (s : Cursor) : Nat := (((s.fCurInPtr : Int) - s.fCurOutPtr) % 2 ^ 32).toNat

def bytes (s : Cursor) (start k : Nat) : List Byte :=
  (range k).map fun i => s.memory (s.fCurOutPtr + start + i)

def unread (s : Cursor) : List Byte := s.bytes 0 (s.fCurInPtr - s.fCurOutPtr)

def skip (s : Cursor) (k : Nat) : Cursor := { s with fCurOutPtr := s.fCurOutPtr + k }

def restart (s : Cursor) : Cursor := { s with fCurOutPtr := 0, fCurInPtr := 0 }

end Cursor

/-- The types that are read as a fixed number of bytes. -/
inductive Fixed where
  | int8 | uint8 | int16 | uint16 | int32 | uint32 | int64 | uint64 | uuid

def Fixed.size : Fixed → Nat
  | .int8 | .uint8 => 1
  | .int16 | .uint16 => 2
  | .int32 | .uint32 => 4
  | .int64 | .uint64 => 8
  | .uuid => 16

inductive Thrown where
  | underflow
  | protocol
  | length

abbrev Answer := Except Thrown (List Byte)

def peek (t : Fixed) (s : Cursor) : Answer :=
  if s.length < t.size then .error .underflow else .ok (s.bytes 0 t.size)

def peekString (s : Cursor) : Answer :=
  match peek .int32 s with
  | .error e => .error e
  | .ok q =>
    if readInt q < 0 then .error .protocol
    else if s.length < ((readInt q + 4) % 2 ^ 32).toNat then .error .underflow
    else .ok (s.bytes 4 (readInt q).toNat)

def peekStream (s : Cursor) : Answer :=
  match peek .uint32 s with
  | .error e => .error e
  | .ok q => if s.length < read q then .error .underflow else .ok (s.bytes 4 (read q))

inductive Call where
  | fixed (t : Fixed)
  | string
  | pointer
  | stream
  | deserialize

/-- The position moves behind what was read, `header` bytes and the data. -/
def moved (header : Nat) (s : Cursor) (answer : Answer) : Answer × Cursor :=
  match answer with
  | .error e => (.error e, s)
  | .ok data => (.ok data, s.skip (header + data.length))

def advance (s : Cursor) (adv : Nat) : Answer × Cursor :=
  if s.length < adv then (.error .length, s) else (.ok (s.bytes 0 adv), s.skip adv)

def Call.run : Call → Cursor → Answer × Cursor
  | .fixed t, s => moved 0 s (peek t s)
  | .string, s => moved 4 s (peekString s)
  | .pointer, s => (.ok (s.bytes 0 s.length), s.restart)
  | .stream, s => moved 4 s (peekStream s)
  | .deserialize, s =>
    match moved 0 s (peek .uint32 s) with
    | (.error e, s) => (.error e, s)
    | (.ok q, s) => advance s (read q)

/-- An exception leaves the unread bytes as they are; a result is taken off their front. -/
def Keeps (s : Cursor) (result : Answer × Cursor) : Prop :=
  result.2.fCurOutPtr ≤ result.2.fCurInPtr ∧
    match result.1 with
    | .error _ => result.2.unread = s.unread
    | .ok _ => ∃ k ≤ s.unread.length, result.2.unread = s.unread.drop k

/-- The length in front of a nested stream. -/
def announced (s : Cursor) : Nat := read (s.unread.take 4)

/-- The bytes of a nested stream are there if its reader can get past its own test. -/
def Call.Fits (s : Cursor) : Call → Prop
  | .stream => 4 ≤ s.unread.length → announced s ≤ s.unread.length →
      announced s + 4 ≤ s.unread.length
  | .deserialize => 4 ≤ s.unread.length → announced s + 4 ≤ s.unread.length
  | _ => True

/-- A property of every call of a sequence, in the state before it. -/
def Each (P : Cursor → Call → Prop) : List Call → Cursor → Prop
  | [], _ => True
  | c :: calls, s => P s c ∧ Each P calls (c.run s).2

/-- A stream that has not been read past its end. -/
structure Stream extends Cursor where
  behind : fCurOutPtr ≤ fCurInPtr
  small : fCurInPtr < 2 ^ 32

variable {s t : Cursor} {k : Nat} {data : List Byte}

@[simp] lemma length_bytes (s : Cursor) (start k : Nat) : (s.bytes start k).length = k := by
  simp [Cursor.bytes]

@[simp] lemma length_unread (s : Cursor) : s.unread.length = s.fCurInPtr - s.fCurOutPtr :=
  length_bytes _ _ _

lemma unread_skip (s : Cursor) (k : Nat) : (s.skip k).unread = s.unread.drop k := by
  refine ext_getElem ?_ fun i _ _ => ?_
  · simp [Cursor.skip, Nat.sub_sub]
  · simp [Cursor.unread, Cursor.bytes, Cursor.skip, Nat.add_assoc]

lemma take_unread (hk : k ≤ s.unread.length) : s.unread.take k = s.bytes 0 k := by
  rw [length_unread] at hk
  rw [Cursor.unread, Cursor.bytes, ← map_take, take_range, min_eq_left hk, Cursor.bytes]

variable (hb : s.fCurOutPtr ≤ s.fCurInPtr)
include hb

lemma length_eq (hs : s.fCurInPtr < 2 ^ 32) : s.length = s.unread.length := by
  rw [Cursor.length, length_unread]
  omega

lemma keeps_thrown (e : Thrown) : Keeps s (.error e, s) :=
  ⟨hb, rfl⟩

lemma keeps_skip_iff : Keeps s (.ok data, s.skip k) ↔ k ≤ s.unread.length := by
  have out : (s.skip k).fCurOutPtr = s.fCurOutPtr + k := rfl
  have limit : (s.skip k).fCurInPtr = s.fCurInPtr := rfl
  rw [Keeps, out, limit, length_unread]
  constructor
  · intro h
    omega
  · exact fun h => ⟨by omega, k, h, unread_skip s k⟩

/-- A reader that tests for the bytes it takes. -/
lemma keeps_moved {header : Nat} {answer : Answer}
    (ok : ∀ data, answer = .ok data → header + data.length ≤ s.unread.length) :
    Keeps s (moved header s answer) := by
  rcases answer with e | data
  · exact keeps_thrown hb e
  · exact (keeps_skip_iff hb).mpr (ok data rfl)

omit hb

lemma limit_moved (header : Nat) (s : Cursor) (answer : Answer) :
    (moved header s answer).2.fCurInPtr = s.fCurInPtr := by
  cases answer <;> rfl

/-- Nothing is written by a reader. -/
lemma limit_run (c : Call) (s : Cursor) : (c.run s).2.fCurInPtr ≤ s.fCurInPtr := by
  cases c with
  | fixed t => exact (limit_moved _ _ _).le
  | string => exact (limit_moved _ _ _).le
  | pointer => exact Nat.zero_le _
  | stream => exact (limit_moved _ _ _).le
  | deserialize =>
    have same := limit_moved 0 s (peek .uint32 s)
    simp only [Call.run]
    split
    · rename_i result
      rw [result] at same
      exact same.le
    rename_i result
    rw [result] at same
    rw [advance]
    split
    · exact same.le
    · exact same.le

section Calls

variable (hb : s.fCurOutPtr ≤ s.fCurInPtr) (hs : s.fCurInPtr < 2 ^ 32)
include hb hs

lemma peek_short {t : Fixed} (short : s.unread.length < t.size) :
    peek t s = .error .underflow := by
  rw [peek, length_eq hb hs, if_pos short]

lemma peek_enough {t : Fixed} (enough : t.size ≤ s.unread.length) :
    peek t s = .ok (s.unread.take t.size) := by
  rw [peek, length_eq hb hs, if_neg (by omega), take_unread enough]

lemma keeps_string : Keeps s (Call.string.run s) := by
  refine keeps_moved hb fun data h => ?_
  rw [peekString, length_eq hb hs] at h
  rcases Nat.lt_or_ge s.unread.length 4 with short | enough
  · rw [peek_short hb hs (t := .int32) short] at h
    cases h
  rw [peek_enough hb hs (t := .int32) enough] at h
  have four : (s.unread.take Fixed.int32.size).length = 4 := by
    rw [length_take]
    exact min_eq_left enough
  have limit : readInt (s.unread.take Fixed.int32.size) < 2 ^ 31 := by
    rw [readInt, four]
    exact Int.bmod_lt (by decide)
  dsimp only at h
  split_ifs at h with negative less
  cases h
  rw [length_bytes]
  omega

/-- Each call keeps the guarantee exactly if the bytes of a nested stream are there. -/
lemma keeps_iff (c : Call) : Keeps s (c.run s) ↔ c.Fits s := by
  cases c with
  | fixed t =>
    refine iff_of_true (keeps_moved hb fun data h => ?_) trivial
    rcases Nat.lt_or_ge s.unread.length t.size with short | enough
    · rw [peek_short hb hs short] at h
      cases h
    · rw [peek_enough hb hs enough] at h
      cases h
      rw [Nat.zero_add]
      exact length_take_le' _ _
  | string => exact iff_of_true (keeps_string hb hs) trivial
  | pointer =>
    refine iff_of_true ⟨le_rfl, s.unread.length, le_rfl, ?_⟩ trivial
    rw [drop_length]
    rfl
  | stream =>
    rcases Nat.lt_or_ge s.unread.length 4 with short | enough
    · rw [Call.run, peekStream, peek_short hb hs (t := .uint32) short]
      exact iff_of_true (keeps_thrown hb _) fun enough => absurd enough (by omega)
    rw [Call.run, peekStream, peek_enough hb hs (t := .uint32) enough, length_eq hb hs]
    change Keeps s (moved 4 s (if _ < announced s then _ else .ok (s.bytes 4 (announced s)))) ↔ _
    split
    · exact iff_of_true (keeps_thrown hb _) fun _ there => absurd there (by omega)
    · rw [moved, keeps_skip_iff hb, length_bytes, Call.Fits]
      omega
  | deserialize =>
    rcases Nat.lt_or_ge s.unread.length 4 with short | enough
    · rw [Call.run, peek_short hb hs (t := .uint32) short]
      exact iff_of_true (keeps_thrown hb _) fun enough => absurd enough (by omega)
    have four : (s.unread.take 4).length = 4 := by rw [length_take]; exact min_eq_left enough
    have left : (s.skip 4).unread.length = s.unread.length - 4 := by rw [unread_skip, length_drop]
    have behind : (s.skip 4).fCurOutPtr ≤ (s.skip 4).fCurInPtr := by
      rw [length_unread] at enough
      exact Nat.add_le_of_le_sub' hb enough
    rw [Call.run, peek_enough hb hs (t := .uint32) enough]
    change Keeps s (advance (s.skip (0 + (s.unread.take 4).length)) (announced s)) ↔ _
    rw [four, Nat.zero_add, advance, length_eq behind hs, left, Call.Fits]
    split
    · refine iff_of_false (fun kept => ?_) fun fits => absurd (fits enough) (by omega)
      have same := congrArg List.length kept.2
      rw [left] at same
      omega
    · have whole : (s.skip 4).skip (announced s) = s.skip (4 + announced s) := by
        simp [Cursor.skip, Nat.add_assoc]
      rw [whole, keeps_skip_iff hb]
      omega

end Calls

/-- In every sequence of calls on a stream each call keeps the guarantee, exactly if each one
finds the bytes of the nested streams it reads. -/
theorem reads_keep_unread (s : Stream) (calls : List Call) :
    Each (fun s c => Keeps s (c.run s)) calls s.toCursor ↔
      Each (fun s c => c.Fits s) calls s.toCursor := by
  obtain ⟨s, hb, hs⟩ := s
  induction calls generalizing s with
  | nil => rfl
  | cons c calls ih =>
    rw [Each, Each, ← keeps_iff hb hs]
    exact and_congr_right fun kept => ih _ kept.1 ((limit_run c s).trans_lt hs)

/-- A stream as it is received. -/
def received (bytes : List Byte) : Cursor := ⟨fun i => bytes.getD i 0, 0, bytes.length⟩

def receivedStream (bytes : List Byte) (small : bytes.length < 2 ^ 32) : Stream :=
  ⟨received bytes, Nat.zero_le _, small⟩

/-- A message of a nested stream of one byte and a number. -/
theorem nested_stream_read : Each (fun s c => Keeps s (c.run s)) [.stream, .fixed .uint8]
    (receivedStream [1, 0, 0, 0, 7, 9] (by decide)).toCursor :=
  (reads_keep_unread _ _).mpr ⟨fun _ _ => by decide, trivial, trivial⟩

/-- A nested stream whose bytes are missing is read from behind the end of the message, and a
`deserialize` that throws has taken the length off the stream. -/
theorem nested_stream_overruns :
    (Call.stream.run (received [4, 0, 0, 0])).2.fCurOutPtr = 8 ∧
      (Call.stream.run (received [4, 0, 0, 0])).2.fCurInPtr = 4 ∧
      (Call.stream.run (received [4, 0, 0, 0])).1.toBool = true ∧
      (Call.deserialize.run (received [1, 0, 0, 0])).1.toBool = false ∧
      (Call.deserialize.run (received [1, 0, 0, 0])).2.unread = [] ∧
      (received [1, 0, 0, 0]).unread ≠ [] := by
  decide

end StreamReads
