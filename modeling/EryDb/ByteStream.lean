import EryDb.LittleEndian
import EryDb.BrmTypes

/-!
# The byte stream of a message

A `ByteStream` is a growing buffer of bytes. Its size is a 32-bit number that grows in
blocks of 4096, so a stream that holds `2 ^ 32 - 4096` bytes cannot grow any more:
`growBuf` returns without growing and the next write runs past the buffer. Such a
write is `none` here. A reader takes numbers off the front and throws when bytes are
missing, which is `none` as well. What is sent is the bytes; the eight bytes the
buffer keeps free in front of them belong to the socket.

`Emits` and `Reads` say which bytes a writer adds and which bytes a reader takes off,
with one rule for running two of them one after the other.
-/

namespace MessageQueue

open Option List LittleEndian
open BrmTypes (u32)

def blockSize : Nat := 4096
def issOverhead : Nat := 8

def toBlocks (size : Nat) : Nat := u32 (size + blockSize - 1) / blockSize * blockSize

/-- The size of the buffer after `growBuf(toSize)`; zero stands for no buffer yet. -/
def growBuf (maxLen toSize : Nat) : Nat :=
  if maxLen = 0 then
    if toSize = 0 then blockSize else toBlocks toSize
  else
    let wanted := if toSize = 0 then u32 (maxLen + blockSize) else toBlocks toSize
    if wanted ≤ maxLen then maxLen else max wanted (u32 (maxLen * 2))

lemma growBuf_spec {maxLen : Nat} (toSize : Nat) (blocks : blockSize ∣ maxLen)
    (addressed : maxLen < 2 ^ 32) :
    maxLen ≤ growBuf maxLen toSize ∧ blockSize ∣ growBuf maxLen toSize ∧
      growBuf maxLen toSize < 2 ^ 32 := by
  simp only [growBuf, toBlocks, u32, blockSize] at *
  split_ifs <;> omega

structure ByteStream where
  bytes : List Byte
  maxLen : Nat
  held : bytes.length ≤ maxLen
  blocks : blockSize ∣ maxLen
  addressed : maxLen < 2 ^ 32

variable {s t : ByteStream} {data : List Byte}

namespace ByteStream

def empty : ByteStream := ⟨[], 0, le_rfl, ⟨0, rfl⟩, by decide⟩

/-- What a stream can hold at most. -/
def capacity : Nat := 2 ^ 32 - blockSize

lemma length_le_capacity (s : ByteStream) : s.bytes.length ≤ capacity := by
  have := s.held
  have := s.blocks
  have := s.addressed
  simp only [capacity, blockSize] at *
  omega

def grow (s : ByteStream) (toSize : Nat) : ByteStream :=
  have spec := growBuf_spec toSize s.blocks s.addressed
  ⟨s.bytes, growBuf s.maxLen toSize, s.held.trans spec.1, spec.2.1, spec.2.2⟩

def place (s : ByteStream) (data : List Byte) : Option ByteStream :=
  if fits : s.bytes.length + data.length ≤ s.maxLen then
    some ⟨s.bytes ++ data, s.maxLen, by rwa [length_append], s.blocks, s.addressed⟩
  else none

/-- `fCurInPtr - fBuf`. -/
def inOffset (s : ByteStream) : Nat :=
  if s.maxLen = 0 then 0 else issOverhead + s.bytes.length

def add (s : ByteStream) (b : Byte) : Option ByteStream :=
  let s := if s.maxLen = 0 ∨ u32 s.inOffset = u32 (s.maxLen + issOverhead) then s.grow 0 else s
  s.place [b]

/-- Write the two, four or eight bytes of a number. -/
def put (s : ByteStream) (data : List Byte) : Option ByteStream :=
  let s :=
    if s.maxLen = 0 ∨ u32 (s.maxLen + issOverhead) < s.inOffset + data.length then
      s.grow (u32 (s.maxLen + blockSize))
    else s
  s.place data

/-- The length is a 32-bit parameter, so only that many of the bytes are taken. -/
def append (s : ByteStream) (data : List Byte) : Option ByteStream :=
  let data := data.take (u32 data.length)
  if data.length = 0 then some s
  else
    let newSize := u32 (s.inOffset + data.length)
    let s := if s.maxLen = 0 ∨ s.maxLen < newSize then s.grow newSize else s
    s.place data

lemma place_of_le (fits : s.bytes.length + data.length ≤ s.maxLen) :
    ∃ t, s.place data = some t ∧ t.bytes = s.bytes ++ data := by
  rw [place, dif_pos fits]
  exact ⟨_, rfl, rfl⟩

lemma place_of_full (full : capacity < s.bytes.length + data.length) : s.place data = none := by
  have := s.blocks
  have := s.addressed
  simp only [capacity, blockSize] at *
  rw [place, dif_neg (by omega)]

@[simp] lemma bytes_grow (s : ByteStream) (toSize : Nat) : (s.grow toSize).bytes = s.bytes := rfl

lemma maxLen_grow (s : ByteStream) (toSize : Nat) :
    (s.grow toSize).maxLen = growBuf s.maxLen toSize := rfl

/-- A buffer that is asked for one more block has it, unless it is at its limit. -/
lemma growBuf_next {maxLen toSize : Nat} (asked : toSize = 0 ∨ toSize = u32 (maxLen + blockSize))
    (blocks : blockSize ∣ maxLen) (room : maxLen < capacity) :
    maxLen + blockSize ≤ growBuf maxLen toSize := by
  simp only [growBuf, toBlocks, u32, blockSize, capacity] at *
  split_ifs <;> omega

lemma add_of_le {b : Byte} (fits : s.bytes.length < capacity) :
    ∃ t, s.add b = some t ∧ t.bytes = s.bytes ++ [b] := by
  have held := s.held
  rw [add]
  split_ifs with full
  · refine place_of_le ?_
    rw [maxLen_grow, bytes_grow, length_singleton]
    by_cases room : s.maxLen < capacity
    · have := growBuf_next (Or.inl (Eq.refl 0)) s.blocks room
      simp only [blockSize] at this
      omega
    · have := (growBuf_spec 0 s.blocks s.addressed).1
      omega
  · refine place_of_le ?_
    rw [not_or, inOffset, if_neg (by tauto)] at full
    simp only [u32, issOverhead, capacity, blockSize, length_singleton] at *
    omega

lemma put_of_le (hsm : data.length ≤ blockSize) (fits : s.bytes.length + data.length ≤ capacity) :
    ∃ t, s.put data = some t ∧ t.bytes = s.bytes ++ data := by
  have held := s.held
  rw [put]
  split_ifs with full
  · refine place_of_le ?_
    rw [maxLen_grow, bytes_grow]
    by_cases room : s.maxLen < capacity
    · have := growBuf_next (Or.inr (Eq.refl (u32 (s.maxLen + blockSize)))) s.blocks room
      omega
    · have := (growBuf_spec (u32 (s.maxLen + blockSize)) s.blocks s.addressed).1
      omega
  · refine place_of_le ?_
    rw [not_or, inOffset, if_neg (by tauto)] at full
    simp only [u32, issOverhead, capacity, blockSize] at *
    omega

lemma add_of_full {b : Byte} (full : capacity ≤ s.bytes.length) : s.add b = none := by
  rw [add]
  split_ifs
  all_goals exact place_of_full (Nat.lt_succ_of_le full)

lemma put_of_full (full : capacity < s.bytes.length + data.length) : s.put data = none := by
  rw [put]
  split_ifs
  all_goals exact place_of_full full

lemma length_append_taken : (data.take (u32 data.length)).length = u32 data.length := by
  rw [length_take]
  exact Nat.min_eq_left (Nat.mod_le _ _)

/-- An append that leaves room for the eight bytes in front goes through. -/
lemma append_of_le (fits : s.bytes.length + issOverhead + data.length ≤ capacity) :
    ∃ t, s.append data = some t ∧ t.bytes = s.bytes ++ data := by
  have held := s.held
  have short : u32 data.length = data.length :=
    Nat.mod_eq_of_lt (by simp only [capacity, blockSize] at fits; omega)
  rw [append, short, take_length]
  split_ifs with nothing
  · exact ⟨s, rfl, by rw [length_eq_zero_iff.mp nothing, append_nil]⟩
  have offset : u32 (s.inOffset + data.length) = s.inOffset + data.length := by
    refine Nat.mod_eq_of_lt ?_
    rw [inOffset]
    simp only [capacity, blockSize, issOverhead] at *
    split_ifs <;> omega
  dsimp only
  rw [offset]
  split_ifs with full
  · refine place_of_le ?_
    rw [maxLen_grow, bytes_grow]
    simp only [growBuf, toBlocks, u32, blockSize, capacity, inOffset, issOverhead] at *
    split_ifs <;> omega
  · refine place_of_le ?_
    rw [not_or, inOffset, if_neg (by tauto)] at full
    omega

lemma place_some (ran : s.place data = some t) : t.bytes = s.bytes ++ data := by
  rw [place] at ran
  split_ifs at ran
  cases ran
  rfl

lemma append_length (ran : s.append data = some t) :
    ∃ chunk, t.bytes = s.bytes ++ chunk ∧ chunk.length = u32 data.length := by
  have taken := @length_append_taken data
  rw [append] at ran
  dsimp only at ran
  split_ifs at ran with nothing
  · cases ran
    exact ⟨[], by simp, by rw [← taken, nothing, length_nil]⟩
  all_goals
    have hwr := place_some ran
    exact ⟨_, hwr, taken⟩

end ByteStream

/-! ## Writers -/

abbrev Put := StateT ByteStream Option

def putByte (n : UInt8) : Put Unit := fun s =>
  (s.add ⟨n.toNat, n.toNat_lt⟩).map ((), ·)

def putNat (k n : Nat) : Put Unit := fun s => (s.put (write k n)).map ((), ·)

def putU16 (n : UInt16) : Put Unit := putNat 2 n.toNat
def putU32 (n : UInt32) : Put Unit := putNat 4 n.toNat
def putU64 (n : UInt64) : Put Unit := putNat 8 n.toNat

def putBytes (data : List Byte) : Put Unit := fun s => (s.append data).map ((), ·)

/-- The writer adds exactly these bytes, and runs past the buffer when they do not fit. -/
structure Emits (w : Put Unit) (data : List Byte) : Prop where
  fits : ∀ s : ByteStream, s.bytes.length + data.length ≤ ByteStream.capacity →
    ∃ t : ByteStream, w s = some ((), t) ∧ t.bytes = s.bytes ++ data
  full : ∀ s : ByteStream, ByteStream.capacity < s.bytes.length + data.length → w s = none

lemma emits_putByte (n : UInt8) : Emits (putByte n) (write 1 n.toNat) := by
  have hwh : write 1 n.toNat = [⟨n.toNat, n.toNat_lt⟩] := by
    rw [write, write]
    exact congrArg (· :: []) (Fin.ext (Nat.mod_eq_of_lt n.toNat_lt))
  rw [hwh]
  constructor
  · intro s fits
    obtain ⟨t, ran, bytes⟩ :=
      ByteStream.add_of_le (b := ⟨n.toNat, n.toNat_lt⟩) (Nat.lt_of_succ_le fits)
    exact ⟨t, by rw [putByte, ran]; rfl, bytes⟩
  · intro s full
    rw [putByte, ByteStream.add_of_full (Nat.le_of_lt_succ full)]
    rfl

variable {k : Nat}

lemma emits_putNat (hsm : k ≤ blockSize) (n : Nat) : Emits (putNat k n) (write k n) := by
  constructor
  · intro s fits
    obtain ⟨t, ran, bytes⟩ := ByteStream.put_of_le (by rwa [length_write]) fits
    exact ⟨t, by rw [putNat, ran]; rfl, bytes⟩
  · intro s full
    rw [putNat, ByteStream.put_of_full full]
    rfl

variable (n : UInt16)

lemma emits_putU16 : Emits (putU16 n) (write 2 n.toNat) := emits_putNat (by decide) _
lemma emits_putU32 (n : UInt32) : Emits (putU32 n) (write 4 n.toNat) := emits_putNat (by decide) _
lemma emits_putU64 (n : UInt64) : Emits (putU64 n) (write 8 n.toNat) := emits_putNat (by decide) _

lemma emits_pure : Emits (pure ()) [] := by
  constructor
  · intro s fits
    exact ⟨s, rfl, (append_nil _).symm⟩
  · intro s full
    have := s.length_le_capacity
    rw [length_nil] at full
    omega

variable {x : List Byte}

lemma Emits.bind {a b : Put Unit} {y : List Byte} (first : Emits a x) (second : Emits b y) :
    Emits (a >>= fun _ => b) (x ++ y) := by
  have chain : ∀ s : ByteStream, (a >>= fun _ => b) s = (a s).bind fun p => b p.2 := fun _ => rfl
  constructor
  · intro s fits
    rw [length_append] at fits
    obtain ⟨t, ran, bytes⟩ := first.fits s (by omega)
    obtain ⟨u, ran', bytes'⟩ := second.fits t (by rw [bytes, length_append]; omega)
    refine ⟨u, by rw [chain, ran]; exact ran', ?_⟩
    rw [bytes', bytes, append_assoc]
  · intro s full
    rw [length_append] at full
    rw [chain]
    by_cases stopped : ByteStream.capacity < s.bytes.length + x.length
    · rw [first.full s stopped]
      rfl
    · obtain ⟨t, ran, bytes⟩ := first.fits s (by omega)
      rw [ran]
      exact second.full t (by rw [bytes, length_append]; omega)

lemma Emits.ran {w : Put Unit} (emits : Emits w data) (ran : w s = some ((), t)) :
    t.bytes = s.bytes ++ data := by
  by_cases fits : s.bytes.length + data.length ≤ ByteStream.capacity
  · obtain ⟨t', ran', bytes⟩ := emits.fits s fits
    rw [ran] at ran'
    cases ran'
    exact bytes
  · rw [emits.full s (by omega)] at ran
    cases ran

lemma put_bind_some {a b : Put Unit} {u : ByteStream} :
    (a >>= fun _ => b) s = some ((), u) ↔ ∃ t, a s = some ((), t) ∧ b t = some ((), u) := by
  have chain : (a >>= fun _ => b) s = (a s).bind fun p => b p.2 := rfl
  rw [chain, bind_eq_some_iff]
  constructor
  · rintro ⟨⟨⟨⟩, t⟩, first, second⟩
    exact ⟨t, first, second⟩
  · rintro ⟨t, first, second⟩
    exact ⟨((), t), first, second⟩

variable {β : Type} {α : Type}

lemma emits_forM {put : α → Put Unit} {data : α → List Byte} (each : ∀ x, Emits (put x) (data x))
    (v : List α) : Emits (v.forM put) (v.flatMap data) := by
  induction v with
  | nil => exact emits_pure
  | cons x v ih => exact (each x).bind ih

/-! ## Readers -/

abbrev Get := StateT (List Byte) Option

def getNat (k : Nat) : Get Nat := fun msg =>
  if msg.length < k then none else some (read (msg.take k), msg.drop k)

def getByte : Get UInt8 := UInt8.ofNat <$> getNat 1
def getU16 : Get UInt16 := UInt16.ofNat <$> getNat 2
def getU32 : Get UInt32 := UInt32.ofNat <$> getNat 4
def getU64 : Get UInt64 := UInt64.ofNat <$> getNat 8

/-- The reader takes these bytes off the front and returns the value. -/
def Reads {α : Type} (g : Get α) (data : List Byte) (a : α) : Prop :=
  ∀ rest, g (data ++ rest) = some (a, rest)

lemma reads_getNat {n : Nat} (fits : n < 256 ^ k) : Reads (getNat k) (write k n) n := by
  intro rest
  rw [getNat, if_neg (by simp), take_append_of_le_length (by simp), take_of_length_le (by simp),
    drop_append_of_le_length (by simp), drop_of_length_le (by simp), read_write fits,
    nil_append]

variable {a : α} {f : α → Get β} {g : Get α}

lemma Reads.map (ran : Reads g data a) (f : α → β) : Reads (f <$> g) data (f a) := by
  intro rest
  have chain : ∀ msg, (f <$> g) msg = (g msg).bind fun p => some (f p.1, p.2) := fun _ => rfl
  rw [chain, ran rest]
  rfl

lemma Reads.bind {y : List Byte} {b : β} (first : Reads g x a) (second : Reads (f a) y b) :
    Reads (g >>= f) (x ++ y) b := by
  intro rest
  have chain : ∀ msg, (g >>= f) msg = (g msg).bind fun p => f p.1 p.2 := fun _ => rfl
  rw [chain, append_assoc, first]
  exact second rest

lemma reads_pure (a : α) : Reads (pure a) [] a := fun _ => rfl

lemma Reads.last (ran : Reads g x a) (f : α → β) : Reads (g >>= fun a => pure (f a)) x (f a) := by
  have hwh := ran.bind (f := fun a => pure (f a)) (reads_pure (f a))
  rwa [append_nil] at hwh

lemma reads_getByte (n : UInt8) : Reads getByte (write 1 n.toNat) n := by
  have := (reads_getNat (k := 1) n.toNat_lt).map UInt8.ofNat
  rwa [UInt8.ofNat_toNat] at this

lemma reads_getU16 : Reads getU16 (write 2 n.toNat) n := by
  have := (reads_getNat (k := 2) n.toNat_lt).map UInt16.ofNat
  rwa [UInt16.ofNat_toNat] at this

lemma reads_getU32 (n : UInt32) : Reads getU32 (write 4 n.toNat) n := by
  have := (reads_getNat (k := 4) n.toNat_lt).map UInt32.ofNat
  rwa [UInt32.ofNat_toNat] at this

lemma reads_getU64 (n : UInt64) : Reads getU64 (write 8 n.toNat) n := by
  have := (reads_getNat (k := 8) n.toNat_lt).map UInt64.ofNat
  rwa [UInt64.ofNat_toNat] at this

/-- The reader takes this many bytes whenever it returns. -/
def Takes {α : Type} (g : Get α) (k : Nat) : Prop :=
  ∀ msg a rest, g msg = some (a, rest) → rest.length + k = msg.length

lemma takes_getNat (k : Nat) : Takes (getNat k) k := by
  intro msg a rest ran
  rw [getNat] at ran
  split_ifs at ran with short
  cases ran
  rw [length_drop]
  omega

lemma Takes.bind {j : Nat} (first : Takes g j) (second : ∀ a, Takes (f a) k) :
    Takes (g >>= f) (j + k) := by
  intro msg b rest ran
  have chain : (g >>= f) msg = (g msg).bind fun p => f p.1 p.2 := rfl
  rw [chain, bind_eq_some_iff] at ran
  obtain ⟨⟨a, mid⟩, ran₁, ran₂⟩ := ran
  have := first msg a mid ran₁
  have := second a mid b rest ran₂
  omega

lemma takes_pure (a : α) : Takes (pure a) 0 := by
  intro msg b rest ran
  cases ran
  rfl

lemma Takes.map (takes : Takes g k) (f : α → β) : Takes (f <$> g) k := by
  have := takes.bind fun a => takes_pure (f a)
  exact this

/-! ## Vectors -/

def serializeVector {α : Type} (put : α → Put Unit) (v : List α) : Put Unit := do
  putU64 (UInt64.ofNat v.length)
  v.forM put

lemma emits_serializeVector {put : α → Put Unit} {data : α → List Byte}
    (each : ∀ x, Emits (put x) (data x)) (v : List α) :
    Emits (serializeVector put v) (write 8 (UInt64.ofNat v.length).toNat ++ v.flatMap data) :=
  (emits_putU64 _).bind (emits_forM each v)

/-- The loop of `deserializeVector`: the index has 32 bits and the size 64. Every
element takes at least a byte, so the fuel is the length of the message. -/
def deserializeFrom {α : Type} (get : Get α) (size : Nat) : Nat → Nat → Get (List α)
  | 0, _ => fun _ => none
  | fuel + 1, i =>
    if i < size then do
      let x ← get
      let xs ← deserializeFrom get size fuel (u32 (i + 1))
      pure (x :: xs)
    else pure []

def deserializeVector {α : Type} (get : Get α) : Get (List α) := do
  let size ← getU64
  fun msg => deserializeFrom get size.toNat (msg.length + 1) 0 msg

lemma reads_deserializeFrom {get : Get α} {data : α → List Byte}
    (each : ∀ x, Reads get (data x) x) {size : Nat} (short : size < 2 ^ 32) (v : List α)
    {i fuel : Nat} (left : i + v.length = size) (hen : v.length < fuel) :
    Reads (deserializeFrom get size fuel i) (v.flatMap data) v := by
  induction v generalizing i fuel with
  | nil =>
    obtain ⟨fuel, rfl⟩ := Nat.exists_eq_succ_of_ne_zero (Nat.ne_of_gt hen)
    rw [length_nil] at left
    rw [deserializeFrom, if_neg (by omega)]
    exact reads_pure []
  | cons x v ih =>
    obtain ⟨fuel, rfl⟩ := Nat.exists_eq_succ_of_ne_zero (Nat.ne_of_gt (Nat.zero_lt_of_lt hen))
    rw [length_cons] at left hen
    have next : u32 (i + 1) = i + 1 := Nat.mod_eq_of_lt (by omega)
    rw [deserializeFrom, if_pos (by omega), next, flatMap_cons]
    have rest := @ih (i + 1) fuel (by omega) (by omega)
    exact (each x).bind (rest.last (x :: ·))

lemma length_le_flatMap {data : α → List Byte} (some : ∀ x, data x ≠ []) (v : List α) :
    v.length ≤ (v.flatMap data).length := by
  induction v with
  | nil => exact Nat.zero_le _
  | cons x v ih =>
    have := length_pos_iff.mpr (some x)
    rw [flatMap_cons, length_append, length_cons]
    omega

variable {v : List α}

lemma reads_deserializeVector {get : Get α} {data : α → List Byte}
    (each : ∀ x, Reads get (data x) x) (some : ∀ x, data x ≠ []) (short : v.length < 2 ^ 32) :
    Reads (deserializeVector get) (write 8 (UInt64.ofNat v.length).toNat ++ v.flatMap data) v := by
  have size : (UInt64.ofNat v.length).toNat = v.length := by
    rw [UInt64.toNat_ofNat']
    exact Nat.mod_eq_of_lt (by omega)
  refine (reads_getU64 (UInt64.ofNat v.length)).bind ?_
  intro rest
  rw [size]
  refine reads_deserializeFrom each short v (Nat.zero_add _) ?_ rest
  have := length_le_flatMap some v
  rw [length_append]
  omega

/-- Copy the records as they lie in memory. -/
def serializeInlineVector {α : Type} (image : α → List Byte) (v : List α) : Put Unit := do
  putU64 (UInt64.ofNat v.length)
  if v.length > 0 then putBytes (v.flatMap image) else pure ()

def getRecords {α : Type} (record : Get α) : Nat → Get (List α)
  | 0 => pure []
  | n + 1 => do
      let x ← record
      let xs ← getRecords record n
      pure (x :: xs)

/-- The copy does not look at the length of the stream: one that leaves it is `none`.
The bytes it passes over are counted in 32 bits. -/
def deserializeInlineVector {α : Type} (sizeof : Nat) (record : Get α) : Get (List α) := do
  let size ← getU64
  if size = 0 then pure []
  else fun msg => do
    let (v, _) ← getRecords record size.toNat msg
    if msg.length < u32 (sizeof * size.toNat) then none
    else some (v, msg.drop (u32 (sizeof * size.toNat)))

variable {record : Get α} {image : α → List Byte}

lemma reads_getRecords (each : ∀ x, Reads record (image x) x) (v : List α) :
    Reads (getRecords record v.length) (v.flatMap image) v := by
  induction v with
  | nil => exact reads_pure []
  | cons x v ih => exact (each x).bind (ih.last (x :: ·))

lemma getRecords_takes (each : Takes record k) (n : Nat) : Takes (getRecords record n) (n * k) := by
  induction n with
  | zero =>
    rw [Nat.zero_mul]
    exact takes_pure []
  | succ n ih =>
    have hwh := each.bind fun x => ih.bind fun xs => takes_pure (x :: xs)
    rwa [Nat.add_zero, Nat.add_comm, ← Nat.succ_mul] at hwh

variable {msg rest : List Byte}

lemma length_getRecords {n : Nat} (ran : getRecords record n msg = some (v, rest)) :
    v.length = n := by
  induction n generalizing msg rest v with
  | zero =>
    cases ran
    rfl
  | succ n ih =>
    have chain : getRecords record (n + 1) msg =
        (record msg).bind fun p => (getRecords record n p.2).bind fun q =>
          some (p.1 :: q.1, q.2) := rfl
    simp only [chain, bind_eq_some_iff, Prod.exists, Option.some.injEq, Prod.mk.injEq] at ran
    obtain ⟨x, mid, -, xs, ha, ran, rfl, -⟩ := ran
    rw [length_cons, ih ran]

lemma length_flatMap_const (each : ∀ x, (image x).length = k) (v : List α) :
    (v.flatMap image).length = k * v.length := by
  induction v with
  | nil => rfl
  | cons x v ih =>
    rw [flatMap_cons, length_append, ih, each, length_cons, Nat.mul_succ, Nat.add_comm]

lemma reads_deserializeInlineVector (each : ∀ x, Reads record (image x) x)
    (width : ∀ x, (image x).length = k) (hp : 0 < k) (short : k * v.length < 2 ^ 32) :
    Reads (deserializeInlineVector k record)
      (write 8 (UInt64.ofNat v.length).toNat ++ v.flatMap image) v := by
  have bound : v.length < 2 ^ 32 := Nat.lt_of_le_of_lt (Nat.le_mul_of_pos_left _ hp) short
  have size : (UInt64.ofNat v.length).toNat = v.length := by
    rw [UInt64.toNat_ofNat']
    exact Nat.mod_eq_of_lt (by omega)
  refine (reads_getU64 (UInt64.ofNat v.length)).bind ?_
  intro rest
  rcases v with _ | ⟨x, v⟩
  · rfl
  have hne : UInt64.ofNat (x :: v).length ≠ 0 := by
    intro zero
    rw [zero] at size
    cases size
  have taken : u32 (k * (x :: v).length) = ((x :: v).flatMap image).length := by
    rw [length_flatMap_const width]
    exact Nat.mod_eq_of_lt short
  rw [if_neg hne, size, taken]
  have records := reads_getRecords each (x :: v) rest
  simp only [records, bind_eq_bind, bind_some, length_append, drop_left]
  rw [if_neg (by omega)]

lemma serializeInlineVector_ran (ran : serializeInlineVector image v s = some ((), t)) :
    ∃ chunk, chunk.length = u32 (v.flatMap image).length ∧
      t.bytes = s.bytes ++ (write 8 (UInt64.ofNat v.length).toNat ++ chunk) := by
  obtain ⟨mid, sized, hcp⟩ := put_bind_some.mp ran
  have bytes := (emits_putU64 _).ran sized
  rcases v with _ | ⟨x, v⟩
  · cases hcp
    exact ⟨[], rfl, by rw [bytes, append_nil]⟩
  rw [if_pos (length_pos_of_mem mem_cons_self), putBytes, map_eq_some_iff] at hcp
  obtain ⟨t', hcp, he⟩ := hcp
  cases he
  obtain ⟨chunk, bytes', length⟩ := ByteStream.append_length hcp
  exact ⟨chunk, length, by rw [bytes', bytes, append_assoc]⟩

lemma serializeInlineVector_of_le
    (fits : s.bytes.length + 16 + (v.flatMap image).length ≤ ByteStream.capacity) :
    ∃ t, serializeInlineVector image v s = some ((), t) ∧
      t.bytes = s.bytes ++ (write 8 (UInt64.ofNat v.length).toNat ++ v.flatMap image) := by
  obtain ⟨mid, sized, bytes⟩ := (emits_putU64 (UInt64.ofNat v.length)).fits s (by
    rw [length_write]
    omega)
  rcases v with _ | ⟨x, v⟩
  · exact ⟨mid, put_bind_some.mpr ⟨mid, sized, rfl⟩, by rw [bytes]; rfl⟩
  obtain ⟨t, copied, bytes'⟩ := @ByteStream.append_of_le mid ((x :: v).flatMap image) (by
    rw [bytes, length_append, length_write]
    simp only [issOverhead]
    omega)
  refine ⟨t, put_bind_some.mpr ⟨mid, sized, ?_⟩, by rw [bytes', bytes, append_assoc]⟩
  rw [if_pos (length_pos_of_mem mem_cons_self), putBytes, copied]
  rfl

lemma get_bind_some {b : β} :
    (g >>= f) msg = some (b, rest) ↔ ∃ a mid, g msg = some (a, mid) ∧ f a mid = some (b, rest) := by
  have chain : (g >>= f) msg = (g msg).bind fun p => f p.1 p.2 := rfl
  rw [chain, bind_eq_some_iff]
  exact Prod.exists

lemma deserializeInlineVector_some (each : Takes record k) {size : UInt64}
    (ran : deserializeInlineVector k record (write 8 size.toNat ++ msg) = some (v, rest)) :
    v.length = size.toNat ∧ v.length * k ≤ msg.length := by
  obtain ⟨a, mid, sized, ran⟩ := get_bind_some.mp ran
  rw [reads_getU64 size msg] at sized
  cases sized
  split_ifs at ran with nothing
  · cases ran
    rw [nothing]
    exact ⟨rfl, by simp⟩
  simp only [bind_eq_bind, bind_eq_some_iff, Prod.exists] at ran
  obtain ⟨w, ha, records, ran⟩ := ran
  split_ifs at ran
  cases ran
  have length := length_getRecords records
  have := getRecords_takes each _ _ _ _ records
  rw [length]
  exact ⟨rfl, by omega⟩

end MessageQueue
