import EryDb.ByteStream

/-!
# The string store of a row group

Strings lie one behind the other in chunks of 64 KiB. A string is known by its token, the
number of the chunk and the offset in it as one 32-bit number; all ones stand for NULL. The
NULL marker is not stored, and neither is a string of nine bytes that starts with it.
-/

namespace StringStore

open List LittleEndian MessageQueue
open BrmTypes (u32)

def chunkSize : Nat := 64 * 1024

/-- The bytes of `_CpNuLl_`. -/
def cpNullStrMark : List Byte := [95, 67, 112, 78, 117, 76, 108, 95]

def nullToken : Nat := 2 ^ 32 - 1

/-- A chunk, with the bytes of it that are in use. -/
structure MemChunk where
  data : List Byte
  capacity : Nat

structure Store where
  mem : List MemChunk
  empty : Bool

def newStore : Store := ⟨[], true⟩

/-- The chunks before the one that takes `len` bytes, and that one. -/
def chunkFor (mem : List MemChunk) (len : Nat) : List MemChunk × MemChunk :=
  match mem.getLast? with
  | none => (mem, ⟨[], chunkSize⟩)
  | some lastMC =>
    if lastMC.capacity - lastMC.data.length < len then (mem, ⟨[], chunkSize⟩)
    else (mem.dropLast, lastMC)

def storeString (st : Store) (s : List Byte) : Nat × Store :=
  if (s.length = 8 ∨ s.length = 9) ∧ s.take 8 = cpNullStrMark then
    (nullToken, { st with empty := false })
  else
    let c := chunkFor st.mem s.length
    (u32 (c.1.length * chunkSize + c.2.data.length),
      ⟨c.1 ++ [{ c.2 with data := c.2.data ++ s }], false⟩)

/-- What lies behind a token, if `len` bytes from there on are in use. -/
def bytesAt (st : Store) (off len : Nat) : Option (List Byte) :=
  st.mem[off / chunkSize]?.bind fun mc =>
    if mc.data.length < u32 (off % chunkSize + len) then none
    else some (mc.data.drop (off % chunkSize))

def getString (st : Store) (off len : Nat) : List Byte :=
  if off = nullToken then cpNullStrMark
  else match bytesAt st off len with
    | none => cpNullStrMark
    | some data => data.take len

/-- Whether `strncmp` finds no difference; it stops behind a zero byte. -/
def strncmpEq : List Byte → List Byte → Nat → Bool
  | _, _, 0 => true
  | a, b, n + 1 => a.headD 0 == b.headD 0 && (a.headD 0 == 0 || strncmpEq a.tail b.tail n)

def equals (st : Store) (str : List Byte) (off len : Nat) : Bool :=
  if off = nullToken ∨ len = 0 then str == cpNullStrMark
  else match bytesAt st off len with
    | none => false
    | some data => strncmpEq str data len

def putChunk (mc : MemChunk) : Put Unit := do
  putU32 (UInt32.ofNat mc.data.length)
  putBytes mc.data

def serialize (st : Store) : Put Unit := do
  putU32 (UInt32.ofNat st.mem.length)
  putByte st.empty.toUInt8
  st.mem.forM putChunk

def getChunk : Get MemChunk := do
  let size ← getU32
  fun msg => if msg.length < size.toNat then none
    else some (⟨msg.take size.toNat, size.toNat⟩, msg.drop size.toNat)

def deserialize : Get Store := do
  let count ← getU32
  let tmp8 ← getByte
  let mem ← getRecords getChunk count.toNat
  pure ⟨mem, tmp8 ≠ 0⟩

/-- A string found at its token: it is read back whole, and only it equals itself among the
strings that do not extend it. -/
structure Recalled (st : Store) (off : Nat) (s : List Byte) : Prop where
  whole : getString st off s.length = s
  equal : ∀ t, ¬ (s <+: t ∧ t ≠ s) → (equals st t off s.length = true ↔ t = s)

/-- The strings and the states in which they are stored faithfully: a string with bytes, none of
them zero, that is not taken for the marker and whose token is not cut or taken for NULL. -/
structure Fits (st : Store) (s : List Byte) : Prop where
  filled : s ≠ []
  clear : 0 ∉ s
  short : s.length ≤ chunkSize
  plain : ¬ (s.length = 9 ∧ s.take 8 = cpNullStrMark)
  low : (chunkFor st.mem s.length).1.length * chunkSize +
    (chunkFor st.mem s.length).2.data.length < nullToken

/-- The stores of a run, with the tokens and strings so far, the last in front. -/
inductive Run : List (Nat × List Byte) → Store → Prop where
  | start : Run [] newStore
  | store {stored : List (Nat × List Byte)} {st : Store} (run : Run stored st) (s : List Byte)
      (fits : s = cpNullStrMark ∨ Fits st s) :
      Run (((storeString st s).1, s) :: stored) (storeString st s).2

variable {st st' : Store} {off : Nat} {s : List Byte} {stored : List (Nat × List Byte)}

lemma strncmpEq_iff (clear : 0 ∉ s) (t rest : List Byte) :
    strncmpEq t (s ++ rest) s.length = true ↔ s <+: t := by
  induction s generalizing t with
  | nil => simp [strncmpEq]
  | cons a s ih =>
    obtain ⟨real, clear⟩ := not_or.mp (mem_cons.not.mp clear)
    cases t with
    | nil => simp [strncmpEq, real]
    | cons b t =>
      simp only [strncmpEq, length_cons, cons_append, headD_cons, tail_cons, Bool.and_eq_true,
        Bool.or_eq_true, beq_iff_eq, ih clear, cons_prefix_cons]
      constructor
      · rintro ⟨rfl, zero | same⟩
        · exact absurd zero.symm real
        · exact ⟨rfl, same⟩
      · rintro ⟨rfl, same⟩
        exact ⟨rfl, Or.inr same⟩

/-- The string lies at its token. -/
structure Kept (st : Store) (off : Nat) (s : List Byte) : Prop where
  low : off < nullToken
  filled : s ≠ []
  clear : 0 ∉ s
  lies : ∃ mc, st.mem[off / chunkSize]? = some mc ∧ s <+: mc.data.drop (off % chunkSize)

lemma Kept.recalled (kept : Kept st off s) : Recalled st off s := by
  obtain ⟨mc, found, rest, lies⟩ := kept.lies
  have full := length_pos_of_ne_nil kept.filled
  have here : bytesAt st off s.length = some (s ++ rest) := by
    have length := congrArg length lies
    rw [length_append, length_drop] at length
    have : u32 (off % chunkSize + s.length) ≤ off % chunkSize + s.length := Nat.mod_le _ _
    simp only [bytesAt, found, Option.bind_some, lies]
    rw [if_neg (by omega)]
  refine ⟨?_, fun t other => ?_⟩
  · simp [getString, kept.low.ne, here]
  · have compared := strncmpEq_iff kept.clear t rest
    simp only [equals, here, kept.low.ne, full.ne', or_self, if_false, compared]
    refine ⟨fun starts => ?_, fun same => same ▸ prefix_rfl⟩
    by_contra longer
    exact other ⟨starts, longer⟩

/-- The chunks of a store only grow at their ends. -/
def Extends (st st' : Store) : Prop :=
  ∀ (i : Nat) (mc : MemChunk), st.mem[i]? = some mc →
    ∃ mc' : MemChunk, st'.mem[i]? = some mc' ∧ mc.data <+: mc'.data

lemma Kept.mono (kept : Kept st off s) (grown : Extends st st') : Kept st' off s := by
  obtain ⟨mc, found, lies⟩ := kept.lies
  obtain ⟨mc', found', starts⟩ := grown _ mc found
  exact ⟨kept.low, kept.filled, kept.clear, mc', found', lies.trans (starts.drop _)⟩

structure Sized (st : Store) : Prop where
  chunks : ∀ mc ∈ st.mem, mc.data.length ≤ mc.capacity ∧ mc.capacity ≤ chunkSize
  count : st.mem.length ≤ 2 ^ 16

/-- The chunk that takes a string has room for it, and no chunk changes its place. -/
lemma chunkFor_spec (hs : Sized st) {len : Nat} (short : len ≤ chunkSize) :
    ((chunkFor st.mem len).2.data.length + len ≤ (chunkFor st.mem len).2.capacity ∧
      (chunkFor st.mem len).2.capacity ≤ chunkSize) ∧ (chunkFor st.mem len).1 <+: st.mem ∧
      st.mem <+: (chunkFor st.mem len).1 ++ [(chunkFor st.mem len).2] := by
  rw [chunkFor]
  split
  · exact ⟨⟨by simpa using short, le_rfl⟩, prefix_rfl, prefix_append ..⟩
  · rename_i lastMC last
    split
    · exact ⟨⟨by simpa using short, le_rfl⟩, prefix_rfl, prefix_append ..⟩
    · have := hs.chunks lastMC (mem_of_getLast? last)
      exact ⟨⟨by simp only; omega, this.2⟩, dropLast_prefix _,
        by rw [dropLast_append_getLast? lastMC last]⟩

/-- One store: the string lies at its token, and what was stored before stays. -/
lemma storeString_keeps (hs : Sized st) (fits : Fits st s) (plain : s ≠ cpNullStrMark) :
    Sized (storeString st s).2 ∧ Extends st (storeString st s).2 ∧
      Kept (storeString st s).2 (storeString st s).1 s := by
  obtain ⟨⟨room, capacity⟩, before, rest, same⟩ := chunkFor_spec hs fits.short
  have low := fits.low
  have length := length_pos_of_ne_nil fits.filled
  have stored : ¬ ((s.length = 8 ∨ s.length = 9) ∧ s.take 8 = cpNullStrMark) := by
    rintro ⟨eight | nine, marked⟩
    · exact plain (by rw [← marked, take_of_length_le eight.le])
    · exact fits.plain ⟨nine, marked⟩
  simp only [storeString, if_neg stored]
  generalize chunkFor st.mem s.length = c at *
  simp only [chunkSize, nullToken] at low capacity
  have token : u32 (c.1.length * chunkSize + c.2.data.length) =
      c.1.length * chunkSize + c.2.data.length := Nat.mod_eq_of_lt (by simp only [chunkSize]; omega)
  have chunk : (c.1.length * chunkSize + c.2.data.length) / chunkSize = c.1.length ∧
      (c.1.length * chunkSize + c.2.data.length) % chunkSize = c.2.data.length := by
    simp only [chunkSize]
    omega
  refine ⟨⟨fun mc inside => ?_, by simp; omega⟩, fun i mc found => ?_, ?_⟩
  · rcases mem_append.mp inside with old | new
    · exact hs.chunks mc (before.subset old)
    · rw [mem_singleton.mp new, length_append]
      exact ⟨room, capacity⟩
  · have found : (c.1 ++ [c.2])[i]? = some mc := by
      rw [← same, getElem?_append_left (List.getElem?_eq_some_iff.mp found).1, found]
    rw [getElem?_append] at found
    split at found
    · exact ⟨mc, by rw [getElem?_append, if_pos ‹_›, found], prefix_rfl⟩
    · rw [getElem?_append, if_neg ‹_›]
      cases at_ : i - c.1.length with
      | zero =>
        rw [at_] at found
        cases found
        exact ⟨_, rfl, prefix_append ..⟩
      | succ k => simp [at_] at found
  · refine ⟨by rw [token]; simpa only [chunkSize, nullToken] using low, fits.filled, fits.clear, ?_⟩
    rw [token, chunk.1, chunk.2]
    exact ⟨_, getElem?_concat_length, by rw [drop_left]⟩

lemma run_keeps (run : Run stored st) : Sized st ∧
    ∀ p ∈ stored, p.2 ≠ cpNullStrMark → Kept st p.1 p.2 := by
  induction run with
  | start => exact ⟨⟨nofun, Nat.zero_le _⟩, nofun⟩
  | @store stored st run s fits ih =>
    obtain ⟨sized, kept⟩ := ih
    by_cases marker : s = cpNullStrMark
    · subst marker
      refine ⟨⟨sized.chunks, sized.count⟩, fun p inside plain => ?_⟩
      rcases mem_cons.mp inside with rfl | old
      · exact absurd rfl plain
      · exact (kept p old plain).mono fun i mc found => ⟨mc, found, prefix_rfl⟩
    · obtain ⟨sized', grown, new⟩ := storeString_keeps sized (fits.resolve_left marker) marker
      refine ⟨sized', fun p inside plain => ?_⟩
      rcases mem_cons.mp inside with rfl | old
      · exact new
      · exact (kept p old plain).mono grown

def MemChunk.image (mc : MemChunk) : List Byte :=
  write 4 (UInt32.ofNat mc.data.length).toNat ++ mc.data

lemma chunks_sent (mem : List MemChunk) {b : ByteStream}
    (room : b.bytes.length + (mem.flatMap MemChunk.image).length + issOverhead ≤
      ByteStream.capacity) :
    ∃ t, mem.forM putChunk b = some ((), t) ∧ t.bytes = b.bytes ++ mem.flatMap MemChunk.image := by
  induction mem generalizing b with
  | nil => exact ⟨b, rfl, by simp⟩
  | cons mc mem ih =>
    rw [flatMap_cons, MemChunk.image, length_append, length_append, length_write] at room
    obtain ⟨m, sized, bytes⟩ := (emits_putU32 (UInt32.ofNat mc.data.length)).fits b (by
      rw [length_write]
      omega)
    obtain ⟨u, copied, bytes'⟩ := @ByteStream.append_of_le m mc.data (by
      rw [bytes, length_append, length_write]
      omega)
    have here : u.bytes = b.bytes ++ mc.image := by rw [bytes', bytes, append_assoc]; rfl
    have sent : putChunk mc b = some ((), u) :=
      put_bind_some.mpr ⟨m, sized, by rw [putBytes, copied]; rfl⟩
    obtain ⟨t, others, all⟩ := ih (b := u) (by
      rw [here, MemChunk.image, length_append, length_append, length_write]
      omega)
    exact ⟨t, put_bind_some.mpr ⟨u, sent, others⟩, by rw [all, here, append_assoc, flatMap_cons]⟩

lemma chunks_read {mem : List MemChunk} (short : ∀ mc ∈ mem, mc.data.length ≤ chunkSize) :
    Reads (getRecords getChunk mem.length) (mem.flatMap MemChunk.image)
      (mem.map fun mc => ⟨mc.data, mc.data.length⟩) := by
  induction mem with
  | nil => exact reads_pure []
  | cons mc mem ih =>
    have size : (UInt32.ofNat mc.data.length).toNat = mc.data.length := by
      have := short mc mem_cons_self
      rw [UInt32.toNat_ofNat']
      exact Nat.mod_eq_of_lt (by simp only [chunkSize] at this; omega)
    have one : Reads getChunk mc.image ⟨mc.data, mc.data.length⟩ :=
      (reads_getU32 _).bind fun rest => by simp [size]
    exact one.bind ((ih fun c inside => short c (mem_cons_of_mem _ inside)).last _)

/-- A stream can hold the store. -/
def Streams (st : Store) : Prop :=
  5 + (st.mem.flatMap MemChunk.image).length + issOverhead ≤ ByteStream.capacity

/-- What is read from the stream that `st` was written to. -/
def Arrives (st st' : Store) : Prop :=
  ∃ bs, serialize st ByteStream.empty = some ((), bs) ∧ deserialize bs.bytes = some (st', [])

lemma serialize_arrives (hs : Sized st) (room : Streams st) :
    ∃ st', Arrives st st' ∧ Extends st st' := by
  obtain ⟨m, header, bytes⟩ := ((emits_putU32 (UInt32.ofNat st.mem.length)).bind
    (emits_putByte st.empty.toUInt8)).fits ByteStream.empty (by
      rw [length_append, length_write, length_write]
      decide)
  obtain ⟨bs, chunks, bytes'⟩ := @chunks_sent st.mem m (by
    simpa only [Streams, bytes, ByteStream.empty, length_append, length_write, length_nil,
      Nat.zero_add] using room)
  obtain ⟨u, counted, flagged⟩ := put_bind_some.mp header
  have count : (UInt32.ofNat st.mem.length).toNat = st.mem.length := by
    have := hs.count
    rw [UInt32.toNat_ofNat']
    exact Nat.mod_eq_of_lt (by omega)
  have read := chunks_read fun mc inside => (hs.chunks mc inside).1.trans (hs.chunks mc inside).2
  rw [← count] at read
  have last := read.last fun mem => (⟨mem, st.empty.toUInt8 ≠ 0⟩ : Store)
  have whole : Reads deserialize _ _ := (reads_getU32 (UInt32.ofNat st.mem.length)).bind
    ((reads_getByte st.empty.toUInt8).bind last)
  have message : bs.bytes = write 4 (UInt32.ofNat st.mem.length).toNat ++
      (write 1 st.empty.toUInt8.toNat ++ st.mem.flatMap MemChunk.image) ++ [] := by
    rw [bytes', bytes]
    simp [ByteStream.empty]
  have arrived := whole []
  rw [← message] at arrived
  exact ⟨_, ⟨bs, put_bind_some.mpr ⟨u, counted, put_bind_some.mpr ⟨m, flagged, chunks⟩⟩, arrived⟩,
    fun i mc found => ⟨⟨mc.data, mc.data.length⟩, by simp [found], prefix_rfl⟩⟩

/-- Every string of the run is read back and compared faithfully in the state reached, and
in the store that arrives when it is sent. -/
theorem strings_recalled (run : Run stored st) (inside : (off, s) ∈ stored)
    (plain : s ≠ cpNullStrMark) :
    Recalled st off s ∧ (Streams st → ∃ st', Arrives st st' ∧ Recalled st' off s) := by
  obtain ⟨sized, all⟩ := run_keeps run
  have kept := all _ inside plain
  refine ⟨kept.recalled, fun room => ?_⟩
  obtain ⟨st', arrives, grown⟩ := serialize_arrives sized room
  exact ⟨st', arrives, (kept.mono grown).recalled⟩

/-- One letter is recalled after two others were stored behind it. -/
theorem strings_recalled_letters : ∃ st off off', Run [(off', [98, 99]), (off, [97])] st ∧
    Recalled st off [97] ∧ ∃ st', Arrives st st' ∧ Recalled st' off [97] := by
  have run : Run _ _ := .store .start [97]
    (Or.inr ⟨by decide, by decide, by decide, by decide, by decide⟩)
  have run' : Run _ _ := .store run [98, 99]
    (Or.inr ⟨by decide, by decide, by decide, by decide, by decide +kernel⟩)
  obtain ⟨here, sent⟩ := strings_recalled run' (mem_cons_of_mem _ mem_cons_self) (by decide)
  exact ⟨_, _, _, run', here, sent (by unfold Streams; decide +kernel)⟩

/-- Nine bytes that start with the marker come back as the marker; the empty string does not
equal itself; two letters equal the three that start so; bytes behind a zero do not count. -/
theorem strings_confused :
    getString (storeString newStore (cpNullStrMark ++ [120])).2 nullToken 9 = cpNullStrMark ∧
      equals (storeString newStore []).2 [] 0 0 = false ∧
      equals (storeString newStore [97, 98]).2 [97, 98, 99] 0 2 = true ∧
      equals (storeString newStore [97, 0, 98]).2 [97, 0, 99] 0 3 = true ∧
      [cpNullStrMark ++ [120], [], [97, 98], [97, 0, 98]].map
        (fun s => (storeString newStore s).1) = [nullToken, 0, 0, 0] := by
  decide +kernel

end StringStore
