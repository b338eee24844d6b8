import EryDb.Occupancy

/-!
# The read-write lock

`RWLock` keeps four counters and two semaphores in shared memory. Every call changes the counters
in one section under a mutex. A thread that cannot go on counts itself as waiting and goes down on
a semaphore; the thread that lets it go on moves the count from waiting to reading or writing and
posts the semaphore. A writer with a time limit may give up between the two, and then settles in a
second section whether it was let go on or not.
-/

namespace RWLock

open Occupancy (count)

/-- The counters and the posts of the semaphores that nobody has taken yet. -/
structure State where
  writerswaiting : Nat
  writing : Nat
  readerswaiting : Nat
  reading : Nat
  writersSem : Nat
  readersSem : Nat
  deriving DecidableEq

/-- Where a thread is between its sections. -/
inductive Place where
  | idle
  | reads
  | writes
  | waitsReaders
  | waitsWriters
  | waitsTimed
  | timedOut
  deriving DecidableEq

section Sections

variable (s : State)

/-- The common part of the calls for reading: wait, refuse, or read. -/
def readIfFree (busy block : Bool) : State × Place :=
  if busy then
    if block then ({ s with readerswaiting := s.readerswaiting + 1 }, .waitsReaders)
    else (s, .idle)
  else ({ s with reading := s.reading + 1 }, .reads)

def readLock (block : Bool) : State × Place :=
  readIfFree s (0 < s.writerswaiting || 0 < s.writing) block

def readLockPriority (block : Bool) : State × Place := readIfFree s (0 < s.writing) block

def readUnlock : State :=
  if 0 < s.reading then
    let s := { s with reading := s.reading - 1 }
    if 0 < s.writerswaiting && s.reading == 0 then
      { s with writerswaiting := s.writerswaiting - 1, writing := s.writing + 1,
               writersSem := s.writersSem + 1 }
    else s
  else s

/-- The common part of the calls for writing; `waits` is where the thread waits. -/
def writeIfFree (waits : Place) : State × Place :=
  if 0 < s.writing || 0 < s.reading then
    ({ s with writerswaiting := s.writerswaiting + 1 }, waits)
  else ({ s with writing := s.writing + 1 }, .writes)

def writeLock (block : Bool) : State × Place :=
  if (0 < s.writing || 0 < s.reading) && !block then (s, .idle)
  else writeIfFree s .waitsWriters

/-- Gives up at once if the mutex is not free in time. -/
def timedWriteLock (gotMutex : Bool) : State × Place :=
  if gotMutex then writeIfFree s .waitsTimed else (s, .idle)

/-- Every waiting reader is counted as reading and gets a post. -/
def releaseReaders : State :=
  { s with readerswaiting := 0, readersSem := s.readersSem + s.readerswaiting }

/-- The second section of `timed_write_lock`: nobody waits any more if this thread was let go on;
otherwise the request is taken back, and with it what it blocked. -/
def revoke : State × Place :=
  if s.writerswaiting = 0 then
    if 0 < s.writersSem then ({ s with writersSem := s.writersSem - 1 }, .writes) else (s, .idle)
  else
    let s := { s with writerswaiting := s.writerswaiting - 1 }
    if s.writing == 0 && s.writerswaiting == 0 then
      (releaseReaders { s with reading := s.reading + s.readerswaiting }, .idle)
    else (s, .idle)

/-- A failed `assert` has no result. -/
def writeUnlock : Option State :=
  if 0 < s.writing then
    let s := { s with writing := s.writing - 1 }
    if 0 < s.writerswaiting then
      some { s with writerswaiting := s.writerswaiting - 1, writing := s.writing + 1,
                    writersSem := s.writersSem + 1 }
    else if 0 < s.readerswaiting then
      some (releaseReaders { s with reading := s.readerswaiting })
    else some s
  else none

def upgradeToWrite : State × Place :=
  if 0 < s.reading then
    let s := { s with reading := s.reading - 1 }
    if s.reading == 0 then ({ s with writing := s.writing + 1 }, .writes)
    else writeIfFree s .waitsWriters
  else writeIfFree s .waitsWriters

def downgradeToRead : Option State :=
  if 0 < s.writing then
    let s := { s with writing := s.writing - 1 }
    let s := if 0 < s.readerswaiting then releaseReaders { s with reading := s.readerswaiting }
      else s
    some { s with reading := s.reading + 1 }
  else none

end Sections

inductive Action where
  | readLock (block : Bool)
  | readLockPriority (block : Bool)
  | readUnlock
  | writeLock (block : Bool)
  | timedWriteLock (gotMutex : Bool)
  | writeUnlock
  | upgradeToWrite
  | downgradeToRead
  | down
  | timeOut
  | revoke
  deriving DecidableEq

/-- What a thread at a place can do: call what it may call there, take a post of the semaphore it
waits for, or run out of time. -/
def act (s : State) : Action → Place → Option (State × Place)
  | .readLock block, .idle => some (readLock s block)
  | .readLockPriority block, .idle => some (readLockPriority s block)
  | .readUnlock, .reads => some (readUnlock s, .idle)
  | .writeLock block, .idle => some (writeLock s block)
  | .timedWriteLock gotMutex, .idle => some (timedWriteLock s gotMutex)
  | .writeUnlock, .writes => (writeUnlock s).map (·, .idle)
  | .upgradeToWrite, .reads => some (upgradeToWrite s)
  | .downgradeToRead, .writes => (downgradeToRead s).map (·, .reads)
  | .down, .waitsReaders =>
    if 0 < s.readersSem then some ({ s with readersSem := s.readersSem - 1 }, .reads) else none
  | .down, .waitsWriters | .down, .waitsTimed =>
    if 0 < s.writersSem then some ({ s with writersSem := s.writersSem - 1 }, .writes) else none
  | .timeOut, .waitsTimed => some (s, .timedOut)
  | .revoke, .timedOut => some (revoke s)
  | _, _ => none

structure System (T : Type) where
  state : State
  place : T → Place

section Runs

variable {T : Type} [DecidableEq T]

def Step (x y : System T) : Prop :=
  ∃ t action state place, act x.state action (x.place t) = some (state, place) ∧
    y = ⟨state, Function.update x.place t place⟩

def unlocked : System T := ⟨⟨0, 0, 0, 0, 0, 0⟩, fun _ => .idle⟩

/-- The lock as it is made with `excl` by thread `t`. -/
def lockedBy (t : T) : System T := ⟨⟨0, 1, 0, 0, 0, 0⟩, Function.update (fun _ => .idle) t .writes⟩

inductive Reachable : System T → Prop
  | unlocked : Reachable unlocked
  | locked (t : T) : Reachable (lockedBy t)
  | step {x y : System T} : Reachable x → Step x y → Reachable y

end Runs

section Safety

def Place.isReader : Place → Bool
  | .reads => true
  | _ => false

def Place.isWriter : Place → Bool
  | .writes => true
  | _ => false

def Place.waitsToRead : Place → Bool
  | .waitsReaders => true
  | _ => false

lemma isReader_iff {p : Place} : p.isReader = true ↔ p = .reads := by
  cases p <;> decide

lemma isWriter_iff {p : Place} : p.isWriter = true ↔ p = .writes := by
  cases p <;> decide

/-- A thread that ran out of time is still counted as waiting. -/
def Place.waitsToWrite : Place → Bool
  | .waitsWriters | .waitsTimed | .timedOut => true
  | _ => false

/-- The counters of a state against the numbers of threads at the four kinds of places. -/
structure Counted (s : State) (reads writes waitsToRead waitsToWrite : Nat) : Prop where
  reading : s.reading = reads + s.readersSem
  writing : s.writing = writes + s.writersSem
  readerswaiting : s.readerswaiting + s.readersSem = waitsToRead
  writerswaiting : s.writerswaiting + s.writersSem = waitsToWrite
  exclusive : s.writing = 0 ∨ (s.writing = 1 ∧ s.reading = 0)
  /-- Readers only wait for a writer that writes or waits. -/
  behindWriter : 0 < s.readerswaiting → 0 < s.writing ∨ 0 < s.writerswaiting
  writerBlocked : 0 < s.writerswaiting → 0 < s.writing ∨ 0 < s.reading

variable {s s' : State} {p q : Place} {r w rw ww : Nat}

/-- One more thread than the numbers say is at place `p`. -/
def CountedAt (s : State) (r w rw ww : Nat) (p : Place) : Prop :=
  Counted s (r + p.isReader.toNat) (w + p.isWriter.toNat) (rw + p.waitsToRead.toNat)
    (ww + p.waitsToWrite.toNat)

namespace Counted

variable (countEq : Counted s r w rw ww)
include countEq

lemma read (free : s.writing = 0) :
    Counted { s with reading := s.reading + 1 } (r + 1) w rw ww := by
  rcases countEq with ⟨⟩
  constructor <;> dsimp only <;> omega

lemma awaitRead (busy : 0 < s.writing ∨ 0 < s.writerswaiting) :
    Counted { s with readerswaiting := s.readerswaiting + 1 } r w (rw + 1) ww := by
  rcases countEq with ⟨⟩
  constructor <;> dsimp only <;> omega

lemma write (free : s.writing = 0 ∧ s.reading = 0) :
    Counted { s with writing := s.writing + 1 } r (w + 1) rw ww := by
  rcases countEq with ⟨⟩
  constructor <;> dsimp only <;> omega

lemma awaitWrite (busy : 0 < s.writing ∨ 0 < s.reading) :
    Counted { s with writerswaiting := s.writerswaiting + 1 } r w rw (ww + 1) := by
  rcases countEq with ⟨⟩
  constructor <;> dsimp only <;> omega

omit countEq in
lemma wakeReader (countEq : Counted s r w (rw + 1) ww) (posted : 0 < s.readersSem) :
    Counted { s with readersSem := s.readersSem - 1 } (r + 1) w rw ww := by
  rcases countEq with ⟨⟩
  constructor <;> dsimp only <;> omega

omit countEq in
lemma wakeWriter (countEq : Counted s r w rw (ww + 1)) (posted : 0 < s.writersSem) :
    Counted { s with writersSem := s.writersSem - 1 } r (w + 1) rw ww := by
  rcases countEq with ⟨⟩
  constructor <;> dsimp only <;> omega

lemma readIfFree {busy block : Bool}
    (blocked : busy = true → 0 < s.writing ∨ 0 < s.writerswaiting)
    (free : busy = false → s.writing = 0) (ran : readIfFree s busy block = (s', q)) :
    CountedAt s' r w rw ww q := by
  cases busy with
  | false =>
    cases ran
    exact countEq.read (free rfl)
  | true =>
    cases block with
    | false =>
      cases ran
      exact countEq
    | true =>
      cases ran
      exact countEq.awaitRead (blocked rfl)

omit countEq

lemma writeIfFree {waits : Place} (waiting : waits = .waitsWriters ∨ waits = .waitsTimed)
    (countEq : Counted s r w rw ww) (ran : writeIfFree s waits = (s', q)) :
    CountedAt s' r w rw ww q := by
  unfold RWLock.writeIfFree at ran
  split at ran
  · rename_i busy
    cases ran
    have more := countEq.awaitWrite (by simpa using busy)
    rcases waiting with rfl | rfl <;> exact more
  · rename_i free
    cases ran
    exact countEq.write (by simpa using free)

lemma readUnlock (countEq : Counted s (r + 1) w rw ww) : Counted (readUnlock s) r w rw ww := by
  rcases countEq with ⟨⟩
  rw [RWLock.readUnlock, if_pos (by omega)]
  dsimp only
  split_ifs with handOver
  all_goals
    simp only [Bool.and_eq_true, decide_eq_true_eq, beq_iff_eq] at handOver
    constructor <;> dsimp only <;> omega

/-- A writer that ran out of time finds a post if nobody is counted as waiting. -/
lemma revoke (countEq : Counted s r w rw (ww + 1)) (ran : revoke s = (s', q)) :
    CountedAt s' r w rw ww q := by
  unfold RWLock.revoke at ran
  split at ran
  · have posted : 0 < s.writersSem := by
      have := countEq.writerswaiting
      omega
    rw [if_pos posted] at ran
    cases ran
    exact countEq.wakeWriter posted
  · rcases countEq with ⟨⟩
    dsimp only at ran
    split_ifs at ran with last
    all_goals
      simp only [Bool.and_eq_true, beq_iff_eq] at last
      cases ran
      constructor <;> dsimp only [releaseReaders, Place.isReader, Place.isWriter,
        Place.waitsToRead, Place.waitsToWrite, Bool.toNat_false] <;> omega

lemma writeUnlock (countEq : Counted s r (w + 1) rw ww) :
    ∃ s', writeUnlock s = some s' ∧ Counted s' r w rw ww := by
  rcases countEq with ⟨⟩
  rw [RWLock.writeUnlock, if_pos (by omega)]
  dsimp only
  split_ifs
  all_goals
    refine ⟨_, rfl, ?_⟩
    constructor <;> dsimp only [releaseReaders] <;> omega

lemma upgradeToWrite (countEq : Counted s (r + 1) w rw ww) (ran : upgradeToWrite s = (s', q)) :
    CountedAt s' r w rw ww q := by
  have held : 0 < s.reading := by
    have := countEq.reading
    omega
  rw [RWLock.upgradeToWrite, if_pos held] at ran
  dsimp only at ran
  rcases countEq with ⟨⟩
  split at ran
  · rename_i last
    simp only [beq_iff_eq] at last
    cases ran
    constructor <;> dsimp only [Place.isReader, Place.isWriter, Place.waitsToRead,
      Place.waitsToWrite, Bool.toNat_true, Bool.toNat_false] <;> omega
  rename_i hos
  simp only [beq_iff_eq] at hos
  have left : Counted { s with reading := s.reading - 1 } r w rw ww := by
    constructor <;> dsimp only <;> omega
  exact left.writeIfFree (Or.inl rfl) ran

lemma downgradeToRead (countEq : Counted s r (w + 1) rw ww) :
    ∃ s', downgradeToRead s = some s' ∧ Counted s' (r + 1) w rw ww := by
  rcases countEq with ⟨⟩
  rw [RWLock.downgradeToRead, if_pos (by omega)]
  dsimp only
  split_ifs
  all_goals
    refine ⟨_, rfl, ?_⟩
    constructor <;> dsimp only [releaseReaders] <;> omega

end Counted

/-- A section moves its thread from place `p` to place `q`; the counters follow. -/
lemma act_counted {action : Action} (ran : act s action p = some (s', q))
    (hb : CountedAt s r w rw ww p) : CountedAt s' r w rw ww q := by
  -- a thread does nothing at the other places
  cases action <;> cases p <;> try exact absurd (show none = some (s', q) from ran) nofun
  case readLock.idle block =>
    refine hb.readIfFree ?_ ?_ (Option.some.inj ran)
    · intro busy
      simpa [or_comm] using busy
    · intro free
      simp only [Bool.or_eq_false_iff, decide_eq_false_iff_not] at free
      omega
  case readLockPriority.idle block =>
    refine hb.readIfFree ?_ ?_ (Option.some.inj ran)
    · intro busy
      exact Or.inl (of_decide_eq_true busy)
    · intro free
      have := of_decide_eq_false free
      omega
  case readUnlock.reads =>
    cases ran
    exact hb.readUnlock
  case writeLock.idle block =>
    have ran := Option.some.inj ran
    unfold writeLock at ran
    split at ran
    · cases ran
      exact hb
    · exact hb.writeIfFree (Or.inl rfl) ran
  case timedWriteLock.idle gotMutex =>
    have ran := Option.some.inj ran
    unfold timedWriteLock at ran
    split at ran
    · exact hb.writeIfFree (Or.inr rfl) ran
    · cases ran
      exact hb
  case writeUnlock.writes =>
    obtain ⟨next, he, ha⟩ := hb.writeUnlock
    rw [act, he] at ran
    cases ran
    exact ha
  case upgradeToWrite.reads => exact hb.upgradeToWrite (Option.some.inj ran)
  case downgradeToRead.writes =>
    obtain ⟨next, he, ha⟩ := hb.downgradeToRead
    rw [act, he] at ran
    cases ran
    exact ha
  case down.waitsReaders =>
    rw [act] at ran
    split at ran
    · rename_i posted
      cases ran
      exact hb.wakeReader posted
    · exact nomatch ran
  case down.waitsWriters | down.waitsTimed =>
    rw [act] at ran
    split at ran
    · rename_i posted
      cases ran
      exact hb.wakeWriter posted
    · exact nomatch ran
  case timeOut.waitsTimed =>
    cases ran
    exact hb
  case revoke.timedOut => exact hb.revoke (Option.some.inj ran)

variable {T : Type} [Fintype T] [DecidableEq T] {x y : System T}

/-- The counters agree with where the threads are. -/
def Consistent (x : System T) : Prop :=
  Counted x.state (count Place.isReader x.place) (count Place.isWriter x.place)
    (count Place.waitsToRead x.place) (count Place.waitsToWrite x.place)

lemma consistent_step (step : Step x y) (consistent : Consistent x) : Consistent y := by
  obtain ⟨t, action, state, place, ran, rfl⟩ := step
  obtain ⟨hos, hb, ha⟩ := Occupancy.count_move x.place t place
  simp only [Consistent, hb] at consistent
  simp only [Consistent, ha]
  exact act_counted ran consistent

omit [DecidableEq T] in
lemma consistent_unlocked : Consistent (unlocked : System T) := by
  have none_else : ∀ f : Place → Bool, f .idle = false → count f (fun _ : T => Place.idle) = 0 :=
    fun f away => Occupancy.count_const away
  simp only [Consistent, unlocked, none_else Place.isReader rfl, none_else Place.isWriter rfl,
    none_else Place.waitsToRead rfl, none_else Place.waitsToWrite rfl]
  constructor <;> decide

lemma reachable_consistent (hr : Reachable x) : Consistent x := by
  induction hr with
  | unlocked => exact consistent_unlocked
  | locked t =>
    obtain ⟨hos, hb, ha⟩ := Occupancy.count_move (fun _ : T => Place.idle) t .writes
    have none_else : ∀ f : Place → Bool, f .idle = false → hos f = 0 := by
      intro f away
      have he := hb f
      rw [Occupancy.count_const away, away] at he
      exact he.symm
    simp only [Consistent, lockedBy, ha, none_else Place.isReader rfl,
      none_else Place.isWriter rfl, none_else Place.waitsToRead rfl,
      none_else Place.waitsToWrite rfl]
    constructor <;> decide
  | step _ step ih => exact consistent_step step ih

/-- A thread that unlocks or downgrades what it holds never fails the `assert`. -/
lemma assert_holds (hr : Reachable x) {t : T} (hd : x.place t = .writes) : 0 < x.state.writing := by
  have writer : 0 < count Place.isWriter x.place := Occupancy.count_pos.mpr ⟨t, by rw [hd]; rfl⟩
  have := (reachable_consistent hr).writing
  omega

/-- Threads that read or write, or were let go on to and have not taken their post yet. -/
def readers (x : System T) : Nat := count Place.isReader x.place + x.state.readersSem

def writers (x : System T) : Nat := count Place.isWriter x.place + x.state.writersSem

/-- Threads that wait and were not let go on. -/
def waitingReaders (x : System T) : Nat := count Place.waitsToRead x.place - x.state.readersSem

def waitingWriters (x : System T) : Nat := count Place.waitsToWrite x.place - x.state.writersSem

/-- In every interleaving there is one writer or there are readers only, the counters are right,
and threads wait only for one that reads or writes or for a post that is there. -/
theorem lock_safe (reached : Reachable x) :
    (∀ t u, x.place t = .writes → x.place u = .writes → t = u) ∧
    (∀ t u, x.place t = .writes → x.place u ≠ .reads) ∧
    (x.state.reading = readers x ∧ x.state.writing = writers x ∧
      x.state.readerswaiting = waitingReaders x ∧ x.state.writerswaiting = waitingWriters x) ∧
    ∀ t, ((x.place t).waitsToRead || (x.place t).waitsToWrite) = true →
      (∃ u, x.place u = .reads ∨ x.place u = .writes) ∨
        0 < x.state.readersSem ∨ 0 < x.state.writersSem := by
  obtain ⟨reading, writing, readersWait, writersWait, exclusive, behind, blocked⟩ :=
    reachable_consistent reached
  refine ⟨?_, ?_, ⟨reading, writing, ?_, ?_⟩, ?_⟩
  · intro t u left right
    have few : count Place.isWriter x.place ≤ 1 := by omega
    exact Occupancy.eq_of_count_le_one few (by rw [left]; rfl) (by rw [right]; rfl)
  · intro t u writes reads
    have writer : 0 < count Place.isWriter x.place :=
      Occupancy.count_pos.mpr ⟨t, by rw [writes]; rfl⟩
    have reader : 0 < count Place.isReader x.place :=
      Occupancy.count_pos.mpr ⟨u, by rw [reads]; rfl⟩
    omega
  · rw [waitingReaders]
    omega
  · rw [waitingWriters]
    omega
  · intro t waits
    have waiting : 0 < count Place.waitsToRead x.place + count Place.waitsToWrite x.place := by
      rcases Bool.or_eq_true_iff.mp waits with toRead | toWrite
      · exact Nat.add_pos_left (Occupancy.count_pos.mpr ⟨t, toRead⟩) _
      · exact Nat.add_pos_right _ (Occupancy.count_pos.mpr ⟨t, toWrite⟩)
    have busy : 0 < count Place.isReader x.place ∨ 0 < count Place.isWriter x.place ∨
        0 < x.state.readersSem ∨ 0 < x.state.writersSem := by omega
    rcases busy with reader | writer | posts
    · obtain ⟨u, reads⟩ := Occupancy.count_pos.mp reader
      exact Or.inl ⟨u, Or.inl (isReader_iff.mp reads)⟩
    · obtain ⟨u, writes⟩ := Occupancy.count_pos.mp writer
      exact Or.inl ⟨u, Or.inr (isWriter_iff.mp writes)⟩
    · exact Or.inr posts

/-- A writer has unlocked and handed over to a thread that had run out of time before. -/
def handedOver : System Bool :=
  ⟨⟨0, 1, 0, 0, 1, 0⟩, Function.update (Function.update (Function.update (Function.update
    (fun _ => .idle) false .writes) true .waitsTimed) true .timedOut) false .idle⟩

lemma handedOver_reachable : Reachable handedOver := by
  have hlo := Reachable.locked false
  have waits := hlo.step ⟨true, .timedWriteLock true, _, _, rfl, rfl⟩
  have late := waits.step ⟨true, .timeOut, _, _, rfl, rfl⟩
  exact late.step ⟨false, .writeUnlock, _, _, rfl, rfl⟩

theorem lock_safe_handedOver : handedOver.place true = .timedOut ∧ 0 < handedOver.state.writersSem ∧
      handedOver.state.writing = writers handedOver ∧
      handedOver.state.writerswaiting = waitingWriters handedOver :=
  have counters := (lock_safe handedOver_reachable).2.2.1
  ⟨rfl, by decide, counters.2.1, counters.2.2.2⟩

end Safety

end RWLock
