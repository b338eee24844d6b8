import Mathlib.Algebra.GroupWithZero.Nat
import Mathlib.Data.Fintype.Pi

/-!
# Data of the block resolution manager

Block addresses, object identifiers and versions are integers, unsigned fields
are natural numbers reduced explicitly where the code's arithmetic can wrap, and
the two small enumerations of an extent entry are inductive types. The byte
sizes are those of the packed C++ records on a 64-bit machine.
-/

namespace BrmTypes

def u16 (n : Nat) : Nat := n % 2 ^ 16
def u32 (n : Nat) : Nat := n % 2 ^ 32

/-- The unsigned 64-bit reading of a signed value, and back. -/
def toU64 (x : Int) : Nat := (x % 2 ^ 64).toNat
def toI64 (n : Nat) : Int :=
  if n % 2 ^ 64 < 2 ^ 63 then (n % 2 ^ 64 : Nat) else (n % 2 ^ 64 : Nat) - 2 ^ 64

/-- A C++ `int` after an addition. -/
def wrap32 (n : Int) : Int := n.bmod (2 ^ 32)

structure DBRootsStruct where
  dbRoots : Fin 4 → Nat
  deriving DecidableEq

instance neZero_dbRoots : NeZero 4 := ⟨by decide⟩

namespace DBRootsStruct

def zero : DBRootsStruct := ⟨fun _ => 0⟩

def get (d : DBRootsStruct) (i : Nat) : Nat :=
  if bound : i < 4 then d.dbRoots ⟨i, bound⟩ else 0

def set (d : DBRootsStruct) (i : Nat) (dbr : Nat) : DBRootsStruct :=
  ⟨fun j => if (j : Nat) = i then dbr else d.dbRoots j⟩

/-- Shift the roots behind position `j` down by one, up to the first zero. -/
def closeGap : Nat → Nat → DBRootsStruct → DBRootsStruct
  | 0, j, d => d.set j 0
  | fuel + 1, j, d =>
    if d.get (j + 1) = 0 then d.set j 0
    else closeGap fuel (j + 1) (d.set j (d.get (j + 1)))

/-- The position `remove` stops at: the first `dbr` before any zero root. -/
def findFrom (d : DBRootsStruct) (dbr : Nat) : Nat → Nat → Option Nat
  | 0, _ => none
  | fuel + 1, n =>
    if d.get n = 0 then none
    else if d.get n = dbr then some n
    else findFrom d dbr fuel (n + 1)

def getDbrIndex (d : DBRootsStruct) (dbr : Nat) : Option Nat := d.findFrom dbr 4 0

def remove (d : DBRootsStruct) (dbr : Nat) : DBRootsStruct :=
  match d.getDbrIndex dbr with
  | some n => closeGap (3 - n) n d
  | none => d

end DBRootsStruct

structure InlineLBIDRange where
  start : Int
  size : Nat
  deriving DecidableEq

/-- The first block behind a range; `size` counts multiples of 1024 blocks. -/
def InlineLBIDRange.blockEnd (r : InlineLBIDRange) : Int := r.start + (r.size : Int) * 1024

inductive ExtentStatus where
  | available
  | unavailable
  | outOfService
  deriving DecidableEq

inductive CPState where
  | invalid
  | updating
  | valid
  deriving DecidableEq

inductive ColDataType where
  | bit | tinyint | char | smallint | decimal | medint | int | float | date | bigint | double
  | datetime | varchar | varbinary | clob | blob | utinyint | usmallint | udecimal | umedint
  | uint | ufloat | ubigint | udouble | numOfColDataType | longdouble | strint
  deriving DecidableEq

def isUnsigned : ColDataType → Bool
  | .utinyint | .usmallint | .umedint | .uint | .ubigint => true
  | _ => false

def isCharType : ColDataType → Bool
  | .varchar | .char => true
  | _ => false

structure CPRange where
  hiVal : Int
  loVal : Int
  sequenceNum : Int
  isValid : CPState
  deriving DecidableEq

structure EMEntry where
  range : InlineLBIDRange
  fileID : Int
  blockOffset : Nat
  dbRoots : DBRootsStruct
  hwm : Nat
  partitionNum : Nat
  segmentNum : Nat
  colWid : Nat
  status : ExtentStatus
  cprange : CPRange
  deriving DecidableEq

def sizeofEMEntry : Nat := 72
def sizeofInlineLBIDRange : Nat := 16

/-- Shared memory is handed out filled with zero bytes. -/
def zeroRange : InlineLBIDRange := ⟨0, 0⟩
def zeroEntry : EMEntry := ⟨zeroRange, 0, 0, .zero, 0, 0, 0, 0, .available, ⟨0, 0, 0, .invalid⟩⟩

structure MSTEntry where
  allocdSize : Nat
  currentSize : Int
  deriving DecidableEq

def maxLBIDSize : Nat := 0xFFFFFFFF
def blockSize : Nat := 8192
def extentRows : Nat := 0x800000
def dictColWidth : Nat := 8
def int64Min : Int := -(2 ^ 63)
def int64Max : Int := 2 ^ 63 - 1

/-- `incSeqNum`, which wraps at `EM_MAX_SEQNUM`. -/
def incSeqNum (seqNum : Int) : Int := if seqNum + 1 > 2000000000 then 0 else seqNum + 1

/-- Blocks of an extent: the row count times the width, as 32-bit unsigned arithmetic. -/
def extentSize (colWidth : Nat) : Nat := u32 (extentRows * colWidth) / blockSize

structure Config where
  filesPerColumnPartition : Nat
  extentsPerSegmentFile : Nat
  dbRootCount : Nat

/-- A logical partition is compared by partition, segment and first DBRoot only, so
a set of them is a set of these triples. -/
abbrev LogicalPartition := Nat × Nat × Nat

def EMEntry.logicalPartition (e : EMEntry) : LogicalPartition :=
  (e.partitionNum, e.segmentNum, e.dbRoots.get 0)

structure ExtentInfo where
  partitionNum : Nat
  segmentNum : Nat
  dbRoot : DBRootsStruct
  hwm : Nat
  newFile : Bool

structure CPMaxMin where
  max : Int
  min : Int
  seqNum : Int

structure CPMaxMinMerge where
  max : Int
  min : Int
  type : ColDataType
  newExtent : Bool

structure BulkUpdateDBRootArg where
  startLBID : Int
  dbRoot : DBRootsStruct

structure CreateStripeColumnExtentsArgIn where
  oid : Int
  width : Nat
  colDataType : ColDataType

/-- The exceptions the tables throw. -/
inductive BrmExcept where
  | runtimeError
  | logicError
  | invalidArgument
  | errPartitionNotExist
  | errPartitionAlreadyDisabled
  | errPartitionAlreadyEnabled
  | warnNoPartitionPerformed
  | vbbmBufferOverFlow
  deriving DecidableEq

namespace DBRootsStruct

variable (d : DBRootsStruct)

lemma get_set {i : Nat} (bound : i < 4) (dbr j : Nat) :
    (d.set i dbr).get j = if j = i then dbr else d.get j := by
  by_cases he : j = i
  · subst he
    simp [get, set, bound]
  · by_cases hi : j < 4
    · simp [get, set, hi, he]
    · simp [get, hi, he]

lemma closeGap_clears {fuel j : Nat} (room : j + fuel = 3) (hu : d.get j ≠ 0) :
    ∃ m, j ≤ m ∧ d.get m ≠ 0 ∧ (closeGap fuel j d).get m = 0 := by
  induction fuel generalizing j d with
  | zero => exact ⟨j, le_rfl, hu, by simp [closeGap, get_set d (show j < 4 by omega)]⟩
  | succ fuel ih =>
    by_cases next : d.get (j + 1) = 0
    · exact ⟨j, le_rfl, hu, by simp [closeGap, next, get_set d (show j < 4 by omega)]⟩
    have hshi := get_set d (show j < 4 by omega) (d.get (j + 1))
    obtain ⟨m, above, hb, ha⟩ :=
      ih (j := j + 1) (d.set j (d.get (j + 1))) (by omega) (by simpa [hshi] using next)
    have ho : m ≠ j := by omega
    exact ⟨m, by omega, by simpa [hshi, ho] using hb, by simpa [closeGap, next] using ha⟩

lemma findFrom_eq_some {d : DBRootsStruct} {dbr fuel n m : Nat}
    (hf : d.findFrom dbr fuel n = some m) : n ≤ m ∧ m < n + fuel ∧ d.get m ≠ 0 := by
  induction fuel generalizing n with
  | zero => simp [findFrom] at hf
  | succ fuel ih =>
    simp only [findFrom] at hf
    split at hf
    · simp at hf
    split at hf
    · rename_i hu _
      obtain rfl : n = m := by simpa using hf
      exact ⟨le_rfl, by omega, hu⟩
    · have later := ih hf
      omega

lemma remove_eq_self_iff (dbr : Nat) : d.remove dbr = d ↔ d.getDbrIndex dbr = none := by
  constructor
  · intro fixed
    cases hf : d.getDbrIndex dbr with
    | none => rfl
    | some n =>
      obtain ⟨_, bound, hu⟩ := findFrom_eq_some hf
      obtain ⟨m, _, hb, ha⟩ := closeGap_clears d (show n + (3 - n) = 3 by omega) hu
      simp only [remove, hf] at fixed
      exact absurd (fixed ▸ ha) hb
  · intro missing
    simp [remove, missing]

end DBRootsStruct

end BrmTypes
