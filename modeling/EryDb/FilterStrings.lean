import EryDb.ColumnTypes

/-!
# The filters of a column as they travel

A scan request carries its filters as one byte string: for each filter the operator,
a rounding flag and the operand in the width of the column. The planner walks the
string with a cursor, the scan computes the offset of each filter.
-/

namespace FilterStrings

open BrmTypes ColumnTypes LittleEndian

inductive CompareOp where
  | nil | lt | eq | le | gt | ne | ge | nlt | nle | ngt | nge | like | nlike
  deriving DecidableEq

def CompareOp.code : CompareOp → Byte
  | .nil => 0x00
  | .lt => 0x01
  | .eq => 0x02
  | .le => 0x03
  | .gt => 0x04
  | .ne => 0x05
  | .ge => 0x06
  | .nlt => 0x09
  | .nle => 0x0b
  | .ngt => 0x0c
  | .nge => 0x0e
  | .like => 0x10
  | .nlike => 0x18

def CompareOp.all : List CompareOp :=
  [.nil, .lt, .eq, .le, .gt, .ne, .ge, .nlt, .nle, .ngt, .nge, .like, .nlike]

/-- The operator a byte stands for, if any. -/
def CompareOp.ofByte (b : Byte) : Option CompareOp := CompareOp.all.find? (fun op => op.code = b)

@[simp] lemma CompareOp.ofByte_code (op : CompareOp) : CompareOp.ofByte op.code = some op := by
  cases op <;> rfl

/-- The operators a filter may have besides `LIKE`. -/
def CompareOp.comparisons : List CompareOp := [.lt, .le, .eq, .ge, .gt, .ne]

inductive Bop where
  | none | and | or | xor
  deriving DecidableEq

def roundPos : Byte := 0x01
def roundNeg : Byte := 0x80

/-- One filter of the message, `ColArgs`. -/
structure ColArgs (w : Width) where
  cop : CompareOp
  rf : Byte
  val : Cell w

def ColArgs.bytes {w : Width} (args : ColArgs w) : List Byte :=
  args.cop.code :: args.rf :: write w.bytes args.val.toNat

def filterString {w : Width} (filters : List (ColArgs w)) : List Byte :=
  filters.flatMap ColArgs.bytes

/-- The operand that begins at a cursor. -/
def operandAt (w : Width) (ptr : List Byte) : Cell w := BitVec.ofNat _ (read (ptr.take w.bytes))

variable {w : Width}

@[simp] lemma length_bytes (args : ColArgs w) : args.bytes.length = w.bytes + 2 := by
  simp [ColArgs.bytes]

@[simp] lemma length_filterString (filters : List (ColArgs w)) :
    (filterString filters).length = filters.length * (w.bytes + 2) := by
  induction filters with
  | nil => simp [filterString]
  | cons f filters ih =>
    simp only [filterString, List.flatMap_cons, List.length_append, length_bytes] at ih ⊢
    rw [ih, List.length_cons, Nat.add_mul]
    omega

lemma filterString_cons (f : ColArgs w) (filters : List (ColArgs w)) :
    filterString (f :: filters) = f.bytes ++ filterString filters := by
  simp [filterString]

@[simp] lemma operandAt_write (c : Cell w) (rest : List Byte) :
    operandAt w (write w.bytes c.toNat ++ rest) = c := by
  unfold operandAt
  rw [List.take_left' (length_write _ _), read_write (cell_lt c)]
  simp

end FilterStrings
