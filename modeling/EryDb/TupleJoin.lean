import Mathlib.Data.BitVec

/-!
# Hash join on one integer column

`TupleJoiner` keeps the small side of a join in a hash table under 64-bit keys and looks up the
key of each large-side row. Keys are widened on both sides; NULL on the small side is stored
under one key of its own, and a large-side row whose key has the sign bit set is not looked up
when one side is signed and the other is not. Rows with a string table are read by a path of
their own, which widens every key as a signed one.
-/

namespace TupleJoin

open List

inductive IntType where
  | tinyint | smallint | medint | int | bigint
  | utinyint | usmallint | umedint | uint | ubigint
  deriving DecidableEq

namespace IntType

def isUnsigned : IntType → Bool
  | tinyint | smallint | medint | int | bigint => false
  | utinyint | usmallint | umedint | uint | ubigint => true

def bits : IntType → Nat
  | tinyint | utinyint => 8
  | smallint | usmallint => 16
  | medint | int | umedint | uint => 32
  | bigint | ubigint => 64

/-- The field content that stands for NULL. -/
def nullValue : (t : IntType) → BitVec t.bits
  | tinyint => 0x80#8
  | smallint => 0x8000#16
  | medint | int => 0x80000000#32
  | bigint => 0x8000000000000000#64
  | utinyint => 0xFE#8
  | usmallint => 0xFFFE#16
  | umedint | uint => 0xFFFFFFFE#32
  | ubigint => 0xFFFFFFFFFFFFFFFE#64

def getSignedNullValue (t : IntType) : BitVec 64 := t.nullValue.signExtend 64

end IntType

/-- A row: the field of the join column, and the rest. -/
structure Row (t : IntType) (P : Type) where
  key : BitVec t.bits
  rest : P

namespace Row

variable {t : IntType} {P : Type}

def isNullValue (r : Row t P) : Bool := r.key == t.nullValue
def getUintField (r : Row t P) : BitVec 64 := r.key.setWidth 64
def getIntField (r : Row t P) : BitVec 64 := r.key.signExtend 64

/-- The number the field stands for. -/
def value (r : Row t P) : Int := if t.isUnsigned then r.key.toNat else r.key.toInt

end Row

structure JoinType where
  largeOuter : Bool
  anti : Bool
  matchNulls : Bool

def JoinType.inner : JoinType := ⟨false, false, false⟩

/-- The table is `h`, or `sth` if the small side has a string table. -/
structure TupleJoiner (small large : IntType) (P : Type) where
  joinType : JoinType
  usesStringTable : Bool
  smallNullRow : Row small P
  table : List (BitVec 64 × Row small P)

def getJoinNullValue : BitVec 64 := 0x8000000000000000#64

section Code

variable {small large : IntType} {P Q : Type}

variable (usesStringTable : Bool)

/-- How the join column is read on either side. -/
def wideKey {t : IntType} (r : Row t P) : BitVec 64 :=
  if !usesStringTable then if t.isUnsigned then r.getUintField else r.getIntField
  else r.getIntField

def smallKey (r : Row small P) : BitVec 64 := wideKey usesStringTable r

def storedKey (r : Row small P) : BitVec 64 :=
  if smallKey usesStringTable r = small.getSignedNullValue then getJoinNullValue
  else smallKey usesStringTable r

def largeKey (r : Row large Q) : BitVec 64 := wideKey usesStringTable r

def bSignedUnsignedJoin (small large : IntType) : Bool := small.isUnsigned != large.isUnsigned

def hasNullJoinColumn (small : IntType) (r : Row large Q) : Bool :=
  if r.isNullValue then true
  else if bSignedUnsignedJoin small large then
    (if large.isUnsigned then r.getUintField else r.getIntField) &&& 0x8000000000000000#64 != 0#64
  else false

namespace TupleJoiner

def insert (j : TupleJoiner small large P) (r : Row small P) : TupleJoiner small large P :=
  { j with table := j.table ++ [(storedKey j.usesStringTable r, r)] }

def equalRange (j : TupleJoiner small large P) (key : BitVec 64) : List (Row small P) :=
  (j.table.filter fun entry => entry.1 == key).map Prod.snd

/-- `match` for a join on the user module. -/
def matchRow (j : TupleJoiner small large P) (largeSideRow : Row large Q) : List (Row small P) :=
  let isNull := hasNullJoinColumn small largeSideRow
  let found := j.equalRange (largeKey j.usesStringTable largeSideRow)
  if !isNull ∧ found.isEmpty ∧ ¬ (j.joinType.largeOuter ∨ j.joinType.matchNulls) then []
  else
    let matches' := if isNull then [] else found
    let matches' := if j.joinType.largeOuter ∧ matches'.isEmpty then [j.smallNullRow] else matches'
    let matches' :=
      if j.joinType.matchNulls ∧ !isNull then matches' ++ j.equalRange getJoinNullValue
      else matches'
    if isNull ∧ j.joinType.anti ∧ j.joinType.matchNulls then matches' ++ j.table.map Prod.snd
    else matches'

end TupleJoiner

/-- An inner join on the user module after the small side has been inserted. -/
def joined (smallNullRow : Row small P) (rows : List (Row small P)) : TupleJoiner small large P :=
  rows.foldl TupleJoiner.insert ⟨.inner, usesStringTable, smallNullRow, []⟩

end Code

section Readings

variable {t : IntType} {P : Type}

lemma bits_facts (t : IntType) : t.bits ≤ 64 ∧ 2 ^ t.bits = 2 * 2 ^ (t.bits - 1) ∧
    128 ≤ 2 ^ (t.bits - 1) ∧
      (t.bits = 64 ∧ 2 ^ t.bits = 2 ^ 64 ∨ t.bits ≠ 64 ∧ 2 ^ t.bits ≤ 2 ^ 32) := by
  cases t <;> decide

lemma toNat_nullValue (t : IntType) :
    t.nullValue.toNat = if t.isUnsigned then 2 ^ t.bits - 2 else 2 ^ (t.bits - 1) := by
  cases t <;> rfl

lemma toInt_nullKey (t : IntType) :
    t.getSignedNullValue.toInt =
      if t.isUnsigned then -2 else -((2 ^ (t.bits - 1) : Nat) : Int) := by
  cases t <;> rfl

lemma isNullValue_iff (r : Row t P) : r.isNullValue = true ↔
    r.key.toNat = if t.isUnsigned then 2 ^ t.bits - 2 else 2 ^ (t.bits - 1) := by
  rw [Row.isNullValue, beq_iff_eq, ← BitVec.toNat_inj, toNat_nullValue]

lemma toInt_getIntField (r : Row t P) : r.getIntField.toInt = r.key.toInt :=
  BitVec.toInt_signExtend_of_le (bits_facts t).1

lemma toInt_getUintField (r : Row t P) : r.getUintField.toInt =
    if 2 * r.key.toNat < 2 ^ 64 then (r.key.toNat : Int) else r.key.toNat - (2 ^ 64 : Nat) := by
  have hl : r.key.toNat < 2 ^ 64 :=
    Nat.lt_of_lt_of_le r.key.isLt (Nat.pow_le_pow_right (by decide) (bits_facts t).1)
  rw [Row.getUintField, BitVec.toInt_eq_toNat_cond, BitVec.toNat_setWidth, Nat.mod_eq_of_lt hl]

lemma toInt_wideKey (usesStringTable : Bool) (r : Row t P) : (wideKey usesStringTable r).toInt =
      if usesStringTable = false ∧ t.isUnsigned = true then r.getUintField.toInt
      else r.key.toInt := by
  rw [wideKey]
  cases usesStringTable <;> cases t.isUnsigned <;> simp [toInt_getIntField]

lemma signBit (k : BitVec 64) : (k &&& 0x8000000000000000#64 != 0#64) = decide (k.toInt < 0) := by
  have mask : 0x8000000000000000#64 = BitVec.twoPow 64 63 := rfl
  have top : k.msb = k.getLsbD 63 := BitVec.msb_eq_getLsbD_last k
  rw [mask, BitVec.and_twoPow, ← BitVec.msb_eq_toInt, top]
  cases k.getLsbD 63 <;> decide

end Readings

section Matches

variable {small large : IntType} {P Q : Type}

variable (usesStringTable : Bool)

lemma joined_eq (none : Row small P) (rows : List (Row small P)) :
    (joined usesStringTable none rows : TupleJoiner small large P) =
      ⟨.inner, usesStringTable, none, rows.map fun r => (storedKey usesStringTable r, r)⟩ := by
  have run : ∀ (rows : List (Row small P)) (table : List (BitVec 64 × Row small P)),
      rows.foldl TupleJoiner.insert (⟨.inner, usesStringTable, none, table⟩ :
        TupleJoiner small large P) = ⟨.inner, usesStringTable, none,
          table ++ rows.map fun r => (storedKey usesStringTable r, r)⟩ := by
    intro rows
    induction rows with
    | nil => simp
    | cons r rows ih =>
      intro table
      rw [foldl_cons, TupleJoiner.insert, ih, map_cons, append_assoc]
      rfl
  exact run rows []

/-- The rows an inner join returns. -/
lemma matchRow_joined (none : Row small P) (rows : List (Row small P)) (l : Row large Q) :
    (joined usesStringTable none rows : TupleJoiner small large P).matchRow l =
      rows.filter fun s => !hasNullJoinColumn small l &&
        storedKey usesStringTable s == largeKey usesStringTable l := by
  rw [joined_eq]
  simp only [TupleJoiner.matchRow, JoinType.inner, TupleJoiner.equalRange]
  cases hasNullJoinColumn small l with
  | true => simp
  | false =>
    simp only [filter_map, map_map, Function.comp_def, map_id', Bool.not_false, Bool.true_and]
    split
    · rename_i hem
      exact (isEmpty_iff.mp hem.2.1).symm
    · simp

/-- The field does not have the sign bit of an unsigned type set. -/
def LowHalf {t : IntType} (r : Row t P) : Prop := t.isUnsigned = false ∨ 0 ≤ r.key.toInt

/-- When a pair of rows is treated as its keys say. A NULL of an unsigned small column must not
meet the value it is stored under; with a string table the signed readings of the fields, which
are what is compared, must tell the same as their values. -/
def Agrees (usesStringTable : Bool) (s : Row small P) (l : Row large Q) : Prop :=
  if s.isNullValue then
    small.isUnsigned = true → l.value ≠
      if usesStringTable = true ∨ small.bits = 64 then 2 ^ 63
      else ((2 ^ small.bits : Nat) : Int) - 2
  else
    usesStringTable = false ∨ LowHalf s ∧ LowHalf l ∨
      small.isUnsigned = large.isUnsigned ∧ small.bits = large.bits ∨
      small.isUnsigned ≠ large.isUnsigned ∧ (l.value < 0 ∨ 2 ^ 63 ≤ l.value) ∨
      s.value ≠ l.value ∧ s.key.toInt ≠ l.key.toInt

variable (s : Row small P)

lemma toInt_storedKey : (storedKey usesStringTable s).toInt =
      if (smallKey usesStringTable s).toInt = small.getSignedNullValue.toInt then -2 ^ 63
      else (smallKey usesStringTable s).toInt := by
  rw [storedKey]
  simp only [BitVec.toInt_inj]
  split <;> rfl

lemma hasNullJoinColumn_eq {l : Row large Q} (hk : l.isNullValue = false) :
    hasNullJoinColumn small l = true ↔ small.isUnsigned ≠ large.isUnsigned ∧
      (if large.isUnsigned then l.getUintField.toInt else l.getIntField.toInt) < 0 := by
  rw [hasNullJoinColumn, hk, bSignedUnsignedJoin]
  cases small.isUnsigned <;> cases large.isUnsigned <;> simp [signBit]

section Arithmetic

/- `n` and `i` are the unsigned and the signed reading of a field with `W = 2 * H` contents, and
`U` is the reading of the field widened without its sign. -/
variable {u u' : Bool} {bits bits' n n' W W' H H' : Nat} {i i' U U' : Int}
  (half : W = 2 * H) (half' : W' = 2 * H') (wideEnough : 128 ≤ H) (wideEnough' : 128 ≤ H')
  (width : bits = 64 ∧ W = 2 ^ 64 ∨ bits ≠ 64 ∧ W ≤ 2 ^ 32)
  (width' : bits' = 64 ∧ W' = 2 ^ 64 ∨ bits' ≠ 64 ∧ W' ≤ 2 ^ 32)
  (below : n < W) (below' : n' < W') (signed : i = if 2 * n < W then (n : Int) else n - W)
  (signed' : i' = if 2 * n' < W' then (n' : Int) else n' - W')
  (wide : U = if 2 * n < 2 ^ 64 then (n : Int) else n - 2 ^ 64)
  (wide' : U' = if 2 * n' < 2 ^ 64 then (n' : Int) else n' - 2 ^ 64)
  (present' : ¬ n' = if u' then W' - 2 else H')

include half half' wideEnough wideEnough' width width' below below' signed signed' wide wide'
  present'

omit below in
/-- A NULL is stored under a key that only one value has. -/
lemma null_treated (st : Bool) (null : n = if u then W - 2 else H) :
    ¬ (¬ (u ≠ u' ∧ (if u' then U' else i') < 0) ∧
        (if (if st = false ∧ u = true then U else i) = (if u then -2 else -(H : Int)) then -2 ^ 63
          else if st = false ∧ u = true then U else i) =
        if st = false ∧ u' = true then U' else i') ↔
      (u = true → (if u' then (n' : Int) else i') ≠
        if st = true ∨ bits = 64 then 2 ^ 63 else (W : Int) - 2) := by
  cases u <;> cases u' <;> cases st <;> simp at * <;> omega

/-- Without a string table other keys are compared by value. -/
lemma plain_treated (proper : ¬ n = if u then W - 2 else H) :
    (¬ (u ≠ u' ∧ (if u' then U' else i') < 0) ∧
        (if (if u = true then U else i) = (if u then -2 else -(H : Int)) then -2 ^ 63
          else if u = true then U else i) = if u' = true then U' else i') ↔
      (if u then (n : Int) else i) = if u' then (n' : Int) else i' := by
  have direct : ¬ (if u = true then U else i) = (if u then -2 else -(H : Int)) := by
    clear signed' wide' width' present' below' half'
    cases u <;> simp at * <;> omega
  rw [if_neg direct]
  clear direct
  (cases u <;> [clear wide; clear signed]) <;> (cases u' <;> [clear wide'; clear signed']) <;>
    simp at * <;> omega

omit wide in
/-- With a string table they are compared by the signed readings. -/
lemma table_treated (proper : ¬ n = if u then W - 2 else H) (sameWidth : bits = bits' ↔ W = W') :
    ((¬ (u ≠ u' ∧ (if u' then U' else i') < 0) ∧
        (if i = (if u then -2 else -(H : Int)) then -2 ^ 63 else i) = i') ↔
      (if u then (n : Int) else i) = if u' then (n' : Int) else i') ↔
    (u = false ∨ 0 ≤ i) ∧ (u' = false ∨ 0 ≤ i') ∨ u = u' ∧ bits = bits' ∨
      u ≠ u' ∧ ((if u' then (n' : Int) else i') < 0 ∨ 2 ^ 63 ≤ if u' then (n' : Int) else i') ∨
      (if u then (n : Int) else i) ≠ (if u' then (n' : Int) else i') ∧ i ≠ i' := by
  have direct : ¬ i = (if u then -2 else -(H : Int)) := by
    clear signed' wide' width' present' below' half'
    cases u <;> simp at * <;> omega
  rw [if_neg direct]
  clear direct
  (cases u' <;> [clear wide'; skip]) <;> (cases u <;> [skip; try clear wide']) <;>
    simp at * <;> omega

end Arithmetic

/-- A pair of rows is treated as its keys say exactly if `Agrees` says so. -/
lemma treated_iff {l : Row large Q} (hk : l.isNullValue = false) :
    (hasNullJoinColumn small l = false ∧ storedKey usesStringTable s = largeKey usesStringTable l ↔
      s.isNullValue = false ∧ s.value = l.value) ↔ Agrees usesStringTable s l := by
  have proper : ¬ l.isNullValue = true := by rw [hk]; decide
  rw [isNullValue_iff] at proper
  have null := isNullValue_iff s
  have sameWidth : small.bits = large.bits ↔ 2 ^ small.bits = 2 ^ large.bits :=
    (Nat.pow_right_injective (le_refl 2)).eq_iff.symm
  obtain ⟨-, half, hen, width⟩ := bits_facts small
  obtain ⟨-, half', hen', width'⟩ := bits_facts large
  have signed := BitVec.toInt_eq_toNat_cond s.key
  have signed' := BitVec.toInt_eq_toNat_cond l.key
  rw [← BitVec.toInt_inj, toInt_storedKey, toInt_nullKey, ← Bool.not_eq_true,
    hasNullJoinColumn_eq hk, Agrees, LowHalf, LowHalf, smallKey, largeKey, toInt_wideKey,
    toInt_wideKey, toInt_getIntField]
  simp only [Row.value]
  by_cases isNull : s.isNullValue = true
  · have treated := null_treated half half' hen hen' width width' l.key.isLt signed signed'
      (toInt_getUintField s) (toInt_getUintField l) proper usesStringTable (null.mp isNull)
    rw [if_pos isNull, ← treated]
    simp [isNull]
  have given : s.isNullValue = false := Bool.eq_false_iff.mpr isNull
  rw [if_neg isNull]
  simp only [given, true_and]
  cases usesStringTable with
  | false =>
    have treated := plain_treated half half' hen hen' width width' s.key.isLt l.key.isLt
      signed signed' (toInt_getUintField s) (toInt_getUintField l) proper
      (fun he => isNull (null.mpr he))
    simpa using treated
  | true =>
    have treated := table_treated half half' hen hen' width width' s.key.isLt l.key.isLt
      signed signed' (toInt_getUintField l) proper (fun he => isNull (null.mpr he))
      sameWidth
    simpa using treated

lemma filter_perm_iff {α : Type} {p q : α → Bool} {rows : List α} :
    (rows.filter p).Perm (rows.filter q) ↔ ∀ s ∈ rows, p s = true ↔ q s = true := by
  constructor
  · intro perm s mem
    have both := perm.mem_iff (a := s)
    simpa [mem] using both
  · intro he
    rw [filter_congr fun s mem => Bool.eq_iff_iff.mpr (he s mem)]

/-- The rows returned are those whose key is not NULL and equals the key of the large-side row
exactly if every pair is treated as its keys say. -/
theorem join_matches (usesStringTable : Bool) (smallNullRow : Row small P)
    (rows : List (Row small P)) (l : Row large Q) :
    ((joined usesStringTable smallNullRow rows : TupleJoiner small large P).matchRow l).Perm
        (if l.isNullValue then []
          else rows.filter fun s => !s.isNullValue && decide (s.value = l.value)) ↔
      l.isNullValue = true ∨ ∀ s ∈ rows, Agrees usesStringTable s l := by
  rw [matchRow_joined]
  cases known : l.isNullValue with
  | true =>
    have skipped : hasNullJoinColumn small l = true := by rw [hasNullJoinColumn, if_pos known]
    simp [skipped]
  | false =>
    simp only [Bool.false_eq_true, if_false, false_or]
    rw [filter_perm_iff]
    refine forall_congr' fun s => imp_congr_right fun _ => ?_
    rw [← treated_iff usesStringTable s known]
    simp

end Matches

/-- A NULL of a narrow unsigned column matches the number its marker reads as; the NULLs of
UBIGINT match `2 ^ 63`; and rows with a string table lose a match of different widths and match
a negative number with an unsigned one. -/
theorem join_mismatches : (joined false (⟨0, ()⟩ : Row .utinyint Unit) [⟨0xFE#8, ()⟩] :
        TupleJoiner .utinyint .smallint Unit).matchRow (⟨254#16, ()⟩ : Row .smallint Unit) =
      [⟨0xFE#8, ()⟩] ∧
    (joined false (⟨0, ()⟩ : Row .ubigint Unit) [⟨0xFFFFFFFFFFFFFFFE#64, ()⟩] :
        TupleJoiner .ubigint .ubigint Unit).matchRow
          (⟨0x8000000000000000#64, ()⟩ : Row .ubigint Unit) = [⟨0xFFFFFFFFFFFFFFFE#64, ()⟩] ∧
    (joined true (⟨0, ()⟩ : Row .utinyint Unit) [⟨200#8, ()⟩] :
        TupleJoiner .utinyint .smallint Unit).matchRow (⟨200#16, ()⟩ : Row .smallint Unit) = [] ∧
    (joined true (⟨0, ()⟩ : Row .smallint Unit) [⟨-56#16, ()⟩] :
        TupleJoiner .smallint .utinyint Unit).matchRow (⟨200#8, ()⟩ : Row .utinyint Unit) =
      [⟨-56#16, ()⟩] := by
  refine ⟨rfl, rfl, rfl, rfl⟩

end TupleJoin
