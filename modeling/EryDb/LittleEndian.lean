import Mathlib.Data.List.Basic
import Mathlib.Tactic.Ring

/-!
# Numbers as little-endian bytes

A message carries numbers as bytes, the lowest first. `write` lays a number out in a
given number of bytes and `read` puts bytes together again; the two are inverse on
the numbers that fit. A reader that starts at the wrong byte sees a window over two
neighbouring numbers, so the lemmas also say what a window over an append reads.
-/

namespace LittleEndian

abbrev Byte := Fin 256

instance neZero_byte : NeZero 256 := ⟨by decide⟩

def read : List Byte → Nat
  | [] => 0
  | b :: bytes => b + 256 * read bytes

def write : Nat → Nat → List Byte
  | 0, _ => []
  | k + 1, n => ⟨n % 256, Nat.mod_lt _ (by decide)⟩ :: write k (n / 256)

@[simp] lemma length_write (k n : Nat) : (write k n).length = k := by
  induction k generalizing n with
  | zero => rfl
  | succ k ih => rw [write, List.length_cons, ih]

lemma getD_write {k : Nat} (some : 0 < k) (n : Nat) (tail : List Byte) (d : Byte) :
    (write k n ++ tail).getD 0 d = ⟨n % 256, Nat.mod_lt _ (by decide)⟩ := by
  cases k with
  | zero => omega
  | succ k => rfl

lemma read_write {k n : Nat} (fits : n < 256 ^ k) : read (write k n) = n := by
  induction k generalizing n with
  | zero =>
    have : n = 0 := by simpa using fits
    rw [this]
    rfl
  | succ k ih =>
    have rest : n / 256 < 256 ^ k := by
      rw [pow_succ] at fits
      exact Nat.div_lt_of_lt_mul (by omega)
    rw [write, read, ih rest]
    exact Nat.mod_add_div n 256

lemma read_append (front back : List Byte) :
    read (front ++ back) = read front + 256 ^ front.length * read back := by
  induction front with
  | nil => simp [read]
  | cons b front ih =>
    rw [List.cons_append, read, read, ih, List.length_cons, pow_succ]
    ring

lemma read_lt (bytes : List Byte) : read bytes < 256 ^ bytes.length := by
  induction bytes with
  | nil => simp [read]
  | cons b bytes ih =>
    rw [read, List.length_cons, pow_succ]
    have := b.isLt
    omega

lemma read_injective {a b : List Byte} (length : a.length = b.length)
    (he : read a = read b) : a = b := by
  induction a generalizing b with
  | nil => exact (List.length_eq_zero_iff.mp length.symm).symm
  | cons x a ih =>
    rcases b with _ | ⟨y, b⟩
    · simp at length
    rw [read, read] at he
    have := x.isLt
    have := y.isLt
    have first : x = y := Fin.ext (by omega)
    rw [first, ih (by simpa using length) (by omega)]

/-! ## Signed numbers -/

def writeInt (k : Nat) (n : Int) : List Byte := write k (n % 256 ^ k).toNat

def readInt (bytes : List Byte) : Int := Int.bmod (read bytes) (256 ^ bytes.length)

end LittleEndian
