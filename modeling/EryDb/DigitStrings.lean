import Mathlib.Algebra.Order.Ring.Int
import Mathlib.Data.List.TakeWhile
import Mathlib.Tactic.Ring

/-!
# Strings of decimal digits

The number a string of digits stands for, and the conversions of the C library that read one
from the start of a string. A string is the list of the characters before its terminator.
A conversion answers the value, the rest of the string and whether it was out of range; without
any digit it converts nothing and the rest is the whole string.
-/

namespace DigitStrings

open List

def isspace (c : Char) : Bool :=
  c = ' ' || c = '\t' || c = '\n' || c = '\r' || c = '\x0b' || c = '\x0c'

/-- Printable, and neither a letter nor a digit nor a blank. -/
def ispunct (c : Char) : Bool :=
  decide (33 ≤ c.toNat ∧ c.toNat ≤ 126) && !c.isAlphanum

def digit (c : Char) : Nat := c.toNat - 48

def number (ds : List Char) : Nat := ds.foldl (fun n c => n * 10 + digit c) 0

def Digits (ds : List Char) : Prop := ∀ c ∈ ds, c.isDigit = true

section Numbers

variable {c : Char} {ds es : List Char}

lemma Digits.nil : Digits [] := fun _ none => absurd none not_mem_nil

lemma digits_cons : Digits (c :: ds) ↔ c.isDigit = true ∧ Digits ds := forall_mem_cons

lemma digits_append : Digits (ds ++ es) ↔ Digits ds ∧ Digits es := forall_mem_append

lemma Digits.sublist (digits : Digits es) (sub : ds.Sublist es) : Digits ds :=
  fun c hi => digits c (sub.subset hi)

variable (n : Nat)

lemma digits_replicate : Digits (List.replicate n '0') := by
  intro c hi
  rw [eq_of_mem_replicate hi]
  rfl

lemma isDigit_iff : c.isDigit = true ↔ 48 ≤ c.toNat ∧ c.toNat ≤ 57 := by
  simp only [Char.isDigit, Bool.and_eq_true, decide_eq_true_eq, UInt32.le_iff_toNat_le, ge_iff_le]
  rfl

lemma digit_lt (hdig : c.isDigit = true) : digit c < 10 := by
  have range := isDigit_iff.mp hdig
  rw [digit]
  omega

lemma foldl_number : ds.foldl (fun n c => n * 10 + digit c) n =
    n * 10 ^ ds.length + number ds := by
  induction ds generalizing n with
  | nil => simp [number]
  | cons c ds ih =>
    rw [number, foldl_cons, foldl_cons, ih, ih (0 * 10 + digit c), length_cons, pow_succ]
    ring

@[simp] lemma number_nil : number [] = 0 := rfl

lemma number_append : number (ds ++ es) = number ds * 10 ^ es.length + number es := by
  rw [number, foldl_append, foldl_number]
  rfl

lemma number_cons : number (c :: ds) = digit c * 10 ^ ds.length + number ds := by
  rw [number, foldl_cons, foldl_number]
  ring

lemma number_snoc : number (ds ++ [c]) = number ds * 10 + digit c := by
  rw [number, foldl_append]
  rfl

lemma number_replicate : number (List.replicate n '0') = 0 := by
  induction n with
  | zero => rfl
  | succ n ih =>
    have zero : digit '0' = 0 := rfl
    rw [replicate_succ, number_cons, ih, zero, Nat.zero_mul]

lemma number_zeros : number (ds ++ List.replicate n '0') = number ds * 10 ^ n := by
  rw [number_append, number_replicate, length_replicate, Nat.add_zero]

lemma number_lt (digits : Digits ds) : number ds < 10 ^ ds.length := by
  induction ds with
  | nil => decide
  | cons c ds ih =>
    obtain ⟨hdig, rest⟩ := digits_cons.mp digits
    have first := digit_lt hdig
    have hsm := ih rest
    rw [number_cons, length_cons, pow_succ]
    calc digit c * 10 ^ ds.length + number ds
        < digit c * 10 ^ ds.length + 10 ^ ds.length := by omega
      _ = (digit c + 1) * 10 ^ ds.length := by ring
      _ ≤ 10 * 10 ^ ds.length := Nat.mul_le_mul_right _ (by omega)
      _ = 10 ^ ds.length * 10 := by ring

lemma digits_toDigits : Digits (Nat.toDigits 10 n) :=
  fun _ hi => Nat.isDigit_of_mem_toDigits (by decide) (by decide) hi

lemma digit_digitChar {d : Nat} (hsm : d < 10) : digit d.digitChar = d := by
  rw [digit, Nat.toNat_digitChar_of_lt_ten hsm]
  omega

lemma number_toDigits : number (Nat.toDigits 10 n) = n := by
  induction n using Nat.strongRecOn with
  | ind n ih =>
    by_cases hsm : n < 10
    · rw [Nat.toDigits_of_lt_base hsm, number_cons, digit_digitChar hsm]
      simp
    · have digits := Nat.toDigits_of_base_le (by decide) (Nat.not_lt.mp hsm)
      rw [digits, number_snoc, ih (n / 10) (by omega), digit_digitChar (by omega)]
      omega

/-- The digits of a positive number do not start with zeros. -/
lemma number_leading_pos {n : Nat} (hp : 0 < n) (hne : ds ≠ [])
    (text : Nat.toDigits 10 n = ds ++ es) : 0 < number ds := by
  by_contra zero
  have value : n = number es := by
    rw [← number_toDigits n, text, number_append, Nat.eq_zero_of_not_pos zero]
    omega
  have hsm : n < 10 ^ es.length := by
    rw [value]
    exact number_lt (digits_append.mp (text ▸ digits_toDigits n)).2
  have hbe : 0 < es.length := by
    by_contra none
    rw [Nat.eq_zero_of_not_pos none] at hsm
    omega
  have short := (Nat.length_toDigits_le_iff (by decide) hbe).mpr hsm
  have long := length_pos_iff.mpr hne
  rw [text, length_append] at short
  omega

end Numbers

section Conversions

structure Conversion where
  value : Int
  rest : List Char
  outOfRange : Bool

/-- A sign and what follows it. -/
def signed : List Char → Bool × List Char
  | '-' :: rest => (true, rest)
  | '+' :: rest => (false, rest)
  | rest => (false, rest)

def limited (lo hi n : Int) (rest : List Char) : Conversion :=
  if n < lo then ⟨lo, rest, true⟩ else if hi < n then ⟨hi, rest, true⟩ else ⟨n, rest, false⟩

def strtoll (s : List Char) : Conversion :=
  let (negative, t) := signed (s.dropWhile isspace)
  let ds := t.takeWhile Char.isDigit
  if ds = [] then ⟨0, s, false⟩
  else limited (-2 ^ 63) (2 ^ 63 - 1) (if negative then -(number ds : Int) else number ds)
    (t.dropWhile Char.isDigit)

/-- A minus sign negates modulo 2 to the 64. -/
def strtoull (s : List Char) : Conversion :=
  let (negative, t) := signed (s.dropWhile isspace)
  let ds := t.takeWhile Char.isDigit
  let rest := t.dropWhile Char.isDigit
  if ds = [] then ⟨0, s, false⟩
  else if 2 ^ 64 ≤ number ds then ⟨2 ^ 64 - 1, rest, true⟩
  else ⟨if negative then (2 ^ 64 - number ds : Int) % 2 ^ 64 else number ds, rest, false⟩

inductive Sign where
  | none
  | plus
  | minus
  deriving DecidableEq

def Sign.chars : Sign → List Char
  | .none => []
  | .plus => ['+']
  | .minus => ['-']

def Sign.apply (sign : Sign) (n : Int) : Int := if sign = .minus then -n else n

variable {ds : List Char}

lemma takeWhile_digits (digits : Digits ds) (rest : List Char)
    (stops : ∀ c ∈ rest.head?, c.isDigit = false) :
    (ds ++ rest).takeWhile Char.isDigit = ds ∧ (ds ++ rest).dropWhile Char.isDigit = rest := by
  have hwh : ∀ c ∈ ds, c.isDigit = true := digits
  rw [takeWhile_append_of_pos hwh, dropWhile_append_of_pos hwh]
  cases rest with
  | nil => simp
  | cons c rest =>
    have stop : c.isDigit = false := stops c rfl
    rw [takeWhile_cons_of_neg (by simp [stop]), dropWhile_cons_of_neg (by simp [stop])]
    simp

lemma isspace_of_digit {c : Char} (hdig : c.isDigit = true) : isspace c = false := by
  have range := isDigit_iff.mp hdig
  simp only [isspace, Bool.or_eq_false_iff, decide_eq_false_iff_not]
  refine ⟨⟨⟨⟨⟨?_, ?_⟩, ?_⟩, ?_⟩, ?_⟩, ?_⟩ <;> rintro rfl <;> exact absurd range (by decide)

lemma signed_of_digit {c : Char} (hdig : c.isDigit = true) (ds : List Char) :
    signed (c :: ds) = (false, c :: ds) := by
  unfold signed
  split
  case h_1 he | h_2 he =>
    rw [(List.cons.inj he).1] at hdig
    exact absurd hdig (by decide)
  · rfl

lemma signed_chars (sign : Sign) (digits : Digits ds) (some : ds ≠ []) :
    signed ((sign.chars ++ ds).dropWhile isspace) = (decide (sign = .minus), ds) := by
  cases sign with
  | none =>
    obtain ⟨c, rest, rfl⟩ := exists_cons_of_ne_nil some
    have hdig := (digits_cons.mp digits).1
    rw [Sign.chars, nil_append, dropWhile_cons_of_neg (by simp [isspace_of_digit hdig]),
      signed_of_digit hdig]
    rfl
  | plus => rfl
  | minus => rfl

lemma strtoll_digits (sign : Sign) (digits : Digits ds) (some : ds ≠ []) :
    strtoll (sign.chars ++ ds) = limited (-2 ^ 63) (2 ^ 63 - 1) (sign.apply (number ds)) [] := by
  have hwh := takeWhile_digits digits [] (by simp)
  rw [append_nil] at hwh
  rw [strtoll, signed_chars sign digits some]
  simp only [hwh.1, hwh.2, if_neg some, Sign.apply, decide_eq_true_eq]

lemma strtoll_bare (sign : Sign) : strtoll sign.chars = ⟨0, sign.chars, false⟩ := by
  cases sign <;> rfl

end Conversions

end DigitStrings
