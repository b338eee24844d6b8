import Mathlib.Data.Rat.Floor
import EryDb.DecimalText

/-!
# The value of a decimal text

A decimal text has a sign, digits and perhaps a point with more digits; DML also allows an
exponent. Its value is a rational number, and a column of scale `s` is to store that value
times ten to the `s`, rounded half away from zero. Each stage of the two conversions takes a
text to another one with a known value.
-/

namespace DataConvert

open Option List BrmTypes DigitStrings

/-- The digits behind a point, with the point. -/
def pointed : Option (List Char) → List Char
  | none => []
  | some ds => '.' :: ds

/-- A number with a sign, digits and perhaps a point, and at least one digit. -/
structure Fixed where
  sign : Sign
  ints : List Char
  fraction : Option (List Char)
  intDigits : Digits ints
  fracDigits : Digits (fraction.getD [])
  someDigit : ints ++ fraction.getD [] ≠ []

namespace Fixed

def fracs (f : Fixed) : List Char := f.fraction.getD []

lemma areDigits (f : Fixed) : Digits f.fracs := f.fracDigits

def text (f : Fixed) : List Char := f.sign.chars ++ f.ints ++ pointed f.fraction

def magnitude (f : Fixed) : ℚ := number (f.ints ++ f.fracs) / 10 ^ f.fracs.length

end Fixed

structure Exponent where
  upper : Bool
  sign : Sign
  digits : List Char
  areDigits : Digits digits
  some : digits ≠ []
  short : digits.length ≤ 2

def Exponent.text (e : Exponent) : List Char :=
  (if e.upper then 'E' else 'e') :: (e.sign.chars ++ e.digits)

def Exponent.value (e : Exponent) : Int := e.sign.apply (number e.digits)

/-- A number that may have an exponent. -/
structure Scientific extends Fixed where
  exponent : Option Exponent

namespace Scientific

def text (d : Scientific) : List Char := d.toFixed.text ++ (d.exponent.map Exponent.text).getD []

def power (d : Scientific) : Int := (d.exponent.map Exponent.value).getD 0

def magnitude (d : Scientific) : ℚ := d.toFixed.magnitude * 10 ^ d.power

end Scientific

def Sign.applyRat (sign : Sign) (q : ℚ) : ℚ := if sign = .minus then -q else q

def halfAway (q : ℚ) : Int := if 0 ≤ q then ⌊q + 1 / 2⌋ else -⌊-q + 1 / 2⌋

def clamped (p : Nat) (n : Int) : Int := max (-(10 ^ p - 1)) (min (10 ^ p - 1) n)

/-- The digit that decides the rounding of a fraction. -/
def leading (ds : List Char) : Nat := (ds.head?.map digit).getD 0

def roundsUp (ds : List Char) : Int := if 5 ≤ leading ds then 1 else 0

section Rounding

variable {ds : List Char} {q : ℚ}

lemma halfAway_apply (sign : Sign) (hna : 0 ≤ q) :
    halfAway (Sign.applyRat sign q) = sign.apply ⌊q + 1 / 2⌋ := by
  by_cases minus : sign = .minus
  · rw [Sign.applyRat, if_pos minus, Sign.apply, if_pos minus, halfAway]
    by_cases zero : q = 0
    · rw [zero, neg_zero, if_pos le_rfl]
      norm_num
    · have hp : 0 < q := lt_of_le_of_ne hna (Ne.symm zero)
      rw [if_neg (by linarith), neg_neg]
  · rw [Sign.applyRat, if_neg minus, Sign.apply, if_neg minus, halfAway, if_pos hna]

lemma fraction_lt_one (digits : Digits ds) : (number ds : ℚ) / 10 ^ ds.length < 1 := by
  have hsm : (number ds : ℚ) < 10 ^ ds.length := by exact_mod_cast number_lt digits
  rw [div_lt_one (by positivity)]
  exact hsm

lemma half_le_fraction (digits : Digits ds) :
    1 / 2 ≤ (number ds : ℚ) / 10 ^ ds.length ↔ 5 ≤ leading ds := by
  cases ds with
  | nil => simp [number, leading]
  | cons c ds =>
    obtain ⟨-, rest⟩ := digits_cons.mp digits
    have hsm := number_lt rest
    have lead : leading (c :: ds) = digit c := rfl
    rw [lead, le_div_iff₀ (by positivity), number_cons, length_cons, pow_succ]
    have scaled : (1 / 2 : ℚ) * (10 ^ ds.length * 10) = ((5 * 10 ^ ds.length : Nat) : ℚ) := by
      push_cast
      ring
    rw [scaled, Nat.cast_le]
    constructor
    · intro hen
      by_contra less
      have hl : digit c + 1 ≤ 5 := by omega
      have := Nat.mul_le_mul_right (10 ^ ds.length) hl
      rw [Nat.add_mul, Nat.one_mul] at this
      omega
    · intro hen
      have := Nat.mul_le_mul_right (10 ^ ds.length) hen
      omega

variable (f : Fixed)

lemma Fixed.magnitude_eq :
    f.magnitude = number f.ints + (number f.fracs : ℚ) / 10 ^ f.fracs.length := by
  rw [magnitude, number_append]
  push_cast
  field_simp

lemma Fixed.magnitude_whole {f : Fixed} (hwh : f.fraction = none) :
    f.magnitude = number f.ints := by
  simp [magnitude, fracs, hwh]

lemma Fixed.floor_magnitude : ⌊f.magnitude⌋ = number f.ints := by
  have hl := fraction_lt_one f.areDigits
  have hna : 0 ≤ (number f.fracs : ℚ) / 10 ^ f.fracs.length := by positivity
  rw [f.magnitude_eq, Int.floor_eq_iff]
  push_cast
  constructor
  · linarith
  · exact add_lt_add_right hl _

lemma Fixed.fract_magnitude :
    Int.fract f.magnitude = (number f.fracs : ℚ) / 10 ^ f.fracs.length := by
  rw [Int.fract, f.floor_magnitude, f.magnitude_eq]
  push_cast
  ring

lemma floor_half (n : Nat) (digits : Digits ds) :
    ⌊(n : ℚ) + number ds / 10 ^ ds.length + 1 / 2⌋ = n + roundsUp ds := by
  have hl := fraction_lt_one digits
  have hna : 0 ≤ (number ds : ℚ) / 10 ^ ds.length := by positivity
  have half := half_le_fraction digits
  rw [Int.floor_eq_iff, roundsUp]
  split_ifs with up
  · have hen := half.mpr up
    push_cast
    constructor <;> linarith
  · have less : (number ds : ℚ) / 10 ^ ds.length < 1 / 2 := by
      by_contra hen
      exact up (half.mp (not_lt.mp hen))
    push_cast
    constructor <;> linarith

lemma Fixed.magnitude_nonneg : 0 ≤ f.magnitude := by
  rw [magnitude]
  positivity

/-- The digits before a scale, with zeros where there are none. -/
def padded (ds : List Char) (scale : Nat) : List Char :=
  ds.take scale ++ List.replicate (scale - (ds.take scale).length) '0'

lemma length_padded (ds : List Char) (scale : Nat) : (padded ds scale).length = scale := by
  simp only [padded, length_append, length_take, length_replicate]
  omega

lemma digits_padded (digits : Digits ds) (scale : Nat) : Digits (padded ds scale) :=
  digits_append.mpr ⟨digits.sublist (take_sublist _ _), digits_replicate _⟩

lemma fraction_scaled (ds : List Char) (scale : Nat) :
    (number ds : ℚ) / 10 ^ ds.length * 10 ^ scale =
      number (padded ds scale) + number (ds.drop scale) / 10 ^ (ds.drop scale).length := by
  by_cases short : ds.length ≤ scale
  · have split : (10 : ℚ) ^ scale = 10 ^ (scale - ds.length) * 10 ^ ds.length := by
      rw [← pow_add, Nat.sub_add_cancel short]
    rw [padded, take_of_length_le short, drop_eq_nil_of_le short, number_zeros, split]
    simp only [number_nil]
    push_cast
    field_simp
    ring
  · have cut : (ds.take scale).length = scale := by
      rw [length_take]
      omega
    have length : ds.length = scale + (ds.drop scale).length := by
      rw [length_drop]
      omega
    have parts : number ds =
        number (ds.take scale) * 10 ^ (ds.drop scale).length + number (ds.drop scale) := by
      rw [← number_append, take_append_drop]
    rw [padded, cut, Nat.sub_self, replicate_zero, append_nil, length, pow_add, parts]
    push_cast
    field_simp

lemma Fixed.magnitude_scaled (scale : Nat) :
    f.magnitude * 10 ^ scale = number (f.ints ++ padded f.fracs scale) +
      (number (f.fracs.drop scale) : ℚ) / 10 ^ (f.fracs.drop scale).length := by
  rw [f.magnitude_eq, add_mul, fraction_scaled, number_append, length_padded]
  push_cast
  ring

end Rounding

section Texts

variable {c : Char} {s t : List Char}

lemma find_none (hab : c ∉ s) : find c s = none := by
  rw [find, findIdx?_eq_none_iff]
  intro d hi
  simp only [beq_eq_false_iff_ne]
  rintro rfl
  exact hab hi

lemma find_append (hab : c ∉ s) : find c (s ++ c :: t) = some s.length := by
  rw [find, findIdx?_append]
  have none := find_none hab
  rw [find] at none
  simp [none, findIdx?_cons]

/-- The characters of a sign and of digits are no others. -/
lemma not_mem_signed (sign : Sign) (digits : Digits s) (notDigit : c.isDigit = false)
    (notPlus : c ≠ '+') (notMinus : c ≠ '-') : c ∉ sign.chars ++ s := by
  rw [mem_append, not_or]
  constructor
  · cases sign with
    | none => exact not_mem_nil
    | plus => simpa [Sign.chars] using notPlus
    | minus => simpa [Sign.chars] using notMinus
  · intro hi
    rw [digits c hi] at notDigit
    cases notDigit

namespace Fixed

variable (f : Fixed)

lemma point_not_mem : '.' ∉ f.sign.chars ++ f.ints :=
  not_mem_signed f.sign f.intDigits rfl (by decide) (by decide)

lemma find_point : find '.' f.text = f.fraction.map fun _ => (f.sign.chars ++ f.ints).length := by
  cases frac : f.fraction with
  | none => rw [text, frac, pointed, append_nil, find_none f.point_not_mem]; rfl
  | some ds => rw [text, frac, pointed, find_append f.point_not_mem]; rfl

lemma around_point {f : Fixed} {ds : List Char} (frac : f.fraction = some ds) :
    f.text.take (f.sign.chars ++ f.ints).length = f.sign.chars ++ f.ints ∧
      f.text.drop ((f.sign.chars ++ f.ints).length + 1) = ds := by
  rw [text, take_left, drop_length_add_append, frac]
  exact ⟨rfl, rfl⟩

lemma not_mem_text (notDigit : c.isDigit = false) (notPlus : c ≠ '+') (notMinus : c ≠ '-')
    (notPoint : c ≠ '.') : c ∉ f.text := by
  rw [text, mem_append, not_or]
  refine ⟨not_mem_signed f.sign f.intDigits notDigit notPlus notMinus, ?_⟩
  have digits := f.areDigits
  cases frac : f.fraction with
  | none => exact not_mem_nil
  | some ds =>
    rw [fracs, frac] at digits
    rw [pointed, mem_cons, not_or]
    refine ⟨notPoint, fun hi => ?_⟩
    rw [digits c hi] at notDigit
    cases notDigit

end Fixed

/-- A text for a sign and a magnitude, as a stage leaves it. -/
structure Writes (s : List Char) (sign : Sign) (m : ℚ) (f : Fixed) : Prop where
  text : s = f.text
  sign : f.sign = sign
  magnitude : f.magnitude = m

lemma first_digit (sign : Sign) (digits : Digits s) (some : s ≠ []) :
    (sign.chars ++ s).findIdx? Char.isDigit = .some sign.chars.length := by
  obtain ⟨c, rest, rfl⟩ := exists_cons_of_ne_nil some
  have hdig := (digits_cons.mp digits).1
  cases sign <;> simp [Sign.chars, findIdx?_cons, hdig]

/-- The point is moved in front of the last digits. -/
lemma shiftPoint_digits (sign : Sign) (digits : Digits s) (some : s ≠ []) {m : Nat}
    (hp : 0 < m) : ∃ t f, shiftPoint (sign.chars ++ s) m = .ok t ∧
      Writes t sign (number s / 10 ^ m) f ∧ f.fraction ≠ .some [] := by
  have length : (sign.chars ++ s).length = sign.chars.length + s.length := length_append
  rw [shiftPoint, first_digit sign digits some]
  simp only [length, Nat.add_sub_cancel_left]
  split_ifs
  · -- all the digits are behind the point, after zeros
    let zeros := List.replicate (m - s.length) '0'
    have digits' : Digits (zeros ++ s) := digits_append.mpr ⟨digits_replicate _, digits⟩
    refine ⟨_, ⟨sign, [], .some (zeros ++ s), .nil, digits', ?_⟩, rfl, ⟨?_, rfl, ?_⟩, ?_⟩
    · simp [some]
    · simp [insertAt, Fixed.text, pointed, zeros]
    · have count : (zeros ++ s).length = m := by
        simp only [zeros, length_append, length_replicate]
        omega
      have value : number (zeros ++ s) = number s := by
        rw [number_append, number_replicate, Nat.zero_mul, Nat.zero_add]
      simp [Fixed.magnitude, Fixed.fracs, getD_some, count, value]
    · simp [some]
  · have split : s.take (s.length - m) ++ s.drop (s.length - m) = s := take_append_drop _ _
    have count : (s.drop (s.length - m)).length = m := by
      rw [length_drop]
      omega
    have start : sign.chars.length + s.length - m = sign.chars.length + (s.length - m) := by omega
    refine ⟨_, ⟨sign, s.take (s.length - m), .some (s.drop (s.length - m)),
      digits.sublist (take_sublist _ _), digits.sublist (drop_sublist _ _), ?_⟩, rfl,
      ⟨?_, rfl, ?_⟩, ?_⟩
    · rw [getD_some, split]
      exact some
    · rw [start, insertAt, take_length_add_append, drop_length_add_append]
      simp [Fixed.text, pointed]
    · simp [Fixed.magnitude, Fixed.fracs, getD_some, split, count]
    intro none
    have hem : s.drop (s.length - m) = [] := Option.some.inj none
    rw [hem] at count
    simp at count
    omega

end Texts

section Stages

variable {s : List Char} {c : Char}

lemma limited_value {lo hi : Int} (hord : lo ≤ hi) (n : Int) (rest : List Char) :
    (limited lo hi n rest).value = max lo (min hi n) ∧ (limited lo hi n rest).rest = rest := by
  unfold limited
  split_ifs <;> exact ⟨by simp only; omega, rfl⟩

lemma limited_small {lo hi n : Int} (low : lo ≤ n) (high : n ≤ hi) (rest : List Char) :
    limited lo hi n rest = ⟨n, rest, false⟩ := by
  rw [limited, if_neg (not_lt.mpr low), if_neg (not_lt.mpr high)]

/-- The value of a signed number in 64 bits. -/
def clamp64 (n : Int) : Int := max (-2 ^ 63) (min (2 ^ 63 - 1) n)

variable (sign : Sign)

lemma stringToLl_digits (digits : Digits s) (some : s ≠ []) :
    stringToLl (sign.chars ++ s) = .ok (clamp64 (sign.apply (number s)),
      (limited (-2 ^ 63) (2 ^ 63 - 1) (sign.apply (number s)) []).outOfRange) := by
  obtain ⟨value, rest⟩ := limited_value (show (-2 ^ 63 : Int) ≤ 2 ^ 63 - 1 by decide)
    (sign.apply (number s)) []
  have hwh : sign.chars ++ s ≠ [] := by simp [some]
  rw [stringToLl, strtoll_digits sign digits some]
  simp only [rest]
  rw [if_neg (by simpa using hwh.symm), value]
  rfl

lemma stringToLl_small (digits : Digits s) (some : s ≠ []) (hsm : number s < 2 ^ 63) :
    stringToLl (sign.chars ++ s) = .ok (sign.apply (number s), false) := by
  have bounds : -2 ^ 63 ≤ sign.apply (number s) ∧ sign.apply (number s) ≤ 2 ^ 63 - 1 := by
    unfold Sign.apply
    split <;> omega
  have hwh : sign.chars ++ s ≠ [] := by simp [some]
  rw [stringToLl, strtoll_digits sign digits some, limited_small bounds.1 bounds.2]
  simp only
  rw [if_neg (by simpa using hwh.symm)]

lemma Exponent.small (e : Exponent) : number e.digits < 2 ^ 63 := by
  have hl := number_lt e.areDigits
  have short : 10 ^ e.digits.length ≤ 10 ^ 2 := Nat.pow_le_pow_right (by decide) e.short
  omega

lemma Exponent.read (e : Exponent) : stringToLl (e.sign.chars ++ e.digits) = .ok (e.value, false) :=
  stringToLl_small e.sign e.areDigits e.some e.small

/-- Where the exponent starts. -/
lemma find_exponent (d : Scientific) : ((find 'E' d.text).orElse fun _ => find 'e' d.text) =
      d.exponent.map fun _ => d.toFixed.text.length := by
  have noE : 'E' ∉ d.toFixed.text := d.toFixed.not_mem_text rfl (by decide) (by decide) (by decide)
  have noe : 'e' ∉ d.toFixed.text := d.toFixed.not_mem_text rfl (by decide) (by decide) (by decide)
  cases exponent : d.exponent with
  | none =>
    have text : d.text = d.toFixed.text := by simp [Scientific.text, exponent]
    rw [text, find_none noE, find_none noe]
    rfl
  | some e =>
    have text : d.text = d.toFixed.text ++ e.text := by simp [Scientific.text, exponent]
    rw [text, Exponent.text]
    split_ifs
    · rw [find_append noE]
      rfl
    have later : 'E' ∉ e.sign.chars ++ e.digits :=
      not_mem_signed e.sign e.areDigits rfl (by decide) (by decide)
    have none : 'E' ∉ d.toFixed.text ++ 'e' :: (e.sign.chars ++ e.digits) := by
      rw [mem_append, mem_cons, not_or, not_or]
      exact ⟨noE, by decide, later⟩
    rw [find_none none, find_append noe]
    rfl

lemma dropPoint_text (f : Fixed) (exponent : Int) : dropPoint f.text exponent =
    (f.sign.chars ++ (f.ints ++ f.fracs), exponent - f.fracs.length) := by
  rw [dropPoint, f.find_point]
  cases frac : f.fraction with
  | none => simp [Fixed.text, Fixed.fracs, frac, pointed]
  | some ds =>
    have erased : f.text.eraseIdx (f.sign.chars ++ f.ints).length =
        f.sign.chars ++ (f.ints ++ ds) := by
      rw [Fixed.text, frac, pointed, eraseIdx_append_of_length_le le_rfl]
      simp
    have hbe : f.text.length - 1 - (f.sign.chars ++ f.ints).length = ds.length := by
      rw [Fixed.text, frac, pointed, length_append, length_cons]
      omega
    simp only [map_some]
    rw [erased, hbe, Fixed.fracs, frac, getD_some]

lemma fixedPoint_writes (d : Scientific) : ∃ t f, fixedPoint d.text = .ok t ∧
    Writes t d.sign d.magnitude f ∧
      (f.fraction = some [] ↔ d.exponent = none ∧ d.fraction = some []) := by
  rw [fixedPoint, find_exponent]
  cases exponent : d.exponent with
  | none =>
    refine ⟨d.text, d.toFixed, rfl, ⟨by simp [Scientific.text, exponent], rfl, ?_⟩, by simp⟩
    simp [Scientific.magnitude, Scientific.power, exponent]
  | some e =>
    have text : d.text = d.toFixed.text ++ e.text := by simp [Scientific.text, exponent]
    have coef : d.text.take d.toFixed.text.length = d.toFixed.text := by
      rw [text, take_left]
    have rest : d.text.drop (d.toFixed.text.length + 1) = e.sign.chars ++ e.digits := by
      rw [text, drop_length_add_append, Exponent.text]
      rfl
    have power : d.power = e.value := by simp [Scientific.power, exponent]
    have digits : Digits (d.ints ++ d.fracs) := digits_append.mpr ⟨d.intDigits, d.areDigits⟩
    simp only [map_some]
    rw [coef, rest, e.read]
    simp only [bind, Except.bind, dropPoint_text]
    rw [if_neg (by decide)]
    have total : (number (d.ints ++ d.fracs) : ℚ) * 10 ^ (e.value - d.fracs.length) =
        d.magnitude := by
      rw [Scientific.magnitude, power, Fixed.magnitude, zpow_sub₀ (by norm_num), zpow_natCast]
      ring
    split_ifs with hna
    · obtain ⟨n, count⟩ := Int.eq_ofNat_of_zero_le hna
      let zeros := List.replicate n '0'
      have ints : Digits (d.ints ++ d.fracs ++ zeros) :=
        digits_append.mpr ⟨digits, digits_replicate n⟩
      refine ⟨_, ⟨d.sign, d.ints ++ d.fracs ++ zeros, none, ints, .nil, ?_⟩, rfl,
        ⟨?_, rfl, ?_⟩, by simp⟩
      · have some := d.someDigit
        simp only [getD_none, append_nil]
        intro hem
        exact some (append_eq_nil_iff.mp hem).1
      · rw [count]
        simp [Fixed.text, pointed, zeros]
      · rw [Fixed.magnitude_whole rfl, ← total, count, number_zeros, zpow_natCast]
        push_cast
        ring
    · obtain ⟨t, f, ran, writes, hne⟩ := shiftPoint_digits d.sign digits d.someDigit
        (show 0 < (-(e.value - d.fracs.length)).toNat by omega)
      refine ⟨t, f, ran, ⟨writes.text, writes.sign, ?_⟩, by simp [hne]⟩
      have down : (10 : ℚ) ^ (e.value - d.fracs.length) =
          1 / 10 ^ (-(e.value - d.fracs.length)).toNat := by
        rw [← zpow_natCast, Int.toNat_of_nonneg (by omega), zpow_neg]
        simp
      rw [writes.magnitude, ← total, down]
      ring

/-- The fraction is cut or padded to the scale. -/
lemma applyScale_writes (f : Fixed) (scale : Nat) :
    ∃ g, Writes (applyScale scale f.text) f.sign (f.magnitude * 10 ^ scale) g ∧
      (g.fraction = some [] ↔ scale = 0 ∧ f.fraction = some []) := by
  by_cases zero : scale = 0
  · subst zero
    exact ⟨f, ⟨rfl, rfl, by simp⟩, by simp⟩
  have hp : (0 : Int) < scale := by omega
  have ints : Digits (f.ints ++ padded f.fracs scale) :=
    digits_append.mpr ⟨f.intDigits, digits_padded f.areDigits scale⟩
  have hne : f.ints ++ padded f.fracs scale ≠ [] := by
    intro hem
    have length := length_padded f.fracs scale
    rw [(append_eq_nil_iff.mp hem).2] at length
    exact zero length.symm
  have value := f.magnitude_scaled scale
  rw [applyScale, if_neg (by omega), f.find_point, Int.toNat_natCast]
  cases frac : f.fraction with
  | none =>
    have fracs : f.fracs = [] := by rw [Fixed.fracs, frac]; rfl
    rw [fracs] at ints hne value
    refine ⟨⟨f.sign, _, none, ints, .nil, by simpa using hne⟩, ⟨?_, rfl, ?_⟩, by simp⟩
    · simp [Fixed.text, frac, pointed, padded]
    · rw [Fixed.magnitude_whole rfl, value]
      simp
  | some ds =>
    have fracs : f.fracs = ds := by rw [Fixed.fracs, frac]; rfl
    obtain ⟨hb, hbe⟩ := Fixed.around_point frac
    have digits : Digits ds := fracs ▸ f.areDigits
    rw [fracs] at ints hne value
    simp only [map_some]
    rw [if_pos hp, hb, hbe]
    by_cases gone : ds.drop scale = []
    · rw [gone] at value
      simp only [gone, if_true]
      refine ⟨⟨f.sign, _, none, ints, .nil, by simpa using hne⟩, ⟨?_, rfl, ?_⟩, by simp [zero]⟩
      · simp [Fixed.text, pointed, padded]
      · rw [Fixed.magnitude_whole rfl, value]
        simp
    · simp only [if_neg gone]
      refine ⟨⟨f.sign, _, some (ds.drop scale), ints, digits.sublist (drop_sublist _ _), ?_⟩,
        ⟨?_, rfl, ?_⟩, by simp [gone, zero]⟩
      · simp [gone]
      · simp [Fixed.text, pointed, padded]
      · rw [Fixed.magnitude_eq, value]
        rfl

lemma integerPart_signed (digits : Digits s) :
    integerPart (sign.chars ++ s) = sign.chars ++ if s = [] then ['0'] else s := by
  by_cases hem : s = []
  · subst hem
    cases sign <;> rfl
  obtain ⟨c, rest, rfl⟩ := exists_cons_of_ne_nil hem
  have hdig := (digits_cons.mp digits).1
  have notPlus : c ≠ '+' := by
    rintro rfl
    cases hdig
  have notMinus : c ≠ '-' := by
    rintro rfl
    cases hdig
  rw [if_neg hem, integerPart, if_neg (by simp)]
  rw [if_neg]
  cases sign <;> simp [Sign.chars, notPlus, notMinus]

lemma stringToLl_integerPart (digits : Digits s) :
    ∃ w, stringToLl (integerPart (sign.chars ++ s)) = .ok (clamp64 (sign.apply (number s)), w) := by
  rw [integerPart_signed sign digits]
  split_ifs with hem
  · rw [hem]
    exact ⟨_, stringToLl_digits sign (digits_replicate 1) (by decide)⟩
  · exact ⟨_, stringToLl_digits sign digits hem⟩

/-- The integer the code makes of a sign, a number and the rounding. -/
def rounded64 (sign : Sign) (n : Nat) (roundup : Int) : Int :=
  let intVal := clamp64 (sign.apply n)
  wrap64 (intVal + if 0 ≤ intVal then roundup else -roundup)

lemma wrap64_small {n : Int} (low : -2 ^ 63 ≤ n) (high : n < 2 ^ 63) : wrap64 n = n := by
  rw [wrap64, Int.bmod_def]
  split <;> omega

lemma clamp64_bounds (n : Int) : -2 ^ 63 ≤ clamp64 n ∧ clamp64 n < 2 ^ 63 := by
  unfold clamp64
  omega

lemma toInteger_text (g : Fixed) (pushwarning : Bool) (hne : g.fraction ≠ some []) :
    ∃ w, toInteger g.text pushwarning false =
      .ok (rounded64 g.sign (number g.ints) (roundsUp g.fracs), w) := by
  rw [toInteger, g.find_point]
  cases frac : g.fraction with
  | none =>
    have some : g.ints ≠ [] := by simpa [frac] using g.someDigit
    have text : g.text = g.sign.chars ++ g.ints := by simp [Fixed.text, frac, pointed]
    have still : roundsUp g.fracs = 0 := by simp [roundsUp, leading, Fixed.fracs, frac]
    obtain ⟨low, high⟩ := clamp64_bounds (g.sign.apply (number g.ints))
    rw [text, stringToLl_digits g.sign g.intDigits some, still, rounded64]
    simp only [map_none, neg_zero, ite_self, add_zero, wrap64_small low high]
    exact ⟨_, rfl⟩
  | some ds =>
    have fracs : g.fracs = ds := by rw [Fixed.fracs, frac]; rfl
    have digits : Digits ds := fracs ▸ g.areDigits
    obtain ⟨c, rest, rfl⟩ := exists_cons_of_ne_nil fun hem : ds = [] =>
      hne (by rw [frac, hem])
    obtain ⟨hb, hbe⟩ := Fixed.around_point frac
    have first : stringToLl [c] = .ok ((digit c : Int), false) := by
      have one : number [c] = digit c := by simp [number_cons]
      have hdig := (digits_cons.mp digits).1
      have hl := digit_lt hdig
      have read := stringToLl_small .none (s := [c]) (digits_cons.mpr ⟨hdig, .nil⟩) (by simp)
        (by rw [one]; omega)
      rw [one] at read
      exact read
    have left : stringToLl (c :: rest) = _ := stringToLl_digits .none digits (by simp)
    obtain ⟨w, ints⟩ := stringToLl_integerPart g.sign g.intDigits
    have lead : leading g.fracs = digit c := by rw [fracs]; rfl
    have up : (if (!false) = true ∧ (5 : Int) ≤ digit c then (1 : Int) else 0) =
        roundsUp g.fracs := by
      rw [roundsUp, lead]
      simp
    simp only [map_some]
    rw [hb, hbe, take_succ_cons, take_zero, first, ints, left]
    simp only [bind, Except.bind, up]
    exact ⟨_, rfl⟩

lemma toInteger_bare (g : Fixed) (pushwarning noRoundup : Bool) (hem : g.fraction = some []) :
    toInteger g.text pushwarning noRoundup = .error .notNumerical := by
  rw [toInteger, g.find_point, hem]
  simp only [map_some]
  rw [(Fixed.around_point hem).2]
  rfl

end Stages

end DataConvert
