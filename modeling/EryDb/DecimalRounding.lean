import Mathlib.Tactic.IntervalCases
import EryDb.DecimalValues

/-!
# Rounding of decimal texts in bulk load and in DML

Both conversions are to round the scaled value half away from zero. Bulk load takes the sign from
the text. DML takes it from the integer part, which has lost it where that part is zero, and
adds the rounding to a part that may already be cut to 64 bits; it also refuses a text that
ends with its point if the column has no scale.
-/

namespace DataConvert

open List BrmTypes DigitStrings

/-- The precisions of a 64-bit decimal column. -/
structure DecimalType where
  precision : Nat
  scale : Nat
  positive : 1 ≤ precision
  limited : precision ≤ 18
  fits : scale ≤ precision

def DecimalType.colType (t : DecimalType) : ColType := ⟨.decimal, 8, t.scale, t.precision⟩

lemma erydbPrecision_eq {p : Nat} (hlim : p ≤ 18) : erydbPrecision p = 10 ^ p - 1 := by
  interval_cases p <;> rfl

lemma power_bounds {p : Nat} (hp : 1 ≤ p) (hlim : p ≤ 18) :
    (10 : Int) ≤ 10 ^ p ∧ (10 : Int) ^ p ≤ 10 ^ 18 := by
  constructor
  · exact le_self_pow₀ (by norm_num) (by omega)
  · exact pow_le_pow_right₀ (by norm_num) hlim

lemma saturated_fst {lo hi : Int} (hord : lo ≤ hi) (v : Int × Bool) :
    (saturated lo hi v).1 = max lo (min hi v.1) := by
  unfold saturated
  split
  · simp only
    omega
  · split
    · simp only
      omega
    · omega

lemma saturated_decimal {p : Nat} (hp : 1 ≤ p) (hlim : p ≤ 18) (scale : Int)
    {v : Int × Bool} (high : v.1 < 2 ^ 63) : (saturatedPrecision ⟨.decimal, 8, scale, p⟩
      (saturatedType ⟨.decimal, 8, scale, p⟩ v)).1 = clamped p v.1 := by
  obtain ⟨ten, most⟩ := power_bounds hp hlim
  have width : saturatedType ⟨.decimal, 8, scale, p⟩ v = saturated minBigint maxBigint v := rfl
  rw [saturatedPrecision, if_pos (Or.inl rfl), width, erydbPrecision_eq hlim,
    saturated_fst (by omega), saturated_fst (by decide), clamped, minBigint, maxBigint]
  omega

section Dml

/-- Where the rounding of a scaled magnitude comes out: a negative number with an integer part, and
a part that leaves room in 64 bits. -/
def RoundsRight (sign : Sign) (x : ℚ) : Prop :=
  1 / 2 ≤ Int.fract x → if sign = .minus then 0 < ⌊x⌋ ∧ ⌊x⌋ < 2 ^ 63 else ⌊x⌋ < 2 ^ 63 - 1

variable {p n : Nat}

lemma clamped_clamp64 (hp : 1 ≤ p) (hlim : p ≤ 18) (n : Int) :
    clamped p (clamp64 n) = clamped p n := by
  obtain ⟨ten, most⟩ := power_bounds hp hlim
  unfold clamped clamp64
  omega

lemma wrap64_above : wrap64 (2 ^ 63) = -2 ^ 63 := by decide

lemma wrap64_below : wrap64 (-2 ^ 63 - 1) = 2 ^ 63 - 1 := by decide

/-- The rounded integer of a number without a minus sign. -/
lemma clamped_rounded_natural (hp : 1 ≤ p) (hlim : p ≤ 18) {sign : Sign} (hna : sign ≠ .minus) :
    clamped p (rounded64 sign n 1) = clamped p (n + 1) ↔ n < 2 ^ 63 - 1 := by
  obtain ⟨ten, most⟩ := power_bounds hp hlim
  have value : sign.apply n = n := if_neg hna
  rw [rounded64, value]
  by_cases room : n < 2 ^ 63 - 1
  · have he : clamp64 n = n := by
      unfold clamp64
      omega
    simp only [he]
    rw [if_pos (by omega), wrap64_small (by omega) (by omega)]
    exact iff_of_true rfl room
  · have cut : clamp64 n = 2 ^ 63 - 1 := by
      unfold clamp64
      omega
    simp only [cut]
    rw [if_pos (by omega), Int.sub_add_cancel, wrap64_above]
    refine iff_of_false ?_ room
    unfold clamped
    omega

lemma clamped_rounded_minus (hp : 1 ≤ p) (hlim : p ≤ 18) :
    clamped p (rounded64 .minus n 1) = clamped p (-(n + 1)) ↔ 0 < n ∧ n < 2 ^ 63 := by
  obtain ⟨ten, most⟩ := power_bounds hp hlim
  have value : Sign.minus.apply n = -n := rfl
  rw [rounded64, value]
  by_cases zero : n = 0
  · subst zero
    refine iff_of_false ?_ (by omega)
    have one : wrap64 1 = 1 := by decide
    simp only [clamp64, Nat.cast_zero, neg_zero]
    norm_num [one]
    unfold clamped
    omega
  by_cases room : n < 2 ^ 63
  · have he : clamp64 (-n) = -n := by
      unfold clamp64
      omega
    simp only [he]
    rw [if_neg (by omega), wrap64_small (by omega) (by omega), neg_add]
    exact iff_of_true rfl ⟨by omega, room⟩
  · have cut : clamp64 (-n) = -2 ^ 63 := by
      unfold clamp64
      omega
    simp only [cut]
    rw [if_neg (by omega), ← sub_eq_add_neg, wrap64_below]
    refine iff_of_false ?_ (by omega)
    unfold clamped
    omega

/-- A text that a stage has left gives the rounded value exactly if it rounds right. -/
lemma clamped_rounded64 (hp : 1 ≤ p) (hlim : p ≤ 18) (g : Fixed) :
    clamped p (rounded64 g.sign (number g.ints) (roundsUp g.fracs)) =
      clamped p (halfAway (Sign.applyRat g.sign g.magnitude)) ↔ RoundsRight g.sign g.magnitude := by
  rw [halfAway_apply g.sign g.magnitude_nonneg, RoundsRight, g.fract_magnitude, g.floor_magnitude,
    half_le_fraction g.areDigits, g.magnitude_eq, floor_half _ g.areDigits, roundsUp]
  by_cases up : 5 ≤ leading g.fracs
  · rw [if_pos up]
    by_cases minus : g.sign = .minus
    · rw [minus, if_pos rfl]
      have value : Sign.minus.apply (number g.ints + 1) = -(number g.ints + 1 : Int) := rfl
      rw [value, clamped_rounded_minus hp hlim]
      constructor
      · intro room _
        omega
      · intro room
        omega
    · have value : g.sign.apply (number g.ints + 1) = number g.ints + 1 := if_neg minus
      rw [value, if_neg minus, clamped_rounded_natural hp hlim minus]
      constructor
      · intro room _
        omega
      · intro room
        omega
  · rw [if_neg up, rounded64, neg_zero, ite_self, add_zero, add_zero,
      wrap64_small (clamp64_bounds _).1 (clamp64_bounds _).2, clamped_clamp64 hp hlim]
    exact iff_of_true rfl fun hen => absurd hen up

lemma stripParentheses_text (d : Scientific) :
    stripParentheses (d.text.length + 1) d.text = .ok d.text := by
  have hab : ∀ c : Char, c = '(' ∨ c = ')' → c ∉ d.text := by
    intro c parenthesis
    have hpl : c.isDigit = false ∧ c ≠ '+' ∧ c ≠ '-' ∧ c ≠ '.' ∧ c ≠ 'E' ∧ c ≠ 'e' := by
      rcases parenthesis with rfl | rfl <;> decide
    obtain ⟨notDigit, notPlus, notMinus, notPoint, notE, note⟩ := hpl
    rw [Scientific.text, mem_append, not_or]
    refine ⟨d.toFixed.not_mem_text notDigit notPlus notMinus notPoint, ?_⟩
    cases d.exponent with
    | none => exact not_mem_nil
    | some e =>
      rw [Option.map_some, Option.getD_some, Exponent.text, mem_cons, not_or]
      refine ⟨?_, not_mem_signed e.sign e.areDigits notDigit notPlus notMinus⟩
      split
      · exact notE
      · exact note
  rw [stripParentheses, find_none (hab '(' (Or.inl rfl)), find_none (hab ')' (Or.inr rfl))]

def Scientific.value (d : Scientific) : ℚ := Sign.applyRat d.sign d.magnitude

lemma value_scaled (d : Scientific) (scale : Nat) :
    d.value * 10 ^ scale = Sign.applyRat d.sign (d.magnitude * 10 ^ scale) := by
  unfold Scientific.value Sign.applyRat
  split
  · ring
  · rfl

lemma rounded64_lt (sign : Sign) (n : Nat) (roundup : Int) : rounded64 sign n roundup < 2 ^ 63 := by
  rw [rounded64, wrap64, Int.bmod_def]
  split <;> omega

lemma numberIntValue_text (hp : 1 ≤ p) (hlim : p ≤ 18) (scale : Nat) (d : Scientific)
    (pushwarning : Bool) : (∃ w, numberIntValue d.text ⟨.decimal, 8, scale, p⟩ pushwarning false =
        .ok (clamped p (halfAway (d.value * 10 ^ scale)), w)) ↔
      RoundsRight d.sign (d.magnitude * 10 ^ scale) ∧
        ¬ (scale = 0 ∧ d.exponent = none ∧ d.fraction = some []) := by
  obtain ⟨t, f, fixed, hwr, point⟩ := fixedPoint_writes d
  obtain ⟨g, scaled, bare⟩ := applyScale_writes f scale
  have magnitude : g.magnitude = d.magnitude * 10 ^ scale := by
    rw [scaled.magnitude, hwr.magnitude]
  have sign : g.sign = d.sign := scaled.sign.trans hwr.sign
  have text : applyScale scale t = g.text := by rw [hwr.text, scaled.text]
  rw [numberIntValue, stripParentheses_text]
  simp only [bind, Except.bind, fixed, text]
  rw [value_scaled, ← magnitude, ← sign, ← point, ← bare]
  by_cases hem : g.fraction = some []
  · rw [toInteger_bare g pushwarning false hem]
    refine iff_of_false ?_ (by simp [hem])
    rintro ⟨w, failed⟩
    cases failed
  obtain ⟨w, ran⟩ := toInteger_text g pushwarning hem
  have value := saturated_decimal hp hlim scale
    (v := (rounded64 g.sign (number g.ints) (roundsUp g.fracs), w)) (rounded64_lt _ _ _)
  rw [ran, and_iff_left hem, ← clamped_rounded64 hp hlim g]
  constructor
  · rintro ⟨w', answer⟩
    rw [← value, Except.ok.inj answer]
  · intro he
    refine ⟨_, congrArg Except.ok (Prod.ext ?_ rfl)⟩
    rw [← he]
    exact value

/-- DML stores the scaled value rounded half away from zero and cut to the precision, exactly if
the rounding has an integer part to take its sign and room from, and the text does not end
with its point in a column without a scale. -/
theorem numberIntValue_rounds_iff (t : DecimalType) (d : Scientific) (pushwarning : Bool) :
    (∃ w, numberIntValue d.text t.colType pushwarning false =
        .ok (clamped t.precision (halfAway (d.value * 10 ^ t.scale)), w)) ↔
      RoundsRight d.sign (d.magnitude * 10 ^ t.scale) ∧
        ¬ (t.scale = 0 ∧ d.exponent = none ∧ d.fraction = some []) :=
  numberIntValue_text t.positive t.limited t.scale d pushwarning

/-- DECIMAL(9, 2). -/
def hundredths : DecimalType := ⟨9, 2, by decide, by decide, by decide⟩

/-- The text 1.005 is stored as 101 hundredths. -/
theorem numberIntValue_rounds_hundredths : ∃ d : Scientific, d.text = ['1', '.', '0', '0', '5'] ∧
    ∃ w, numberIntValue d.text hundredths.colType false false = .ok (101, w) := by
  let d : Scientific := ⟨⟨.none, ['1'], some ['0', '0', '5'], by simp [Digits], by simp [Digits],
    by simp⟩, none⟩
  have digits : number ['1', '0', '0', '5'] = 1005 := by decide
  have magnitude : d.magnitude * 10 ^ hundredths.scale = 201 / 2 := by
    norm_num [d, hundredths, Scientific.magnitude, Scientific.power, Fixed.magnitude, Fixed.fracs,
      digits]
  have value : halfAway (d.value * 10 ^ hundredths.scale) = 101 := by
    have same : d.value = d.magnitude := rfl
    rw [same, magnitude, halfAway]
    norm_num
  obtain ⟨w, stored⟩ := (numberIntValue_rounds_iff hundredths d false).mpr
    ⟨by rw [magnitude, RoundsRight]; norm_num [d], by simp [hundredths]⟩
  rw [value] at stored
  exact ⟨d, rfl, w, stored⟩

/-- The text -0.5 in a column without a scale becomes 1. -/
theorem minus_half_rounds_up :
    ∃ d : Scientific, d.text = ['-', '0', '.', '5'] ∧ halfAway d.value = -1 ∧
      numberIntValue d.text ⟨.decimal, 8, 0, 9⟩ false false = .ok (1, true) := by
  let d : Scientific := ⟨⟨.minus, ['0'], some ['5'], by simp [Digits], by simp [Digits], by simp⟩,
    none⟩
  refine ⟨d, rfl, ?_, by decide +kernel⟩
  have five : number ['0', '5'] = 5 := by decide
  have value : d.value = -(1 / 2) := by
    norm_num [d, Scientific.value, Scientific.magnitude, Scientific.power, Fixed.magnitude,
      Fixed.fracs, Sign.applyRat, five]
  rw [value, halfAway]
  norm_num

end Dml

section BulkLoad

variable {f : Fixed} {scale : Nat}

/-- A digit decides the rounding by its place among the digits. -/
lemma decides_iff {c : Char} (hdig : c.isDigit = true) : '4' < c ∧ c ≤ '9' ↔ 5 ≤ digit c := by
  have range := isDigit_iff.mp hdig
  have above : '4' < c ↔ 52 < c.toNat := Iff.rfl
  have hl : c ≤ '9' ↔ c.toNat ≤ 57 := Iff.rfl
  rw [above, hl, digit]
  omega

lemma first_char (f : Fixed) : (f.text.dropWhile isspace).head? = some '-' ↔ f.sign = .minus := by
  cases sign : f.sign with
  | plus | minus =>
    rw [Fixed.text, sign]
    simp [Sign.chars, isspace]
  | none =>
    have text : f.text = f.ints ++ pointed f.fraction := by rw [Fixed.text, sign]; rfl
    refine iff_of_false ?_ (by simp)
    cases ints : f.ints with
    | cons c rest =>
      have hdig : c.isDigit = true := f.intDigits c (by simp [ints])
      rw [text, ints, cons_append, dropWhile_cons_of_neg (by simp [isspace_of_digit hdig])]
      rintro he
      rw [Option.some.inj he] at hdig
      cases hdig
    | nil =>
      cases point : f.fraction with
      | none => exact absurd (by simp [ints, point]) f.someDigit
      | some ds =>
        rw [text, ints, point]
        simp [pointed, isspace]

/-- The rounding of bulk load has the sign of the text. -/
lemma roundOff_text {ds : List Char} (f : Fixed) (point : f.fraction = some ds) (scale : Nat) :
    roundOff f.text (f.sign.chars ++ f.ints).length scale =
      f.sign.apply (roundsUp (ds.drop scale)) := by
  have digits : Digits ds := by
    have := f.areDigits
    rwa [Fixed.fracs, point] at this
  have place : f.text[(f.sign.chars ++ f.ints).length + 1 + scale]? = ds[scale]? := by
    rw [Fixed.text, point, pointed, getElem?_append_right (by omega), Nat.add_assoc,
      Nat.add_sub_cancel_left, Nat.add_comm 1 scale, getElem?_cons_succ]
  have head : (ds.drop scale).head? = ds[scale]? := head?_drop
  rw [roundOff, place, roundsUp, leading, head]
  cases next : ds[scale]? with
  | none => simp [Sign.apply]
  | some c =>
    have hdig : c.isDigit = true := digits c (mem_of_getElem? next)
    simp only [decides_iff hdig, first_char, Option.map_some, Option.getD_some, Sign.apply]
    split <;> split <;> simp

lemma splitField_text (f : Fixed) (scale : Nat) : splitField f.text scale =
    (f.sign.chars ++ f.ints, f.fracs, f.sign.apply (roundsUp (f.fracs.drop scale))) := by
  rw [splitField, f.find_point]
  cases point : f.fraction with
  | none => simp [Fixed.text, Fixed.fracs, point, pointed, roundsUp, leading, Sign.apply]
  | some ds =>
    have hbe : f.text.drop ((f.sign.chars ++ f.ints).length + 1) = ds := by
      rw [Fixed.text, drop_length_add_append, point]
      rfl
    have fracs : f.fracs = ds := by rw [Fixed.fracs, point]; rfl
    simp only [Option.map_some]
    rw [hbe, fracs, roundOff_text f point, Fixed.text, take_left]

/-- The number before the rounding, with what is cut off. -/
lemma halfAway_scaled (f : Fixed) (scale : Nat) :
    halfAway (Sign.applyRat f.sign (f.magnitude * 10 ^ scale)) =
      f.sign.apply (number (f.ints ++ padded f.fracs scale) + roundsUp (f.fracs.drop scale)) := by
  have hna : 0 ≤ f.magnitude * 10 ^ scale := mul_nonneg f.magnitude_nonneg (by positivity)
  rw [halfAway_apply f.sign hna, f.magnitude_scaled scale,
    floor_half _ (f.areDigits.sublist (drop_sublist _ _))]

lemma Sign.apply_add (sign : Sign) (a b : Int) :
    sign.apply (a + b) = sign.apply a + sign.apply b := by
  unfold Sign.apply
  split <;> omega

lemma strtoll_signed (sign : Sign) {ds : List Char} (digits : Digits ds)
    (low : -2 ^ 63 ≤ sign.apply (number ds)) (high : sign.apply (number ds) ≤ 2 ^ 63 - 1) :
    (strtoll (sign.chars ++ ds)).value = sign.apply (number ds) ∧
      (strtoll (sign.chars ++ ds)).outOfRange = false := by
  by_cases hem : ds = []
  · rw [hem, append_nil, strtoll_bare]
    exact ⟨by simp [Sign.apply], rfl⟩
  · rw [strtoll_digits sign digits hem, limited_small low high]
    exact ⟨rfl, rfl⟩

/-- Bulk load rounds half away from zero whenever the result is a 64-bit integer. -/
lemma convertDecimalString_rounds (f : Fixed) (scale : Nat)
    (low : -2 ^ 63 ≤ halfAway (Sign.applyRat f.sign (f.magnitude * 10 ^ scale)))
    (high : halfAway (Sign.applyRat f.sign (f.magnitude * 10 ^ scale)) ≤ 2 ^ 63 - 1) :
    convertDecimalString f.text scale =
      (halfAway (Sign.applyRat f.sign (f.magnitude * 10 ^ scale)), false) := by
  have digits : Digits (f.ints ++ padded f.fracs scale) :=
    digits_append.mpr ⟨f.intDigits, digits_padded f.areDigits scale⟩
  rw [halfAway_scaled, Sign.apply_add] at low high ⊢
  have up : 0 ≤ roundsUp (f.fracs.drop scale) ∧ roundsUp (f.fracs.drop scale) ≤ 1 := by
    unfold roundsUp
    split <;> omega
  have hi : -2 ^ 63 ≤ f.sign.apply (number (f.ints ++ padded f.fracs scale)) ∧
      f.sign.apply (number (f.ints ++ padded f.fracs scale)) ≤ 2 ^ 63 - 1 := by
    unfold Sign.apply at low high ⊢
    split_ifs at low high ⊢
    · omega
    · omega
  obtain ⟨value, ok⟩ := strtoll_signed f.sign digits hi.1 hi.2
  rw [convertDecimalString, splitField_text]
  simp only
  have data : f.sign.chars ++ f.ints ++ f.fracs.take scale ++
      List.replicate (scale - (f.fracs.take scale).length) '0' =
        f.sign.chars ++ (f.ints ++ padded f.fracs scale) := by
    simp [padded]
  rw [data, ok, value, wrap64_small low (by omega)]
  rfl

/-- A number without an exponent. -/
def Fixed.plain (f : Fixed) : Scientific := ⟨f, none⟩

lemma plain_magnitude (f : Fixed) : f.plain.magnitude = f.magnitude := by
  simp [Fixed.plain, Scientific.magnitude, Scientific.power]

lemma plain_text (f : Fixed) : f.plain.text = f.text := by
  simp [Fixed.plain, Scientific.text]

def Fixed.value (f : Fixed) : ℚ := Sign.applyRat f.sign f.magnitude

lemma Fixed.value_scaled (f : Fixed) (scale : Nat) :
    f.value * 10 ^ scale = Sign.applyRat f.sign (f.magnitude * 10 ^ scale) := by
  have hpl := DataConvert.value_scaled f.plain scale
  rwa [Scientific.value, plain_magnitude] at hpl

/-- With at most 18 digits only the sign can get lost. -/
lemma roundsRight_short (f : Fixed) (scale : Nat)
    (short : |halfAway (f.value * 10 ^ scale)| < 10 ^ 18) :
    RoundsRight f.sign (f.magnitude * 10 ^ scale) ↔
      ¬ (f.sign = .minus ∧ 1 / 2 ≤ f.magnitude * 10 ^ scale ∧ f.magnitude * 10 ^ scale < 1) := by
  have hna : 0 ≤ f.magnitude * 10 ^ scale := mul_nonneg f.magnitude_nonneg (by positivity)
  rw [f.value_scaled, halfAway_apply f.sign hna] at short
  generalize f.magnitude * 10 ^ scale = x at hna short ⊢
  have hl : ⌊x⌋ < 10 ^ 18 := by
    have grows : ⌊x⌋ ≤ ⌊x + 1 / 2⌋ := Int.floor_le_floor (by linarith)
    have magnitude : |f.sign.apply ⌊x + 1 / 2⌋| = |⌊x + 1 / 2⌋| := by
      unfold Sign.apply
      split
      · exact abs_neg _
      · rfl
    rw [magnitude] at short
    exact (grows.trans (le_abs_self _)).trans_lt short
  have part : 0 ≤ ⌊x⌋ := Int.floor_nonneg.mpr hna
  unfold RoundsRight
  by_cases minus : f.sign = .minus
  · rw [if_pos minus]
    constructor
    · rintro right ⟨-, half, one⟩
      have zero : ⌊x⌋ = 0 := Int.floor_eq_zero_iff.mpr ⟨hna, one⟩
      have := (right (by rw [Int.fract, zero]; simpa using half)).1
      omega
    intro wrong half
    refine ⟨?_, by omega⟩
    by_contra none
    have zero : ⌊x⌋ = 0 := by omega
    have fract : Int.fract x = x := by rw [Int.fract, zero]; simp
    rw [fract] at half
    exact wrong ⟨minus, half, (Int.floor_eq_zero_iff.mp zero).2⟩
  · rw [if_neg minus]
    exact iff_of_true (fun _ => by omega) fun wrong => minus wrong.1

/-- Bulk load rounds every decimal text half away from zero, and DML stores the same, exactly if
a negative number does not round from zero and no text ends with its point without a scale. -/
theorem conversions_agree_iff (f : Fixed) (scale : Nat) (pushwarning : Bool)
    (low : -2 ^ 63 ≤ halfAway (f.value * 10 ^ scale))
    (high : halfAway (f.value * 10 ^ scale) ≤ 2 ^ 63 - 1) :
    ((convertDecimalString f.text scale).1 = halfAway (f.value * 10 ^ scale) ∧
      (|halfAway (f.value * 10 ^ scale)| < 10 ^ 18 →
        ∃ w, numberIntValue f.text ⟨.decimal, 8, scale, 18⟩ pushwarning false =
          .ok ((convertDecimalString f.text scale).1, w))) ↔
      (|halfAway (f.value * 10 ^ scale)| < 10 ^ 18 →
        ¬ (f.sign = .minus ∧ 1 / 2 ≤ f.magnitude * 10 ^ scale ∧ f.magnitude * 10 ^ scale < 1) ∧
          ¬ (scale = 0 ∧ f.fraction = some [])) := by
  have loaded : (convertDecimalString f.text scale).1 = halfAway (f.value * 10 ^ scale) := by
    rw [f.value_scaled] at low high ⊢
    rw [convertDecimalString_rounds f scale low high]
  rw [loaded, and_iff_right rfl]
  refine forall_congr' fun short => ?_
  have dml := numberIntValue_text (p := 18) (by decide) le_rfl scale f.plain pushwarning
  have same : f.plain.value * 10 ^ scale = f.value * 10 ^ scale := by
    rw [Scientific.value, plain_magnitude]
    rfl
  have whole : clamped 18 (halfAway (f.value * 10 ^ scale)) = halfAway (f.value * 10 ^ scale) := by
    rw [abs_lt] at short
    unfold clamped
    omega
  rw [plain_text, same, whole, plain_magnitude] at dml
  rw [dml, ← roundsRight_short f scale short]
  simp [Fixed.plain]

/-- Both store 12.345 in a column of scale 2 as 1235. -/
theorem conversions_agree_twelve :
    ∃ f : Fixed, f.text = ['1', '2', '.', '3', '4', '5'] ∧ halfAway (f.value * 10 ^ 2) = 1235 ∧
      (convertDecimalString f.text 2).1 = 1235 ∧
      ∃ w, numberIntValue f.text ⟨.decimal, 8, 2, 18⟩ false false = .ok (1235, w) := by
  let f : Fixed := ⟨.none, ['1', '2'], some ['3', '4', '5'], by simp [Digits], by simp [Digits],
    by simp⟩
  have digits : number ['1', '2', '3', '4', '5'] = 12345 := by decide
  have magnitude : f.magnitude = 12345 / 1000 := by
    norm_num [f, Fixed.magnitude, Fixed.fracs, digits]
  have value : f.value = 12345 / 1000 := magnitude
  have rounded : halfAway (f.value * 10 ^ 2) = 1235 := by
    rw [value, halfAway]
    norm_num
  have agree := (conversions_agree_iff f 2 false (by rw [rounded]; decide)
    (by rw [rounded]; decide)).mpr fun _ => by simp [f]
  refine ⟨f, rfl, rounded, agree.1.trans rounded, ?_⟩
  have dml := agree.2 (by rw [rounded]; decide)
  rwa [agree.1, rounded] at dml

/-- Bulk load stores -0.5 in a column without a scale as -1, DML stores 1. -/
theorem conversions_differ :
    ∃ f : Fixed, halfAway f.value = -1 ∧ (convertDecimalString f.text 0).1 = -1 ∧
      numberIntValue f.text ⟨.decimal, 8, 0, 18⟩ false false = .ok (1, true) := by
  let f : Fixed := ⟨.minus, ['0'], some ['5'], by simp [Digits], by simp [Digits], by simp⟩
  have five : number ['0', '5'] = 5 := by decide
  have value : f.value = -(1 / 2) := by
    norm_num [f, Fixed.value, Fixed.magnitude, Fixed.fracs, Sign.applyRat, five]
  refine ⟨f, ?_, by decide +kernel, by decide +kernel⟩
  rw [value, halfAway]
  norm_num

end BulkLoad

end DataConvert
