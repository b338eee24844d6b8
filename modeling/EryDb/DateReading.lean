import EryDb.DateText

/-!
# What a date text stands for

The date part of a text is what stands before a `T` or a blank: three numbers with a separator
between each two of them, or six or eight digits, with the six digits of a time perhaps behind
them. A number has the same fields in its digits, and its year may be that of the clock.
-/

namespace DataConvert

open List DigitStrings
open BrmTypes (wrap32)

def lastDay (y m : Int) : Int :=
  if m = 2 then if y % 4 = 0 ∧ (y % 100 = 0 → y % 400 = 0) then 29 else 28
  else if m = 4 ∨ m = 6 ∨ m = 9 ∨ m = 11 then 30
  else 31

structure InCalendar (y m d : Int) : Prop where
  year : 1000 ≤ y ∧ y ≤ 9999
  month : 1 ≤ m ∧ m ≤ 12
  day : 1 ≤ d ∧ d ≤ lastDay y m

/-- The stored fields are the three numbers, which are all zero or a day of the calendar. -/
structure Stored (y m d : Int) (date : Date) : Prop where
  year : (date.year.toNat : Int) = y
  month : (date.month.toNat : Int) = m
  day : (date.day.toNat : Int) = d
  zero_or : (y = 0 ∧ m = 0 ∧ d = 0) ∨ InCalendar y m d

lemma lastDay_le (y m : Int) : lastDay y m ≤ 31 := by
  rw [lastDay]
  split_ifs <;> decide

lemma isLeapYear_iff {y : Int} : isLeapYear y = true ↔ y % 4 = 0 ∧ (y % 100 = 0 → y % 400 = 0) := by
  rw [isLeapYear]
  split_ifs with fourHundred
  · simp only [true_iff]
    omega
  · simp only [decide_eq_true_eq]
    omega

lemma daycheck_eq (y : Int) {m : Int} (low : 1 ≤ m) (high : m ≤ 12) :
    (if m = 2 ∧ isLeapYear y = true then 29 else getDaysInMonth m) = lastDay y m := by
  simp only [isLeapYear_iff, lastDay]
  by_cases february : m = 2
  · subst february
    simp only [true_and, if_true]
    rfl
  · rw [if_neg (fun both => february both.1), if_neg february]
    obtain rfl | rfl | rfl | rfl | rfl | rfl | rfl | rfl | rfl | rfl | rfl : m = 1 ∨ m = 3 ∨
      m = 4 ∨ m = 5 ∨ m = 6 ∨ m = 7 ∨ m = 8 ∨ m = 9 ∨ m = 10 ∨ m = 11 ∨ m = 12 := by omega
    all_goals rfl

lemma isDateValid_iff {d m y : Int} : isDateValid d m y = true ↔
    (y = 0 ∧ m = 0) ∨ InCalendar y m d := by
  rw [isDateValid]
  by_cases zero : y = 0 ∧ m = 0
  · simp [zero]
  rw [if_neg (by omega)]
  by_cases range : (1000 ≤ y ∧ y ≤ 9999) ∧ 1 ≤ m ∧ m ≤ 12
  · have daycheck := daycheck_eq y range.2.1 range.2.2
    simp only [daycheck]
    rw [if_neg (by omega), if_neg (by omega)]
    constructor
    · intro hv
      split_ifs at hv with hout
      exact .inr ⟨range.1, range.2, by omega⟩
    · rintro (both | calendar)
      · exact absurd both zero
      · have day := calendar.day
        rw [if_neg (by omega)]
  · constructor
    · intro hv
      split_ifs at hv <;> omega
    · rintro (both | calendar)
      · exact absurd both zero
      · exact absurd ⟨calendar.year, calendar.month⟩ range

lemma stored_of_valid {y m d : Int} {date : Date} (hv : isDateValid d m y = true)
    (zero : y = 0 → m = 0 → d = 0) (year : date.year = .ofInt 16 y)
    (month : date.month = .ofInt 4 m) (day : date.day = .ofInt 6 d) : Stored y m d date := by
  have bounds : (0 ≤ y ∧ y < 2 ^ 16) ∧ (0 ≤ m ∧ m < 2 ^ 4) ∧ 0 ≤ d ∧ d < 2 ^ 6 := by
    rcases isDateValid_iff.mp hv with both | ⟨years, months, days⟩
    · have := zero both.1 both.2
      omega
    · have := lastDay_le y m
      omega
  refine ⟨?_, ?_, ?_, ?_⟩
  · rw [year, BitVec.toNat_ofInt]
    omega
  · rw [month, BitVec.toNat_ofInt]
    omega
  · rw [day, BitVec.toNat_ofInt]
    omega
  · exact (isDateValid_iff.mp hv).imp_left (fun both => ⟨both.1, both.2, zero both.1 both.2⟩)

section Reading

variable {ds : List Char} (rest : List Char)

lemma wrap32_small {n : Int} (low : -2 ^ 31 ≤ n) (high : n < 2 ^ 31) : wrap32 n = n := by
  rw [wrap32, Int.bmod_def]
  split <;> omega

lemma readDecimalFrom_digits {max n : Nat} (v : Int) (digits : Digits ds)
    (room : max = 0 ∨ n + ds.length ≤ max) :
    readDecimalFrom max (ds ++ rest) (wrap32 v) n =
      readDecimalFrom max rest (wrap32 (v * 10 ^ ds.length + number ds)) (n + ds.length) := by
  induction ds generalizing v n with
  | nil => simp
  | cons c ds ih =>
    obtain ⟨hdig, digits⟩ := digits_cons.mp digits
    rw [length_cons] at room
    have value : wrap32 (wrap32 v * 10 + digit c) = wrap32 (v * 10 + digit c) := by
      rw [wrap32, wrap32, ← Int.bmod_add_bmod, Int.bmod_mul_bmod, Int.bmod_add_bmod]
      rfl
    rw [cons_append, readDecimalFrom, if_pos ⟨by omega, hdig⟩, value,
      ih _ digits (by omega), number_cons, length_cons, pow_succ]
    push_cast
    ring_nf

variable {rest} in
lemma readDecimal_all (digits : Digits ds) (stops : ∀ c ∈ rest.head?, c.isDigit = false) :
    readDecimal (ds ++ rest) 0 = ⟨wrap32 (number ds), ds.length, rest⟩ := by
  have start := readDecimalFrom_digits rest (n := 0) 0 digits (.inl rfl)
  rw [show wrap32 0 = 0 from rfl] at start
  rw [readDecimal, start, Int.zero_mul, Int.zero_add, Nat.zero_add]
  cases rest with
  | nil => rfl
  | cons c rest =>
    have hbe : c.isDigit = false := stops c rfl
    rw [readDecimalFrom, if_neg (by simp [hbe])]

lemma readDecimal_max (digits : Digits ds) (hne : ds ≠ []) :
    readDecimal (ds ++ rest) ds.length = ⟨wrap32 (number ds), ds.length, rest⟩ := by
  have start := readDecimalFrom_digits rest (n := 0) 0 digits (.inr (Nat.zero_add _).le)
  have hp := length_pos_iff.mpr hne
  rw [show wrap32 0 = 0 from rfl] at start
  rw [readDecimal, start, Int.zero_mul, Int.zero_add, Nat.zero_add]
  cases rest with
  | nil => rfl
  | cons c rest => rw [readDecimalFrom, if_neg (by omega)]

end Reading

section Texts

/-- A blank or a `T` ends the date. -/
def dateEnd (c : Char) : Bool := c = 'T' || c = ' '

def datePart (input : List Char) : List Char := input.takeWhile (fun c => !dateEnd c)

/-- Two digits are those of a year from 1970 to 2069. -/
def yearNumber (ys : List Char) : Nat :=
  if ys.length = 2 then if number ys < 70 then 2000 + number ys else 1900 + number ys
  else number ys

/-- The integers a date part is written with. -/
inductive DateWritten : List Char → Int → Int → Int → Prop
  | separated {ys ms ds : List Char} {p q : Char} (years : Digits ys ∧ ys ≠ [])
      (months : Digits ms ∧ ms ≠ []) (days : Digits ds ∧ ds ≠ [])
      (punct : ispunct p = true ∧ ispunct q = true) :
      DateWritten (ys ++ p :: (ms ++ q :: ds)) (yearNumber ys) (number ms) (number ds)
  | compact {ys ms ds time : List Char} (digits : Digits (ys ++ (ms ++ (ds ++ time))))
      (years : ys.length = 2 ∨ ys.length = 4) (months : ms.length = 2) (days : ds.length = 2)
      (times : time.length = 0 ∨ time.length = 6) :
      DateWritten (ys ++ (ms ++ (ds ++ time))) (yearNumber ys) (number ms) (number ds)

lemma datePart_append (input : List Char) :
    datePart input ++ input.dropWhile (fun c => !dateEnd c) = input :=
  takeWhile_append_dropWhile

lemma datePart_stops (input : List Char) : ∀ c ∈ (input.dropWhile (fun c => !dateEnd c)).head?,
    c.isDigit = false := by
  intro c first
  have ends := head?_dropWhile_not (fun c => !dateEnd c) input
  rw [first] at ends
  have ended : c = 'T' ∨ c = ' ' := by
    simpa [dateEnd, or_iff_not_imp_left] using ends
  rcases ended with rfl | rfl <;> rfl

lemma not_dateEnd {c : Char} (kept : c.isDigit = true ∨ ispunct c = true) : dateEnd c = false := by
  by_contra ends
  rw [Bool.not_eq_false, dateEnd, Bool.or_eq_true, decide_eq_true_eq, decide_eq_true_eq] at ends
  rcases ends with rfl | rfl <;> revert kept <;> decide

variable {input : List Char}

/-- A scan that succeeds stops behind the date part and has counted what is no digit in it. -/
lemma scanDate_some {pos sep e k : Nat} (scan : scanDate input pos sep = some (e, k)) :
    e = pos + (datePart input).length ∧
      k = sep + (datePart input).countP (fun c => !c.isDigit) := by
  induction input generalizing pos sep with
  | nil => cases scan; exact ⟨rfl, rfl⟩
  | cons c input ih =>
    rw [scanDate] at scan
    split_ifs at scan with hdig punct ends
    · obtain ⟨stop, count⟩ := ih scan
      rw [datePart, takeWhile_cons_of_pos (by simp [not_dateEnd (.inl hdig)]),
        length_cons, countP_cons_of_neg (by simp [hdig])]
      exact ⟨by rw [stop, datePart]; omega, count⟩
    · obtain ⟨stop, count⟩ := ih scan
      rw [datePart, takeWhile_cons_of_pos (by simp [not_dateEnd (.inr punct.2)]),
        length_cons, countP_cons_of_pos (by simp [hdig])]
      exact ⟨by rw [stop, datePart]; omega, by rw [count, datePart]; omega⟩
    · cases scan
      have ended : dateEnd c = true := by simpa [dateEnd] using ends
      rw [datePart, takeWhile_cons_of_neg (by simp [ended])]
      exact ⟨rfl, rfl⟩

lemma ispunct_not_digit {c : Char} (punct : ispunct c = true) : c.isDigit = false := by
  by_contra hdig
  simp [ispunct, Char.isAlphanum, Bool.not_eq_false _ ▸ hdig] at punct

lemma countP_digits {ds : List Char} (digits : Digits ds) : ds.countP (fun c => !c.isDigit) = 0 :=
  countP_eq_zero.mpr (fun c hi => by simp [digits c hi])

lemma twoDigitYear_eq {ys : List Char} (two : ys.length = 2) :
    twoDigitYear (number ys) = yearNumber ys := by
  rw [twoDigitYear, yearNumber, if_pos two]
  split_ifs <;> omega

section Fields

variable {ys ms ds : List Char} (rest : List Char)

variable {rest} in
lemma readSeparated_eq {p q : Char} (years : Digits ys) (months : Digits ms) (days : Digits ds)
    (punct : ispunct p = true ∧ ispunct q = true) (stops : ∀ c ∈ rest.head?, c.isDigit = false) :
    readSeparated (ys ++ p :: (ms ++ q :: (ds ++ rest))) =
      (if ys.length = 2 then twoDigitYear (wrap32 (number ys)) else wrap32 (number ys),
        wrap32 (number ms), wrap32 (number ds)) := by
  have hbe : ∀ {c : Char} {l : List Char}, ispunct c = true →
      ∀ b ∈ (c :: l).head?, b.isDigit = false := by
    rintro c l isPunct b ⟨⟩
    exact ispunct_not_digit isPunct
  have year := readDecimal_all years (hbe (l := ms ++ q :: (ds ++ rest)) punct.1)
  have month := readDecimal_all months (hbe (l := ds ++ rest) punct.2)
  have day := readDecimal_all days stops
  simp [readSeparated, year, month, day]

lemma readCompact_eq (years : Digits ys ∧ ys ≠ []) (months : Digits ms ∧ ms.length = 2)
    (days : Digits ds ∧ ds.length = 2) :
    readCompact (ys ++ (ms ++ (ds ++ rest))) ys.length =
      (wrap32 (number ys), wrap32 (number ms), wrap32 (number ds)) := by
  have year := readDecimal_max (ms ++ (ds ++ rest)) years.1 years.2
  have month := readDecimal_max (ds ++ rest) months.1 (fun none => by simp [none] at months)
  have day := readDecimal_max rest days.1 (fun none => by simp [none] at days)
  rw [months.2] at month
  rw [days.2] at day
  simp [readCompact, year, month, day]

end Fields

lemma wrap32_number {ds : List Char} (hsm : (number ds : Int) < 2 ^ 31) :
    wrap32 (number ds) = number ds :=
  wrap32_small (by omega) hsm

lemma yearNumber_wrap {ys : List Char} (digits : Digits ys) (hsm : (yearNumber ys : Int) < 2 ^ 31) :
    (if ys.length = 2 then twoDigitYear (wrap32 (number ys)) else wrap32 (number ys)) =
      yearNumber ys := by
  by_cases two : ys.length = 2
  · have few := number_lt digits
    rw [two] at few
    rw [if_pos two, wrap32_number (by omega), twoDigitYear_eq two]
  · rw [yearNumber, if_neg two] at hsm ⊢
    rw [if_neg two, wrap32_number hsm]

/-- The numbers that are read, if none of them is too large for its integer. -/
lemma dateFields_written {e k : Nat} {f : DateFields} {y m d : Int}
    (hwr : DateWritten (datePart input) y m d) (scan : scanDate input 0 0 = some (e, k))
    (fields : dateFields input e k = some f) (hsm : y < 2 ^ 31 ∧ m < 2 ^ 31 ∧ d < 2 ^ 31) :
    f.year = y ∧ f.month = m ∧ f.day = d := by
  obtain ⟨stop, count⟩ := scanDate_some scan
  have hwh := datePart_append input
  have stops := datePart_stops input
  generalize datePart input = part at hwr stop count hwh
  generalize input.dropWhile (fun c => !dateEnd c) = rest at hwh stops
  subst hwh
  cases hwr with
  | @separated ys ms ds p q years months days punct =>
    have two : k = 2 := by
      rw [count, countP_append, countP_cons_of_pos (by simp [ispunct_not_digit punct.1]),
        countP_append, countP_cons_of_pos (by simp [ispunct_not_digit punct.2]),
        countP_digits years.1, countP_digits months.1, countP_digits days.1]
    have read := readSeparated_eq years.1 months.1 days.1 punct stops
    rw [yearNumber_wrap years.1 hsm.1, wrap32_number hsm.2.1, wrap32_number hsm.2.2] at read
    rw [dateFields, if_neg (by omega), if_pos two, append_assoc, cons_append,
      append_assoc, cons_append, read] at fields
    cases fields
    exact ⟨rfl, rfl, rfl⟩
  | @compact ys ms ds time digits years months days times =>
    have none : k = 0 := by rw [count, countP_digits digits]
    obtain ⟨yearDigits, hbe⟩ := digits_append.mp digits
    obtain ⟨monthDigits, hbe⟩ := digits_append.mp hbe
    obtain ⟨dayDigits, -⟩ := digits_append.mp hbe
    have hne : ys ≠ [] := fun hem => by simp [hem] at years
    have read := readCompact_eq (time ++ rest) ⟨yearDigits, hne⟩
      ⟨monthDigits, months⟩ ⟨dayDigits, days⟩
    have year := yearNumber_wrap yearDigits hsm.1
    rw [wrap32_number hsm.2.1, wrap32_number hsm.2.2] at read
    simp only [length_append] at stop
    rw [dateFields, if_pos none] at fields
    simp only [append_assoc] at fields
    rcases years with two | four
    · rw [two] at read
      rw [if_pos two] at year
      rw [if_pos (by omega), read] at fields
      simp only [Option.some.injEq] at fields
      simp [← fields, year, and_self]
    rw [four] at read
    rw [if_neg (by omega)] at year
    rw [if_neg (by omega), if_pos (by omega), read] at fields
    simp only [Option.some.injEq] at fields
    simp [← fields, year, and_self]

/-- The date that is kept for a text is the one written in it. -/
def KeepsText (input : List Char) (date : Date) : Prop :=
  ∃ y m d, DateWritten (datePart input) y m d ∧ Stored y m d date

/-- No number is too large for 32 bits, and a zero year and month have a zero day. -/
def Plain (input : List Char) : Prop :=
  ∃ y m d, DateWritten (datePart input) y m d ∧ (y < 2 ^ 31 ∧ m < 2 ^ 31 ∧ d < 2 ^ 31) ∧
    (y = 0 → m = 0 → d = 0)

variable {dt output : DateTime} {isDate : Bool}

lemma readTime_date {time : List Char} (read : readTime time output = some dt) :
    dt.date = output.date := by
  rw [readTime] at read
  split at read
  · cases read
  dsimp only at read
  split at read
  · cases read
  split at read
  · cases read
  · split_ifs at read
    cases read
    rfl

variable (ok : mysqlStrToDatetime input output = (dt, some isDate))
include ok

/-- What a call that succeeds has scanned, read, checked and stored. -/
lemma mysqlStrToDatetime_some :
    ∃ e k f, scanDate input 0 0 = some (e, k) ∧ dateFields input e k = some f ∧
      isDateValid f.day f.month f.year = true ∧
      dt.date = ⟨0x3E, .ofInt 6 f.day, .ofInt 4 f.month, .ofInt 16 f.year⟩ := by
  rw [mysqlStrToDatetime] at ok
  split at ok
  · cases ok
  next e k scan =>
  split at ok
  · cases ok
  next f fields =>
  split_ifs at ok with hv
  · refine ⟨e, k, f, scan, fields, hv, ?_⟩
    dsimp only at ok
    split at ok
    · cases ok
      rfl
    split at ok
    · next read =>
      cases ok
      exact readTime_date read
    · cases ok
  · cases ok

lemma keepsText_iff : KeepsText input dt.date ↔ Plain input := by
  constructor
  · rintro ⟨y, m, d, hwr, hsto⟩
    have year := hsto.year
    have month := hsto.month
    have day := hsto.day
    refine ⟨y, m, d, hwr, by omega, ?_⟩
    intro noYear noMonth
    rcases hsto.zero_or with zero | calendar
    · exact zero.2.2
    · have := calendar.year
      omega
  · rintro ⟨y, m, d, hwr, hsm, zero⟩
    obtain ⟨e, k, f, scan, fields, hv, date⟩ := mysqlStrToDatetime_some ok
    obtain ⟨rfl, rfl, rfl⟩ := dateFields_written hwr scan fields hsm
    exact ⟨_, _, _, hwr, stored_of_valid hv zero (by rw [date]) (by rw [date]) (by rw [date])⟩

end Texts

section Packing

lemma Date.ofBits_bits (date : Date) : Date.ofBits date.bits = { date with spare := 0x3E } := by
  obtain ⟨spare, day, month, year⟩ := date
  simp only [Date.ofBits, Date.bits, Date.mk.injEq, true_and, ← BitVec.toNat_inj,
    BitVec.toNat_ofNat]
  omega

lemma DateTime.ofBits_bits (dt : DateTime) : DateTime.ofBits dt.bits = dt := by
  obtain ⟨msecond, second, minute, hour, day, month, year⟩ := dt
  simp only [DateTime.ofBits, DateTime.bits, DateTime.mk.injEq, ← BitVec.toNat_inj,
    BitVec.toNat_ofNat]
  omega

/-- The fields of a datetime that is returned as a signed integer. -/
def DateTime.ofValue (value : Int) : DateTime := .ofBits (value % 2 ^ 64).toNat

lemma DateTime.ofValue_wrap64 (dt : DateTime) : DateTime.ofValue (wrap64 dt.bits) = dt := by
  have bound : dt.bits < 2 ^ 64 := by
    rw [DateTime.bits]
    omega
  have he : (wrap64 dt.bits % 2 ^ 64).toNat = dt.bits := by
    rw [wrap64, Int.bmod_def]
    split <;> omega
  rw [DateTime.ofValue, he, DateTime.ofBits_bits]

variable {input : List Char}

lemma stringToDate_ok (ok : stringToDate input ≠ -1) :
    ∃ dt isDate, mysqlStrToDatetime input .null = (dt, some isDate) ∧
      Date.ofBits (stringToDate input).toNat = dt.date := by
  rw [stringToDate, stringToDateStruct] at ok ⊢
  generalize mysqlStrToDatetime input .null = result at ok ⊢
  obtain ⟨dt, _ | isDate⟩ := result
  · exact absurd rfl ok
  refine ⟨dt, isDate, rfl, ?_⟩
  have low : dt.date.spare.toNat = 0x3E := rfl
  have he : ((dt.date.bits / 2 ^ 6 * 2 ^ 6 + 0x3E : Nat) : Int).toNat = dt.date.bits := by
    rw [Date.bits, low]
    omega
  exact (congrArg Date.ofBits he).trans (Date.ofBits_bits dt.date)

lemma stringToDatetime_ok (ok : (stringToDatetime input).1 ≠ -1) :
    ∃ dt isDate, mysqlStrToDatetime input .null = (dt, some isDate) ∧
      (DateTime.ofValue (stringToDatetime input).1).date = dt.date := by
  rw [stringToDatetime, stringToDatetimeStruct] at ok ⊢
  generalize mysqlStrToDatetime input .null = result at ok ⊢
  obtain ⟨dt, _ | _ | _⟩ := result
  · exact absurd rfl ok
  · exact ⟨dt, false, rfl, by simp only [DateTime.ofValue_wrap64]⟩
  · refine ⟨dt, true, rfl, ?_⟩
    simp only [DateTime.ofValue_wrap64]
    rfl

end Packing

section Numbers

variable {thisYear : Int}

/-- The integers in the digits of a number. The digits of a fraction of a second may follow
those of a full time. -/
inductive IntWritten (thisYear : Int) : Int → Int → Int → Int → Prop
  | zero : IntWritten thisYear 0 0 0 0
  | dated {n : Nat} {ys ms ds time : List Char} (positive : 0 < n)
      (text : Nat.toDigits 10 n = ys ++ (ms ++ (ds ++ time)))
      (years : ys.length = 2 ∧ (time.length = 0 ∨ time.length = 6) ∨
        ys.length = 4 ∧ (time.length = 0 ∨ 6 ≤ time.length))
      (months : ms.length = 2) (days : ds.length = 2) :
      IntWritten thisYear n (yearNumber ys) (number ms) (number ds)
  | yearless {n : Nat} {ms ds time : List Char} (positive : 0 < n)
      (text : Nat.toDigits 10 n = ms ++ (ds ++ time)) (months : ms.length = 1 ∨ ms.length = 2)
      (days : ds.length = 2) (times : time.length = 0 ∨ time.length = 6) :
      IntWritten thisYear n thisYear (number ms) (number ds)

def KeepsInt (thisYear data : Int) (date : Date) : Prop :=
  ∃ y m d, IntWritten thisYear data y m d ∧ Stored y m d date

lemma KeepsInt.nonneg {data : Int} {date : Date} (keeps : KeepsInt thisYear data date) :
    0 ≤ data := by
  obtain ⟨y, m, d, hwr, -⟩ := keeps
  cases hwr <;> omega

/-- How the text of the buffer is cut into fields. -/
lemma intFields_some {buf : List Char} {f : IntFields} (fields : intFields buf = some f) :
    ∃ time, buf = f.year ++ (f.month ++ (f.day ++ time)) ∧ f.day.length = 2 ∧
      (time.length = 0 ∨ time.length = 6) ∧
      ((f.year.length = 2 ∨ f.year.length = 4) ∧ f.month.length = 2 ∨
        f.year = [] ∧ (f.month.length = 1 ∨ f.month.length = 2)) := by
  have cut : ∀ a b, buf = (buf.drop 0).take a ++ ((buf.drop a).take b ++
      ((buf.drop (a + b)).take 2 ++ buf.drop (a + b + 2))) := by
    intro a b
    simp
  rw [intFields] at fields
  split at fields
  case h_1 | h_5 => cases fields; exact ⟨_, cut 4 2, by simp; omega, by simp; omega, by simp; omega⟩
  case h_2 | h_6 => cases fields; exact ⟨_, cut 2 2, by simp; omega, by simp; omega, by simp; omega⟩
  case h_3 | h_7 => cases fields; exact ⟨_, cut 0 2, by simp; omega, by simp; omega, by simp; omega⟩
  case h_4 | h_8 => cases fields; exact ⟨_, cut 0 1, by simp; omega, by simp; omega, by simp; omega⟩
  case h_9 => cases fields

/-- The date of the digits of a positive number that pass the check. -/
lemma intFields_written {n : Nat} {f : IntFields} (hp : 0 < n)
    (fields : intFields ((Nat.toDigits 10 n).take 14) = some f) {y : Int}
    (year : y = if f.year = [] then thisYear else number f.year)
    (hv : isDateValid (number f.day) (number f.month) y = true) :
    IntWritten thisYear n y (number f.month) (number f.day) ∧ ¬(y = 0 ∧ number f.month = 0) := by
  obtain ⟨time, buf, days, times, shape⟩ := intFields_some fields
  have text : Nat.toDigits 10 n =
      f.year ++ (f.month ++ (f.day ++ (time ++ (Nat.toDigits 10 n).drop 14))) := by
    have parts := take_append_drop 14 (Nat.toDigits 10 n)
    rw [buf] at parts
    simpa only [append_assoc] using parts.symm
  have digits := text ▸ digits_toDigits n
  -- Only a text of full length can have lost digits.
  have lengths := congrArg List.length buf
  rw [length_take] at lengths
  simp only [length_append] at lengths
  have lost : ((Nat.toDigits 10 n).drop 14).length = (Nat.toDigits 10 n).length - 14 := length_drop
  generalize (Nat.toDigits 10 n).drop 14 = rest at text digits lost
  have hbe : (time ++ rest).length = time.length + rest.length := length_append
  rcases shape with ⟨years, months⟩ | ⟨none, months⟩
  · have hne : f.year ≠ [] := fun hem => by simp [hem] at years
    have leading := number_leading_pos hp hne text
    have yearDigits := number_lt (digits_append.mp digits).1
    rw [if_neg hne] at year
    have four : f.year.length = 4 := by
      rcases years with two | four
      · rw [two] at yearDigits
        rcases isDateValid_iff.mp hv with zero | calendar
        · omega
        · have := calendar.year
          omega
      · exact four
    have hwr : IntWritten thisYear n _ _ _ := .dated hp text (.inr ⟨four, by omega⟩) months days
    rw [yearNumber, if_neg (by omega), ← year] at hwr
    exact ⟨hwr, by omega⟩
  · rw [if_pos none] at year
    rw [none, nil_append] at text
    rw [none, length_nil] at lengths
    have hne : f.month ≠ [] := fun hem => by simp [hem] at months
    have leading := number_leading_pos hp hne text
    rw [year]
    exact ⟨.yearless hp text months days (by omega), by omega⟩

/-- A number that is not negative has the digits that are printed. -/
lemma keepsInt_of_intDatetime {data : BitVec 64} {dt : DateTime} {isDate : Bool}
    (nonzero : data ≠ 0) (ok : intDatetime thisYear data = some (dt, isDate))
    (hnn : 0 ≤ data.toInt) : KeepsInt thisYear data.toInt dt.date := by
  have he : data.toInt = data.toNat := by
    rw [BitVec.toInt_eq_toNat_cond] at hnn ⊢
    split_ifs at hnn ⊢ <;> omega
  have hp : 0 < data.toNat := Nat.pos_of_ne_zero (fun zero => nonzero (BitVec.eq_of_toNat_eq zero))
  rw [intDatetime, printed] at ok
  split at ok
  · cases ok
  next f fields =>
  dsimp only at ok
  generalize year : (if f.year = [] then thisYear else (number f.year : Int)) = y at ok
  split_ifs at ok with invalid
  rw [Bool.not_eq_true, Bool.or_eq_false_iff, Bool.not_eq_false', Bool.not_eq_false'] at invalid
  obtain ⟨hwr, nonzero⟩ := intFields_written hp fields year.symm invalid.1
  cases ok
  rw [he]
  exact ⟨_, _, _, hwr, stored_of_valid invalid.1 (by omega) rfl rfl rfl⟩

end Numbers

section Results

variable {thisYear : Int} {data : BitVec 64}

lemma intToDate_ok (ok : intToDate thisYear data ≠ -1) (hnn : 0 ≤ data.toInt) :
    KeepsInt thisYear data.toInt (Date.ofBits (intToDate thisYear data).toNat) := by
  by_cases zero : data = 0
  · rw [intToDate, if_pos zero, zero]
    exact ⟨0, 0, 0, .zero, by decide, by decide, by decide, .inl ⟨rfl, rfl, rfl⟩⟩
  rw [intToDate, if_neg zero] at ok ⊢
  cases read : intDatetime thisYear data with
  | none =>
    rw [read] at ok
    exact absurd rfl ok
  | some result =>
    have keeps := keepsInt_of_intDatetime zero read hnn
    have he := Date.ofBits_bits result.1.date
    exact he ▸ keeps

lemma intToDatetime_ok (ok : (intToDatetime thisYear data).1 ≠ -1) (hnn : 0 ≤ data.toInt) :
    KeepsInt thisYear data.toInt (DateTime.ofValue (intToDatetime thisYear data).1).date := by
  by_cases zero : data = 0
  · rw [intToDatetime, if_pos zero, zero]
    exact ⟨0, 0, 0, .zero, by decide, by decide, by decide, .inl ⟨rfl, rfl, rfl⟩⟩
  rw [intToDatetime, if_neg zero] at ok ⊢
  cases read : intDatetime thisYear data with
  | none =>
    rw [read] at ok
    exact absurd rfl ok
  | some result =>
    have keeps := keepsInt_of_intDatetime zero read hnn
    simpa only [DateTime.ofValue_wrap64] using keeps

/-- A call that succeeds keeps the date that is written, exactly if the text is plain and the
number is not negative. -/
theorem dates_kept_iff (input : List Char) (output : DateTime) (thisYear : Int)
    (data : BitVec 64) : (∀ dt isDate, mysqlStrToDatetime input output = (dt, some isDate) →
      (KeepsText input dt.date ↔ Plain input)) ∧
    (stringToDate input ≠ -1 →
      (KeepsText input (.ofBits (stringToDate input).toNat) ↔ Plain input)) ∧
    ((stringToDatetime input).1 ≠ -1 →
      (KeepsText input (DateTime.ofValue (stringToDatetime input).1).date ↔ Plain input)) ∧
    (intToDate thisYear data ≠ -1 →
      (KeepsInt thisYear data.toInt (.ofBits (intToDate thisYear data).toNat) ↔ 0 ≤ data.toInt)) ∧
    ((intToDatetime thisYear data).1 ≠ -1 →
      (KeepsInt thisYear data.toInt (DateTime.ofValue (intToDatetime thisYear data).1).date ↔
        0 ≤ data.toInt)) := by
  refine ⟨fun dt isDate ok => keepsText_iff ok, ?_, ?_, ?_, ?_⟩
  · intro ok
    obtain ⟨dt, isDate, read, date⟩ := stringToDate_ok ok
    rw [date]
    exact keepsText_iff read
  · intro ok
    obtain ⟨dt, isDate, read, date⟩ := stringToDatetime_ok ok
    rw [date]
    exact keepsText_iff read
  · intro ok
    exact ⟨KeepsInt.nonneg, intToDate_ok ok⟩
  · intro ok
    exact ⟨KeepsInt.nonneg, intToDatetime_ok ok⟩

theorem leap_day_kept :
    KeepsText ['2', '0', '1', '6', '-', '0', '2', '-', '2', '9'] ⟨0x3E, 29, 2, 2016⟩ ∧
      KeepsInt 2020 229 ⟨0x3E, 29, 2, 2020⟩ := by
  have results := dates_kept_iff ['2', '0', '1', '6', '-', '0', '2', '-', '2', '9'] .null 2020 229
  have digits : Digits ['2', '0', '1', '6'] ∧ Digits ['0', '2'] ∧ Digits ['2', '9'] := by
    simp [Digits]
  have written : DateWritten ['2', '0', '1', '6', '-', '0', '2', '-', '2', '9'] 2016 2 29 :=
    .separated ⟨digits.1, by decide⟩ ⟨digits.2.1, by decide⟩ ⟨digits.2.2, by decide⟩
      ⟨by decide, by decide⟩
  exact ⟨(results.1 _ true rfl).mpr ⟨2016, 2, 29, written, by decide, by decide⟩,
    (results.2.2.2.1 (by decide)).mpr (by decide)⟩

/-- The fifth day of the zero month of the zero year is accepted and kept. -/
theorem zero_month_day_kept :
    stringToDate ['0', '0', '0', '0', '-', '0', '0', '-', '0', '5'] = 5 * 2 ^ 6 + 0x3E ∧
    ¬KeepsText ['0', '0', '0', '0', '-', '0', '0', '-', '0', '5']
      (.ofBits (stringToDate ['0', '0', '0', '0', '-', '0', '0', '-', '0', '5']).toNat) := by
  have value : stringToDate ['0', '0', '0', '0', '-', '0', '0', '-', '0', '5'] = 382 := by decide
  refine ⟨value, ?_⟩
  rintro ⟨y, m, d, -, stored⟩
  rw [value] at stored
  have year : 0 = y := stored.year
  have day : 5 = d := stored.day
  rcases stored.zero_or with zero | calendar
  · omega
  · have := calendar.year
    omega

end Results

end DataConvert
