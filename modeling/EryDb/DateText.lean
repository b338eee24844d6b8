import EryDb.DecimalText

/-!
# Dates and times as text

`mysqlStrToDatetime` reads a date, with or without separators, and perhaps a time behind it. The
numbers are accumulated in 32-bit integers that wrap, checked, and stored in bit fields.
`intToDate` and `intToDatetime` read the digits of a number, of which there is room for
fourteen; without a year they take that of the clock. A string is its list of characters,
positions in it are natural numbers.
-/

namespace DataConvert

open DigitStrings
open BrmTypes (wrap32)

structure Date where
  spare : BitVec 6
  day : BitVec 6
  month : BitVec 4
  year : BitVec 16

structure DateTime where
  msecond : BitVec 20
  second : BitVec 6
  minute : BitVec 6
  hour : BitVec 6
  day : BitVec 6
  month : BitVec 4
  year : BitVec 16

/-- The bit fields as one integer. -/
def Date.bits (d : Date) : Nat :=
  d.spare.toNat + d.day.toNat * 2 ^ 6 + d.month.toNat * 2 ^ 12 + d.year.toNat * 2 ^ 16

def DateTime.bits (d : DateTime) : Nat :=
  d.msecond.toNat + d.second.toNat * 2 ^ 20 + d.minute.toNat * 2 ^ 26 + d.hour.toNat * 2 ^ 32 +
    d.day.toNat * 2 ^ 38 + d.month.toNat * 2 ^ 44 + d.year.toNat * 2 ^ 48

/-- The constructors from a packed integer. -/
def Date.ofBits (val : Nat) : Date :=
  ⟨0x3E, .ofNat 6 (val / 2 ^ 6), .ofNat 4 (val / 2 ^ 12), .ofNat 16 (val / 2 ^ 16)⟩

def DateTime.ofBits (val : Nat) : DateTime :=
  ⟨.ofNat 20 val, .ofNat 6 (val / 2 ^ 20), .ofNat 6 (val / 2 ^ 26), .ofNat 6 (val / 2 ^ 32),
    .ofNat 6 (val / 2 ^ 38), .ofNat 4 (val / 2 ^ 44), .ofNat 16 (val / 2 ^ 48)⟩

/-- The constructor without arguments makes the null value, which `reset` restores. -/
def Date.null : Date := ⟨0x3E, 0x3F, 0xF, 0xFFFF⟩

def DateTime.null : DateTime := ⟨0xFFFFE, 0x3F, 0x3F, 0x3F, 0x3F, 0xF, 0xFFFF⟩

def DateTime.date (dt : DateTime) : Date := ⟨0x3E, dt.day, dt.month, dt.year⟩

def daysInMonth : List Nat := [31, 28, 31, 30, 31, 30, 31, 31, 30, 31, 30, 31, 0]

def getDaysInMonth (month : Int) : Int :=
  if month < 1 ∨ 12 < month then 0 else daysInMonth.getD (month - 1).toNat 0

def isLeapYear (year : Int) : Bool :=
  if year % 400 = 0 then true else decide (year % 4 = 0 ∧ year % 100 ≠ 0)

/-- The test for the zero date names the year twice and leaves the day out. -/
def isDateValid (day month year : Int) : Bool :=
  if year = 0 ∧ month = 0 ∧ year = 0 then true
  else
    let daycheck := if month = 2 ∧ isLeapYear year = true then 29 else getDaysInMonth month
    if year < 1000 ∨ 9999 < year then false
    else if month < 1 ∨ 12 < month then false
    else if day < 1 ∨ daycheck < day then false
    else true

def isDateTimeValid (hour minute second microSecond : Int) : Bool :=
  decide ((0 ≤ hour ∧ hour ≤ 24) ∧ (0 ≤ minute ∧ minute < 60) ∧ (0 ≤ second ∧ second < 60) ∧
    0 ≤ microSecond ∧ microSecond ≤ 999999)

structure Reading where
  value : Int
  numread : Nat
  rest : List Char

/-- At most `max` digits are read, or all of them if it is zero. -/
def readDecimalFrom (max : Nat) : List Char → Int → Nat → Reading
  | [], value, numread => ⟨value, numread, []⟩
  | c :: str, value, numread =>
    if (max = 0 ∨ numread < max) ∧ c.isDigit = true then
      readDecimalFrom max str (wrap32 (value * 10 + digit c)) (numread + 1)
    else ⟨value, numread, c :: str⟩

def readDecimal (str : List Char) (max : Nat) : Reading := readDecimalFrom max str 0 0

/-- The length of the date part and the number of separators in it. -/
def scanDate : List Char → Nat → Nat → Option (Nat × Nat)
  | [], dtend, datesepct => some (dtend, datesepct)
  | c :: rest, dtend, datesepct =>
    if c.isDigit = true then scanDate rest (dtend + 1) datesepct
    else if dtend ≠ 0 ∧ ispunct c = true then scanDate rest (dtend + 1) (datesepct + 1)
    else if c = 'T' ∨ c = ' ' then some (dtend, datesepct)
    else none

def twoDigitYear (year : Int) : Int := if 2069 < year + 2000 then year + 1900 else year + 2000

structure DateFields where
  year : Int
  month : Int
  day : Int
  dtend : Nat

/-- Three numbers that follow each other without a separator. -/
def readCompact (input : List Char) (yearDigits : Nat) : Int × Int × Int :=
  let year := readDecimal input yearDigits
  let mon := readDecimal year.rest 2
  let day := readDecimal mon.rest 2
  (year.value, mon.value, day.value)

/-- One character is skipped behind the year and behind the month. -/
def readSeparated (input : List Char) : Int × Int × Int :=
  let year := readDecimal input 0
  let mon := readDecimal (year.rest.drop 1) 0
  let day := readDecimal (mon.rest.drop 1) 0
  (if year.numread = 2 then twoDigitYear year.value else year.value, mon.value, day.value)

def dateFields (input : List Char) (dtend datesepct : Nat) : Option DateFields :=
  if datesepct = 0 then
    if dtend = 6 ∨ dtend = 12 then
      let (year, mon, day) := readCompact input 2
      some ⟨twoDigitYear year, mon, day, 6⟩
    else if dtend = 8 ∨ dtend = 14 then
      let (year, mon, day) := readCompact input 4
      some ⟨year, mon, day, 8⟩
    else none
  else if datesepct = 2 then
    let (year, mon, day) := readSeparated input
    some ⟨year, mon, day, dtend⟩
  else none

structure TimeScan where
  separators : Nat
  lenBeforeMsec : Nat
  hasUsec : Bool

/-- A point behind the second separator starts the fraction of a second. -/
def scanTime : List Char → Nat → TimeScan → Option TimeScan
  | [], _, scan => some scan
  | c :: rest, pos, scan =>
    if c.isDigit = true then scanTime rest (pos + 1) scan
    else if ispunct c = true then
      if c = '.' ∧ scan.separators = 2 then scanTime rest (pos + 1) ⟨2, pos, true⟩
      else scanTime rest (pos + 1) { scan with separators := scan.separators + 1 }
    else none

/-- Hour, minute and second, and what follows them. -/
def timeFields (time : List Char) (separators lenBeforeMsec : Nat) :
    Option (Int × Int × Int × List Char) :=
  if separators = 2 then
    let hour := readDecimal time 0
    let min := readDecimal (hour.rest.drop 1) 0
    let sec := readDecimal (min.rest.drop 1) 0
    some (hour.value, min.value, sec.value, sec.rest)
  else if separators = 1 then
    let hour := readDecimal time 0
    let min := readDecimal (hour.rest.drop 1) 0
    some (hour.value, min.value, 0, min.rest)
  else if separators = 0 ∧ lenBeforeMsec = 6 then
    let hour := readDecimal time 2
    let min := readDecimal hour.rest 2
    let sec := readDecimal min.rest 2
    some (hour.value, min.value, sec.value, sec.rest)
  else if separators = 0 ∧ lenBeforeMsec = 4 then
    let hour := readDecimal time 2
    let min := readDecimal hour.rest 2
    some (hour.value, min.value, 0, min.rest)
  else if separators = 0 ∧ lenBeforeMsec = 2 then
    let hour := readDecimal time 2
    some (hour.value, 0, 0, hour.rest)
  else none

def fraction (hasUsec : Bool) (rest : List Char) : Option Int :=
  if hasUsec then
    let usec := readDecimal (rest.drop 1) 0
    if 6 < usec.numread ∨ usec.numread < 1 then none
    else some (usec.value * 10 ^ (6 - usec.numread))
  else some 0

/-- The time fields of the output, or none if the time is refused. -/
def readTime (time : List Char) (output : DateTime) : Option DateTime :=
  match scanTime time 0 ⟨0, 0, false⟩ with
  | none => none
  | some scan =>
    let lenBeforeMsec := if scan.lenBeforeMsec = 0 then time.length else scan.lenBeforeMsec
    match timeFields time scan.separators lenBeforeMsec with
    | none => none
    | some (hour, min, sec, rest) =>
      match fraction scan.hasUsec rest with
      | none => none
      | some usec =>
        if isDateTimeValid hour min sec usec then
          some { output with
            hour := BitVec.ofInt 6 hour
            minute := BitVec.ofInt 6 min
            second := BitVec.ofInt 6 sec
            msecond := BitVec.ofInt 20 usec }
        else none

/-- The output, and whether it is a date without a time; none if the call fails, which also
resets the output. -/
def mysqlStrToDatetime (input : List Char) (output : DateTime) : DateTime × Option Bool :=
  match scanDate input 0 0 with
  | none => (.null, none)
  | some (dtend, datesepct) =>
    match dateFields input dtend datesepct with
    | none => (.null, none)
    | some fields =>
      if isDateValid fields.day fields.month fields.year then
        let output := { output with
          year := BitVec.ofInt 16 fields.year
          month := BitVec.ofInt 4 fields.month
          day := BitVec.ofInt 6 fields.day }
        match (input.drop fields.dtend).dropWhile (fun c => c = ' ') with
        | [] => (output, some true)
        | c :: rest =>
          match readTime (if c = 'T' then rest else c :: rest) output with
          | some output => (output, some false)
          | none => (.null, none)
      else (.null, none)

def stringToDateStruct (data : List Char) (date : Date) : Option Date :=
  match mysqlStrToDatetime data .null with
  | (_, none) => none
  | (dt, some _) => some { date with year := dt.year, month := dt.month, day := dt.day }

/-- The flag is what the call stores through `date`, which it leaves alone if there is a time. -/
def stringToDatetimeStruct (data : List Char) (dtime : DateTime) : Option (DateTime × Bool) :=
  match mysqlStrToDatetime data dtime with
  | (_, none) => none
  | (dt, some true) => some ({ dt with hour := 0, minute := 0, second := 0, msecond := 0 }, true)
  | (dt, some false) => some (dt, false)

def stringToDate (data : List Char) : Int :=
  match stringToDateStruct data .null with
  | some aDay => aDay.bits / 2 ^ 6 * 2 ^ 6 + 0x3E
  | none => -1

def stringToDatetime (data : List Char) : Int × Bool :=
  match stringToDatetimeStruct data .null with
  | some (dtime, date) => (wrap64 dtime.bits, date)
  | none => (-1, false)

/-- The buffer holds the first fourteen digits of the number, taken as unsigned. -/
def printed (data : BitVec 64) : List Char := (Nat.toDigits 10 data.toNat).take 14

structure IntFields where
  year : List Char
  month : List Char
  day : List Char
  hour : List Char
  min : List Char
  sec : List Char
  isDate : Bool

/-- The microseconds lie behind the end of the buffer's text and are zero. -/
def intFields (buf : List Char) : Option IntFields :=
  let field (pos len : Nat) := (buf.drop pos).take len
  match buf.length with
  | 14 => some ⟨field 0 4, field 4 2, field 6 2, field 8 2, field 10 2, field 12 2, false⟩
  | 12 => some ⟨field 0 2, field 2 2, field 4 2, field 6 2, field 8 2, field 10 2, false⟩
  | 10 => some ⟨[], field 0 2, field 2 2, field 4 2, field 6 2, field 8 2, false⟩
  | 9 => some ⟨[], field 0 1, field 1 2, field 3 2, field 5 2, field 7 2, false⟩
  | 8 => some ⟨field 0 4, field 4 2, field 6 2, [], [], [], true⟩
  | 6 => some ⟨field 0 2, field 2 2, field 4 2, [], [], [], true⟩
  | 4 => some ⟨[], field 0 2, field 2 2, [], [], [], false⟩
  | 3 => some ⟨[], field 0 1, field 1 2, [], [], [], true⟩
  | _ => none

/-- The fields as numbers, with the clock's year for a missing one, if they pass both checks. -/
def intDatetime (thisYear : Int) (data : BitVec 64) : Option (DateTime × Bool) :=
  match intFields (printed data) with
  | none => none
  | some f =>
    let y : Int := if f.year = [] then thisYear else number f.year
    let m : Int := number f.month
    let d : Int := number f.day
    let h : Int := number f.hour
    let minute : Int := number f.min
    let s : Int := number f.sec
    if !isDateValid d m y || !isDateTimeValid h minute s 0 then none
    else some (⟨0, .ofInt 6 s, .ofInt 6 minute, .ofInt 6 h, .ofInt 6 d, .ofInt 4 m,
      .ofInt 16 y⟩, f.isDate)

def intToDate (thisYear : Int) (data : BitVec 64) : Int :=
  if data = 0 then (Date.mk 0x3E 0 0 0).bits
  else
    match intDatetime thisYear data with
    | none => -1
    | some (dt, _) => dt.date.bits

def intToDatetime (thisYear : Int) (data : BitVec 64) : Int × Bool :=
  if data = 0 then (wrap64 (DateTime.mk 0 0 0 0 0 0 0).bits, true)
  else
    match intDatetime thisYear data with
    | none => (-1, false)
    | some (dt, isDate) => (wrap64 dt.bits, isDate)

/-- Leading blanks are skipped. -/
def columnText (dataOrg : List Char) : List Char := dataOrg.dropWhile (fun c => c = ' ')

def columnNumber (p : List Char) (pos len : Nat) : Int := (strtoll ((p.drop pos).take len)).value

/-- The value and the status of the conversion. -/
def convertColumnDate (dataOrg : List Char) : Int × Int :=
  let p := columnText dataOrg
  if p.length < 10 then (0, -1)
  else
    let inYear := columnNumber p 0 4
    let inMonth := columnNumber p 5 2
    let inDay := columnNumber p 8 2
    if isDateValid inDay inMonth inYear then
      (wrap32 (Date.mk 0x3E (.ofInt 6 inDay) (.ofInt 4 inMonth) (.ofInt 16 inYear)).bits, 0)
    else (0, -1)

def isColumnDateValid (date : Int) : Bool :=
  let d := Date.ofBits (date % 2 ^ 32).toNat
  isDateValid d.day.toNat d.month.toNat d.year.toNat

def isDigitAt (p : List Char) (pos : Nat) : Bool := (p.getD pos '\x00').isDigit

/-- Hour, minute, second and microsecond; none if a character of the time is no digit. -/
def columnTime (p : List Char) : Option (Int × Int × Int × Int) :=
  if p.length ≤ 12 then some (0, 0, 0, 0)
  else if (!isDigitAt p 11 && p.getD 11 '\x00' ≠ ' ') || !isDigitAt p 12 then none
  else if p.length ≤ 15 then some (columnNumber p 11 2, 0, 0, 0)
  else if !isDigitAt p 14 || !isDigitAt p 15 then none
  else if p.length ≤ 18 then some (columnNumber p 11 2, columnNumber p 14 2, 0, 0)
  else if !isDigitAt p 17 || !isDigitAt p 18 then none
  else
    let micro := if 20 < p.length then columnNumber p 20 9 else 0
    some (columnNumber p 11 2, columnNumber p 14 2, columnNumber p 17 2, micro)

def convertColumnDatetime (dataOrg : List Char) : Int × Int :=
  let p := columnText dataOrg
  if p.length < 10 then (0, -1)
  else
    let inYear := columnNumber p 0 4
    let inMonth := columnNumber p 5 2
    let inDay := columnNumber p 8 2
    match columnTime p with
    | none => (0, -1)
    | some (inHour, inMinute, inSecond, inMicrosecond) =>
      if isDateValid inDay inMonth inYear &&
          isDateTimeValid inHour inMinute inSecond inMicrosecond then
        (wrap64 (DateTime.mk (.ofInt 20 inMicrosecond) (.ofInt 6 inSecond) (.ofInt 6 inMinute)
          (.ofInt 6 inHour) (.ofInt 6 inDay) (.ofInt 4 inMonth) (.ofInt 16 inYear)).bits, 0)
      else (0, -1)

def isColumnDateTimeValid (dateTime : Int) : Bool :=
  let dt := DateTime.ofBits (dateTime % 2 ^ 64).toNat
  isDateValid dt.day.toNat dt.month.toNat dt.year.toNat &&
    isDateTimeValid dt.hour.toNat dt.minute.toNat dt.second.toNat dt.msecond.toNat

end DataConvert
