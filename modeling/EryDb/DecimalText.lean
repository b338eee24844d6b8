import EryDb.BrmTypes
import EryDb.DigitStrings

/-!
# Decimal numbers as text

Bulk load and DML each have their own way from a decimal number in text to the scaled integer a
decimal column stores. `convertDecimalString` cuts or pads the fraction to the scale and looks
at the next digit; `numberIntValue` also takes parentheses and an exponent, moves the point
in the text and converts what stands before it. Positions and lengths in a string are natural
numbers; a sum of 64-bit integers wraps.
-/

namespace DataConvert

open BrmTypes DigitStrings

inductive FormatError where
  | unmatchedOpen
  | unmatchedClose
  | notNumerical
  | invalid
  | outOfRange
  deriving DecidableEq

/-- The text of the exception; the last one is thrown by the string itself. -/
def FormatError.message : FormatError → String
  | .unmatchedOpen => "'(' is not matched."
  | .unmatchedClose => "')' is not matched."
  | .notNumerical => "value is not numerical."
  | .invalid => "value is invalid."
  | .outOfRange => "basic_string"

def wrap64 (n : Int) : Int := n.bmod (2 ^ 64)

def find (c : Char) (s : List Char) : Option Nat := s.findIdx? (fun d => d == c)

def insertAt (pos : Nat) (t s : List Char) : List Char := s.take pos ++ t ++ s.drop pos

/-- The rounding of bulk load: the first digit behind the scale decides, the first character
that is not blank has the sign. -/
def roundOff (field : List Char) (posDecPt scale : Nat) : Int :=
  match field[posDecPt + 1 + scale]? with
  | none => 0
  | some roundOffDigit =>
    if '4' < roundOffDigit ∧ roundOffDigit ≤ '9' then
      if (field.dropWhile isspace).head? = some '-' then -1 else 1
    else 0

/-- What stands before and behind the decimal point, and the rounding. -/
def splitField (field : List Char) (scale : Nat) : List Char × List Char × Int :=
  match find '.' field with
  | some posDecPt =>
    (field.take posDecPt, field.drop (posDecPt + 1), roundOff field posDecPt scale)
  | none => (field, [], 0)

/-- The answer is the value with whether `errno` is `ERANGE`. -/
def convertDecimalString (field : List Char) (scale : Nat) : Int × Bool :=
  let (before, fraction, roundUp) := splitField field scale
  let digits := fraction.take scale
  let data := before ++ digits ++ List.replicate (scale - digits.length) '0'
  let llVal := strtoll data
  if llVal.outOfRange then (llVal.value, true) else (wrap64 (llVal.value + roundUp), false)

/-- The value, with whether it was saturated. -/
def stringToLl (data : List Char) : Except FormatError (Int × Bool) :=
  let c := strtoll data
  if c.rest = data ∨ c.rest ≠ [] then .error .notNumerical else .ok (c.value, c.outOfRange)

/-- Matched parentheses are dropped, the first ones of each kind at a time. -/
def stripParentheses : Nat → List Char → Except FormatError (List Char)
  | 0, valStr => .ok valStr
  | fuel + 1, valStr =>
    match find '(' valStr, find ')' valStr with
    | some _, none => .error .unmatchedOpen
    | some x, some y => stripParentheses fuel ((valStr.eraseIdx y).eraseIdx x)
    | none, some _ => .error .unmatchedClose
    | none, none => .ok valStr

/-- The point of a coefficient without one is moved to the left, over zeros if need be. -/
def shiftPoint (coef : List Char) (mpos : Nat) : Except FormatError (List Char) :=
  let epos := coef.length
  match coef.findIdx? Char.isDigit with
  | some bpos =>
    let padding := mpos - (epos - bpos)
    if 0 < padding then .ok (insertAt bpos ('.' :: List.replicate padding '0') coef)
    else .ok (insertAt (epos - mpos) ['.'] coef)
  | none =>
    if mpos ≤ epos then .ok (insertAt (epos - mpos) ['.'] coef) else .error .outOfRange

/-- The coefficient without its point, and the exponent that makes up for it. -/
def dropPoint (coef : List Char) (exponent : Int) : List Char × Int :=
  match find '.' coef with
  | some dpos => (coef.eraseIdx dpos, exponent - (coef.length - 1 - dpos : Nat))
  | none => (coef, exponent)

def fixedPoint (valStr : List Char) : Except FormatError (List Char) :=
  match (find 'E' valStr).orElse fun _ => find 'e' valStr with
  | none => .ok valStr
  | some epos => do
      let (exponent, overflow) ← stringToLl (valStr.drop (epos + 1))
      if overflow then .error .invalid
      else
        let (coef, exponent) := dropPoint (valStr.take epos) exponent
        if 0 ≤ exponent then .ok (coef ++ List.replicate exponent.toNat '0')
        else shiftPoint coef (-exponent).toNat

/-- The point is moved to the right by the scale; a negative scale leaves the number alone. -/
def applyScale (scale : Int) (valStr : List Char) : List Char :=
  if scale = 0 then valStr
  else
    let n := scale.toNat
    let (intPart, leftStr) := match find '.' valStr with
      | some dpos =>
        let fraction := valStr.drop (dpos + 1)
        if 0 < scale then
          let frnStr := fraction.take n
          (valStr.take dpos ++ frnStr ++ List.replicate (n - frnStr.length) '0', fraction.drop n)
        else (valStr.take dpos, fraction)
      | none => (valStr ++ List.replicate n '0', [])
    if leftStr = [] then intPart else intPart ++ '.' :: leftStr

structure ColType where
  colDataType : ColDataType
  colWidth : Nat
  scale : Int
  precision : Nat

/-- Limits of a value, with whether it was cut to them. -/
def saturated (lo hi : Int) (v : Int × Bool) : Int × Bool :=
  if v.1 < lo then (lo, true) else if hi < v.1 then (hi, true) else v

def minTinyint : Int := -126
def maxTinyint : Int := 127
def minSmallint : Int := -32766
def maxSmallint : Int := 32767
def minInt : Int := -2147483646
def maxInt : Int := 2147483647
def minBigint : Int := -9223372036854775806
def maxBigint : Int := 9223372036854775807

/-- A width other than these four has no limits of its own. -/
def saturatedWidth (width : Nat) (v : Int × Bool) : Int × Bool :=
  match width with
  | 1 => saturated minTinyint maxTinyint v
  | 2 => saturated minSmallint maxSmallint v
  | 4 => saturated minInt maxInt v
  | 8 => saturated minBigint maxBigint v
  | _ => v

def saturatedType (ct : ColType) (v : Int × Bool) : Int × Bool :=
  match ct.colDataType with
  | .tinyint => saturatedWidth 1 v
  | .smallint => saturatedWidth 2 v
  | .medint | .int => saturatedWidth 4 v
  | .bigint => saturatedWidth 8 v
  | .decimal | .udecimal => saturatedWidth ct.colWidth v
  | _ => v

def precisions : List Int :=
  [0, 9, 99, 999, 9999, 99999, 999999, 9999999, 99999999, 999999999, 9999999999, 99999999999,
    999999999999, 9999999999999, 99999999999999, 999999999999999, 9999999999999999,
    99999999999999999, 999999999999999999]

def erydbPrecision (precision : Nat) : Int := precisions.getD precision 0

def saturatedPrecision (ct : ColType) (v : Int × Bool) : Int × Bool :=
  if ct.colDataType = .decimal ∨ ct.colDataType = .udecimal ∨ 0 < ct.scale then
    saturated (-erydbPrecision ct.precision) (erydbPrecision ct.precision) v
  else v

/-- The text before the point is given a zero if it has no digit. -/
def integerPart (intStr : List Char) : List Char :=
  if intStr = [] then ['0']
  else if intStr = ['+'] ∨ intStr = ['-'] then intStr ++ ['0']
  else intStr

/-- The integer of a text with or without a point, rounded, with the warning. -/
def toInteger (valStr : List Char) (pushwarning noRoundup : Bool) :
    Except FormatError (Int × Bool) :=
  match find '.' valStr with
  | none => do
      let (intVal, cut) ← stringToLl valStr
      pure (intVal, pushwarning || cut)
  | some dp => do
      let frnStr := valStr.drop (dp + 1)
      let (frac1, cut₁) ← stringToLl (frnStr.take 1)
      let roundup : Int := if !noRoundup ∧ 5 ≤ frac1 then 1 else 0
      let (intVal, cut₂) ← stringToLl (integerPart (valStr.take dp))
      let intVal := wrap64 (intVal + if 0 ≤ intVal then roundup else -roundup)
      let frnVal ← if frnStr = [] then pure 0 else Prod.fst <$> stringToLl frnStr
      pure (intVal, pushwarning || cut₁ || cut₂ || decide (frnVal ≠ 0))

def numberIntValue (data : List Char) (ct : ColType) (pushwarning noRoundup : Bool) :
    Except FormatError (Int × Bool) := do
  let valStr ← stripParentheses (data.length + 1) data
  let valStr ← fixedPoint valStr
  let v ← toInteger (applyScale ct.scale valStr) pushwarning noRoundup
  pure (saturatedPrecision ct (saturatedType ct v))

end DataConvert
