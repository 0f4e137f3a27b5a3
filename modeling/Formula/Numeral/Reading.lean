import Formula.Binary64.Rounding

/-!
# Reading numerals

Integer numerals are an optional sign and digits. Real numerals have digits with
at most one point among them, and an optional exponent; the names of infinity
and of not-a-number are real numerals too. Reading rounds correctly.
-/

namespace Formula

namespace Numeral

/-- Splits a sign off; the flag tells a minus. -/
def splitSign : List Char → Bool × List Char
  | '+' :: text => (false, text)
  | '-' :: text => (true, text)
  | text => (false, text)

/-- The value of a nonempty run of decimal digits. -/
def natural? (text : List Char) : Option Nat :=
  if text.isEmpty || !text.all Char.isDigit then none
  else some (Nat.ofDigitChars 10 text 0)

/-- The value of an optional sign and a nonempty run of digits. -/
def integer? (text : List Char) : Option Int :=
  let (negative, digits) := splitSign text
  (natural? digits).map fun n => if negative then -(n : Int) else n

/-- A 64-bit integer; numerals outside its range are refused. -/
def int64? (text : List Char) : Option Int64 :=
  (integer? text).bind fun n =>
    if Int64.minValue.toInt ≤ n ∧ n ≤ Int64.maxValue.toInt then some (Int64.ofInt n) else none

/-- A mark of an exponent. -/
def isExponentMark (c : Char) : Bool := c == 'e' || c == 'E'

/-- Splits at the first exponent mark; there may be none. -/
def splitExponent (text : List Char) : List Char × Option (List Char) :=
  match text.dropWhile (!isExponentMark ·) with
  | [] => (text, none)
  | _ :: exponent => (text.takeWhile (!isExponentMark ·), some exponent)

/-- Splits at the first point; there may be none. -/
def splitPoint (text : List Char) : List Char × List Char :=
  match text.dropWhile (· != '.') with
  | [] => (text, [])
  | _ :: fraction => (text.takeWhile (· != '.'), fraction)

/-- The magnitude written by digits around a point and an exponent. -/
def decimal? (negative : Bool) (text : List Char) : Option Binary64 :=
  let (mantissa, exponent) := splitExponent text
  let (whole, fraction) := splitPoint mantissa
  match natural? (whole ++ fraction), (exponent.map integer?).getD (some 0) with
  | some digits, some power =>
    some (Binary64.ofDecimal negative digits (power - (fraction.length : Int)))
  | _, _ => none

/-- The texts that name infinity and not-a-number, in any mixture of cases. -/
def named? (negative : Bool) (text : List Char) : Option Binary64 :=
  match String.ofList (text.map Char.toLower) with
  | "inf" | "infinity" => some (.infinite negative)
  | "nan" => some .nan
  | _ => none

/-- The double-precision number nearest to a real numeral. -/
def binary64? (text : List Char) : Option Binary64 :=
  let (negative, body) := splitSign text
  match named? negative body with
  | some x => some x
  | none => decimal? negative body

end Numeral

end Formula
