import Formula.Binary64.Shortest

/-!
# Writing numbers

Integers are written in decimal. A double-precision number is written by its
shortest decimal; a layout says when the point is placed among the digits and
when an exponent is written.
-/

namespace Formula

namespace Numeral

/-- The decimal digits of a natural number. -/
def natural (n : Nat) : String := String.ofList (Nat.toDigits 10 n)

/-- The decimal digits of an integer behind a minus if it is negative. -/
def integer (n : Int) : String :=
  if n < 0 then "-" ++ natural n.natAbs else natural n.natAbs

/-- The decisions of a form for reals. -/
structure Layout where
  /-- The side to which a number between two shortest decimals goes. -/
  tie : Tie
  /-- The least power of ten of the first digit that is written without an exponent. -/
  leastPlain : Int
  /-- Numbers whose first digit has this power of ten or more have an exponent. -/
  plainEnd : Int
  /-- Whether exponents that are not negative have a plus. -/
  plus : Bool
  /-- The text of not-a-number. -/
  nan : String
  /-- The text of infinity. -/
  infinity : String
  /-- The text of negative infinity. -/
  negativeInfinity : String

namespace Layout

/-- Digits with the point behind the one whose power of ten is zero. At least
one digit stands on each side. -/
def plain (decimal : Decimal) : String :=
  let figures := decimal.figures
  let count := (decimal.magnitude + 1).toNat
  let whole := (figures ++ List.replicate (count - figures.length) '0').take count
  let fraction := List.replicate (-(decimal.magnitude + 1)).toNat '0' ++ figures.drop count
  String.ofList (if whole.isEmpty then ['0'] else whole) ++ "." ++
    String.ofList (if fraction.isEmpty then ['0'] else fraction)

/-- One digit, the others behind a point, and the power of ten of the first. -/
def withExponent (layout : Layout) (decimal : Decimal) : String :=
  let figures := decimal.figures
  let fraction := figures.drop 1
  let sign := if layout.plus && 0 ≤ decimal.magnitude then "+" else ""
  String.ofList (figures.take 1 ++ if fraction.isEmpty then [] else '.' :: fraction) ++
    "e" ++ sign ++ integer decimal.magnitude

/-- The text of a magnitude. -/
def magnitude (layout : Layout) (rank : Nat) : String :=
  if rank = 0 then "0.0"
  else
    let decimal := Binary64.shortest layout.tie rank
    if layout.leastPlain ≤ decimal.magnitude ∧ decimal.magnitude < layout.plainEnd then
      plain decimal
    else layout.withExponent decimal

/-- The text of a number. -/
def write (layout : Layout) : Binary64 → String
  | .nan => layout.nan
  | .infinite negative => if negative then layout.negativeInfinity else layout.infinity
  | .finite negative rank => (if negative then "-" else "") ++ layout.magnitude rank

end Layout

/-- The form of reals in formulas: positional from `10 ^ (-4)` to below
`10 ^ 16`, and of two equally short decimals the greater. -/
def formulaReal : Layout where
  tie := .up
  leastPlain := -4
  plainEnd := 16
  plus := false
  nan := "NaN"
  infinity := "inf"
  negativeInfinity := "-inf"

/-- The form of reals in JSON: positional from `10 ^ (-5)` to below `10 ^ 16`,
a signed exponent, and of two equally short decimals the even one. What has no
JSON number is null. -/
def jsonReal : Layout where
  tie := .even
  leastPlain := -5
  plainEnd := 16
  plus := true
  nan := "null"
  infinity := "null"
  negativeInfinity := "null"

end Numeral

end Formula
