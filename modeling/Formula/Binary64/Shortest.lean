import Formula.Binary64.Rounding

/-!
# Shortest decimals

Of all decimals that round to a given double-precision number, the ones with the
fewest digits are looked for, and of these the nearest. For each count of digits
only the two grid points next to the number can be the nearest, so only these
are tried. Seventeen digits always suffice; the search ends all the same in the
exact decimal, which reads back in any case.
-/

namespace Formula

/-- The decimal number `digits * 10 ^ exponent`. -/
structure Decimal where
  digits : Nat
  exponent : Int
deriving DecidableEq, Repr

/-- What becomes of a number halfway between two shortest decimals. -/
inductive Tie where
  | up
  | even
deriving DecidableEq, Repr

namespace Decimal

/-- Moves trailing zeros of the digits into the exponent. -/
def trim (decimal : Decimal) : Decimal :=
  if decimal.digits ≠ 0 ∧ decimal.digits % 10 = 0 then
    trim ⟨decimal.digits / 10, decimal.exponent + 1⟩
  else decimal
termination_by decimal.digits
decreasing_by omega

/-- The digits as characters, the first one first. -/
def figures (decimal : Decimal) : List Char := Nat.toDigits 10 decimal.digits

/-- The power of ten of the first digit. -/
def magnitude (decimal : Decimal) : Int :=
  decimal.exponent + (decimal.figures.length : Int) - 1

end Decimal

namespace Binary64

/-- Whether a ratio is at least `10 ^ exponent`. -/
def reachesTen (numerator denominator : Nat) (exponent : Int) : Bool :=
  denominator * Nat.pow 10 exponent.toNat ≤ numerator * Nat.pow 10 (-exponent).toNat

/-- The power of ten of the first digit of a positive ratio. The binary
exponent gives it up to one. -/
def leadingTen (numerator denominator : Nat) : Int :=
  let guess := ((Nat.log2 numerator : Int) - (Nat.log2 denominator : Int)) * 30103 / 100000
  if reachesTen numerator denominator (guess + 1) then guess + 1
  else if reachesTen numerator denominator guess then guess
  else guess - 1

/-- Whether a decimal rounds to the magnitude with this rank. -/
def readsBack (rank : Nat) (decimal : Decimal) : Bool :=
  ofDecimal false decimal.digits decimal.exponent == ofRank false rank

/-- The nearest decimal with the given exponent, if it or the other neighbour of
the magnitude on that grid reads back. -/
def onGrid (tie : Tie) (rank : Nat) (exponent : Int) : Option Decimal :=
  let numerator := units rank * Nat.pow 10 (-exponent).toNat
  let denominator := one * Nat.pow 10 exponent.toNat
  let below := numerator / denominator
  let twice := 2 * (numerator % denominator)
  let low : Decimal := ⟨below, exponent⟩
  let high : Decimal := ⟨below + 1, exponent⟩
  match readsBack rank low, readsBack rank high with
  | false, false => none
  | true, false => some low
  | false, true => some high
  | true, true =>
    if twice < denominator then some low
    else if denominator < twice then some high
    else match tie with
      | .up => some high
      | .even => if below % 2 = 0 then some low else some high

/-- The exact value of a magnitude as a decimal. -/
def exactDecimal (rank : Nat) : Decimal :=
  ⟨units rank * Nat.pow 5 unitPlaces, -(unitPlaces : Int)⟩

/-- The shortest decimal that rounds to the magnitude with this rank. -/
def shortest (tie : Tie) (rank : Nat) : Decimal :=
  let first := leadingTen (units rank) one
  let found := (List.range 17).findSome? fun (count : Nat) => onGrid tie rank (first - count)
  (found.getD (exactDecimal rank)).trim

end Binary64

end Formula
