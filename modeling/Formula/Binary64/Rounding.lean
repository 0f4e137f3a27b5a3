import Formula.Binary64.Basic

/-!
# Rounding to double precision

A ratio of natural numbers is rounded to the nearest magnitude, and of two
equally near ones to the one with an even significand. Decimal numbers, products
and quotients are formed exactly and then rounded once.
-/

namespace Formula

/-- The quotient rounded to the nearest integer; a half goes to the even one. -/
def roundHalfEven (numerator denominator : Nat) : Nat :=
  let quotient := numerator / denominator
  let twice := 2 * (numerator % denominator)
  if twice < denominator then quotient
  else if denominator < twice then quotient + 1
  else quotient + quotient % 2

/-- A rounded quotient is within half a unit of the exact one. -/
theorem roundHalfEven_near (numerator : Nat) {denominator : Nat} (h : 0 < denominator) :
    2 * (roundHalfEven numerator denominator * denominator) ≤ 2 * numerator + denominator ∧
      2 * numerator ≤ 2 * (roundHalfEven numerator denominator * denominator) + denominator := by
  have hdiv := Nat.div_add_mod' numerator denominator
  have hmod := Nat.mod_lt numerator h
  simp only [roundHalfEven]
  split
  · omega
  · split
    · rw [Nat.add_mul]
      omega
    · rcases Nat.mod_two_eq_zero_or_one (numerator / denominator) with hq | hq <;>
        rw [hq, Nat.add_mul] <;> omega

/-- An exact quotient is kept. -/
theorem roundHalfEven_mul (quotient : Nat) {denominator : Nat} (h : 0 < denominator) :
    roundHalfEven (quotient * denominator) denominator = quotient := by
  simp [roundHalfEven, Nat.mul_div_cancel _ h, h]

namespace Binary64

/-- The rank nearest to a ratio. The scale leaves 53 bits of the quotient, or
fewer at scale zero; a significand that rounds up to `2 ^ 53` carries over into
the next scale by itself. -/
def rankOfRatio (numerator denominator : Nat) : Nat :=
  let scaled := numerator * one
  let shift := Nat.log2 (scaled / denominator) - 52
  shift * Nat.pow 2 52 + roundHalfEven scaled (denominator * Nat.pow 2 shift)

/-- The number with this rank; ranks past the last are infinite. -/
def ofRank (negative : Bool) (rank : Nat) : Binary64 :=
  if h : rank < magnitudeCount then .finite negative ⟨rank, h⟩ else .infinite negative

/-- The number nearest to a ratio with the given sign. -/
def ofRatio (negative : Bool) (numerator denominator : Nat) : Binary64 :=
  ofRank negative (rankOfRatio numerator denominator)

/-- The number nearest to a natural number. -/
def ofNat (n : Nat) : Binary64 := ofRatio false n 1

/-- The number nearest to `digits * 10 ^ exponent`. Decimals above `10 ^ 400`
are infinite and those below `2 ^ (-1079)` are zero, whatever their exact
value. -/
def ofDecimal (negative : Bool) (digits : Nat) (exponent : Int) : Binary64 :=
  if digits = 0 then zero negative
  else if 400 < exponent then .infinite negative
  else if (Nat.log2 digits : Int) + 1080 < -3 * exponent then zero negative
  else if 0 ≤ exponent then ofRatio negative (digits * Nat.pow 10 exponent.toNat) 1
  else ofRatio negative digits (Nat.pow 10 (-exponent).toNat)

/-- The rounded product of two magnitudes. -/
def mulRank (left right : Nat) : Nat :=
  rankOfRatio (units left * units right) (one * one)

/-- The rounded quotient of two magnitudes. -/
def divRank (left right : Nat) : Nat :=
  rankOfRatio (units left) (units right)

end Binary64

end Formula
