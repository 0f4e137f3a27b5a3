/-!
# Double-precision numbers

The finite magnitudes of the 64-bit binary format are numbered in ascending
order by their rank, from zero. A rank holds a fraction of 52 bits below an
exponent field, so that neighbouring ranks are neighbouring numbers, and every
magnitude is a whole number of units of `2 ^ (-1074)`.
-/

namespace Formula

/-- How many finite magnitudes there are. -/
abbrev magnitudeCount : Nat := 2047 * Nat.pow 2 52

/-- A double-precision number. All not-a-number values count as one. -/
inductive Binary64 where
  | nan
  | infinite (negative : Bool)
  | finite (negative : Bool) (rank : Fin magnitudeCount)
deriving DecidableEq, Repr

namespace Binary64

/-- The integer significand of the magnitude with this rank. -/
def significand (rank : Nat) : Nat :=
  if rank < Nat.pow 2 52 then rank else Nat.pow 2 52 + rank % Nat.pow 2 52

/-- The power of two of the magnitude with this rank, above `2 ^ (-1074)`. -/
def scale (rank : Nat) : Nat := rank / Nat.pow 2 52 - 1

/-- The magnitude with this rank as a count of units of `2 ^ (-1074)`. -/
def units (rank : Nat) : Nat := significand rank * Nat.pow 2 (scale rank)

/-- How many binary places a unit has. -/
def unitPlaces : Nat := 1074

/-- How many units make one. -/
def one : Nat := Nat.pow 2 unitPlaces

/-- Zero with the given sign. -/
def zero (negative : Bool) : Binary64 := .finite negative ⟨0, by decide⟩

instance : Inhabited Binary64 := ⟨zero false⟩

/-- Neither infinite nor not-a-number. -/
def isFinite : Binary64 → Bool
  | .finite _ _ => true
  | _ => false

/-- The sign bit. -/
def isNegative : Binary64 → Bool
  | .nan => false
  | .infinite negative => negative
  | .finite negative _ => negative

/-- The same number with the given sign bit. -/
def withSign (negative : Bool) : Binary64 → Binary64
  | .nan => .nan
  | .infinite _ => .infinite negative
  | .finite _ rank => .finite negative rank

/-- Equality of values: both zeros are equal, and a not-a-number value differs
from every number, itself included. -/
def sameValue : Binary64 → Binary64 → Bool
  | .infinite a, .infinite b => a == b
  | .finite a m, .finite b n => m == n && (a == b || m.val == 0)
  | _, _ => false

/-- A finite real has the same value as itself. -/
theorem sameValue_self {x : Binary64} (h : x.isFinite) : x.sameValue x := by
  cases x <;> simp_all [isFinite, sameValue]

end Binary64

end Formula
