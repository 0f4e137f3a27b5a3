import Formula.Token.Basic

/-!
# Reading JSON numbers

Integers that fit into 64 bits are kept. All other numbers are reals, which are
read fast and not always exactly: as many digits as fit into 64 bits are taken
as an integer, which is multiplied or divided by a power of ten, and each step
is rounded.
-/

namespace Formula

/-- Why a text is not the JSON text of nested sequences: it is malformed, it ends
too early, or it holds other values than numbers, strings and arrays. -/
inductive JsonFault where
  | malformed
  | ended
  | foreign
deriving DecidableEq, Repr

namespace Json

/-- The greatest number of 64 bits. -/
def maxWord : Nat := UInt64.size - 1

/-- Takes digits as long as the number fits into 64 bits. -/
def absorb (n : Nat) : List Char → Nat × List Char
  | [] => (n, [])
  | c :: digits =>
    let next := 10 * n + (c.toNat - '0'.toNat)
    if maxWord < next then (n, c :: digits) else absorb next digits

/-- The rank of the magnitude nearest to a power of ten. -/
def powerOfTen (exponent : Nat) : Nat := Binary64.rankOfRatio (Nat.pow 10 exponent) 1

/-- Scales a magnitude by a power of ten, by `10 ^ 308` at a time if the power is
a large negative one. Magnitudes without bound are refused. -/
def scaleByTen (rank : Nat) (exponent : Int) : Option Nat :=
  if 0 ≤ exponent then
    if exponent ≤ 308 then
      let scaled := Binary64.mulRank rank (powerOfTen exponent.toNat)
      if scaled < magnitudeCount then some scaled else none
    else if rank = 0 then some rank
    else none
  else if -308 ≤ exponent then some (Binary64.divRank rank (powerOfTen (-exponent).toNat))
  else if rank = 0 then some rank
  else scaleByTen (Binary64.divRank rank (powerOfTen 308)) (exponent + 308)
termination_by (-exponent).toNat
decreasing_by omega

/-- The real with a significand below `2 ^ 64` and a power of ten. -/
def realOfParts (negative : Bool) (significand : Nat) (exponent : Int) :
    Except JsonFault Literal :=
  match scaleByTen (Binary64.rankOfRatio significand 1) exponent with
  | some rank => .ok (.real (Binary64.ofRank negative rank))
  | none => .error .malformed

/-- A number without a fraction and an exponent. Zero with a minus is a real. -/
def whole (negative : Bool) (n : Nat) : Literal :=
  if negative then
    if n = 0 ∨ Nat.pow 2 63 < n then .real (Binary64.ofRatio true n 1)
    else .integer (Int64.ofInt (-(n : Int)))
  else if n < Nat.pow 2 63 then .integer (Int64.ofInt n)
  else .real (Binary64.ofRatio false n 1)

/-- The least exponent that does not fit into 32 bits. -/
def exponentLimit : Nat := Nat.pow 2 31

/-- A number from its digits before and behind the point, and its exponent with
a flag for a minus. -/
def assemble (negative : Bool) (before : List Char) (behind : List Char)
    (exponent : Option (Bool × Nat)) : Except JsonFault Literal :=
  let (start, dropped) := absorb 0 before
  let (significand, unread) := absorb start behind
  let places : Int := (dropped.length : Int) - ((behind.length : Int) - (unread.length : Int))
  match exponent with
  | none =>
    if behind.isEmpty && dropped.isEmpty then .ok (whole negative start)
    else realOfParts negative significand places
  | some (down, power) =>
    if power < exponentLimit then
      realOfParts negative significand (if down then places - power else places + power)
    else if significand ≠ 0 && !down then .error .malformed
    else .ok (.real (Binary64.zero negative))

/-- A run of digits that must not be empty, and the text behind it. -/
def digits (text : List Char) : Except JsonFault (List Char × List Char) :=
  match text with
  | [] => .error .ended
  | c :: _ =>
    if c.isDigit then .ok (text.takeWhile Char.isDigit, text.dropWhile Char.isDigit)
    else .error .malformed

/-- A run of digits without a leading zero, unless zero is all there is. -/
def integerDigits (text : List Char) : Except JsonFault (List Char × List Char) :=
  match digits text with
  | .error fault => .error fault
  | .ok (figures, rest) =>
    if figures.head? = some '0' ∧ figures.length ≠ 1 then .error .malformed
    else .ok (figures, rest)

/-- A point and digits, if there is a point. -/
def fraction (text : List Char) : Except JsonFault (List Char × List Char) :=
  match text with
  | [] => .ok ([], [])
  | c :: behind => if c = '.' then digits behind else .ok ([], c :: behind)

/-- A sign that may be missing; the flag tells a minus. -/
def exponentSign (text : List Char) : Bool × List Char :=
  match text with
  | [] => (false, [])
  | c :: behind =>
    if c = '+' then (false, behind) else if c = '-' then (true, behind) else (false, c :: behind)

/-- A mark, a sign and digits, if there is a mark. -/
def exponent (text : List Char) : Except JsonFault (Option (Bool × Nat) × List Char) :=
  match text with
  | [] => .ok (none, [])
  | c :: behind =>
    if Numeral.isExponentMark c then
      match digits (exponentSign behind).2 with
      | .error fault => .error fault
      | .ok (figures, rest) =>
        .ok (some ((exponentSign behind).1, Nat.ofDigitChars 10 figures 0), rest)
    else .ok (none, c :: behind)

/-- The number at the head of a text without a minus; the flag tells whether one
stood in front of it. -/
def unsigned (negative : Bool) (text : List Char) : Except JsonFault (Literal × List Char) :=
  match integerDigits text with
  | .error fault => .error fault
  | .ok (before, text) =>
    match fraction text with
    | .error fault => .error fault
    | .ok (behind, text) =>
      match exponent text with
      | .error fault => .error fault
      | .ok (power, rest) =>
        match assemble negative before behind power with
        | .error fault => .error fault
        | .ok value => .ok (value, rest)

/-- Digits that are read leave less of the text. -/
theorem digits_length {text figures rest : List Char} (h : digits text = .ok (figures, rest)) :
    rest.length < text.length := by
  unfold digits at h
  split at h
  · cases h
  · split at h
    · rename_i c text hc
      simp only [Except.ok.injEq, Prod.mk.injEq] at h
      obtain ⟨_, rfl⟩ := h
      have := (List.dropWhile_sublist (l := text) Char.isDigit).length_le
      simp only [List.dropWhile_cons, hc, if_true, List.length_cons]
      omega
    · cases h

/-- The digits of a whole number leave less of the text. -/
theorem integerDigits_length {text figures rest : List Char}
    (h : integerDigits text = .ok (figures, rest)) : rest.length < text.length := by
  unfold integerDigits at h
  split at h
  · cases h
  · rename_i hdigits
    split at h
    · cases h
    · cases h
      exact digits_length hdigits

/-- A fraction, which may be missing, leaves no more than the text. -/
theorem fraction_length {text figures rest : List Char}
    (h : fraction text = .ok (figures, rest)) : rest.length ≤ text.length := by
  unfold fraction at h
  split at h
  · cases h
    exact Nat.le_refl _
  · split at h
    · exact Nat.le_of_lt (Nat.lt_succ_of_lt (digits_length h))
    · cases h
      exact Nat.le_refl _

/-- The sign of an exponent, which may be missing, leaves no more than the text. -/
theorem exponentSign_length (text : List Char) : (exponentSign text).2.length ≤ text.length := by
  unfold exponentSign
  split
  · exact Nat.le_refl _
  · split
    · exact Nat.le_succ _
    · split
      · exact Nat.le_succ _
      · exact Nat.le_refl _

/-- An exponent, which may be missing, leaves no more than the text. -/
theorem exponent_length {text rest : List Char} {power : Option (Bool × Nat)}
    (h : exponent text = .ok (power, rest)) : rest.length ≤ text.length := by
  unfold exponent at h
  split at h
  · cases h
    exact Nat.le_refl _
  · rename_i c behind
    split at h
    · split at h
      · cases h
      · rename_i hdigits
        have h1 := digits_length hdigits
        have h2 := exponentSign_length behind
        cases h
        exact Nat.le_succ_of_le (Nat.le_trans (Nat.le_of_lt h1) h2)
    · cases h
      exact Nat.le_refl _

/-- A number makes the text shorter. -/
theorem unsigned_length {negative : Bool} {text rest : List Char} {value : Literal}
    (h : unsigned negative text = .ok (value, rest)) : rest.length < text.length := by
  unfold unsigned at h
  split at h
  · cases h
  · rename_i hwhole
    have h1 := integerDigits_length hwhole
    split at h
    · cases h
    · rename_i hpoint
      have h2 := fraction_length hpoint
      split at h
      · cases h
      · rename_i hpower
        have h3 := exponent_length hpower
        split at h
        · cases h
        · cases h
          exact Nat.lt_of_le_of_lt (Nat.le_trans h3 h2) h1

end Json

end Formula
