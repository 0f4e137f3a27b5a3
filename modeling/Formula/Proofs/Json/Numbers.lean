import Formula.Json.Number
import Formula.Proofs.Numeral.RoundTrip

/-!
# JSON numbers in front of other texts

A JSON number ends in front of whatever continues no number, so that it is read in front of
a comma or a bracket as it is read alone. The decimal digits of an integer of 64 bits are read
as this integer, and never as a real.
-/

namespace Formula

namespace Json

variable {text rest behind figures : List Char} {power : Option (Bool × Nat)} {negative : Bool}
  {value : Literal} {n : Nat}

/-- No number goes on here: there is no digit, no point and no mark of an exponent. -/
def EndsNumber (text : List Char) : Prop :=
  ∀ c, text.head? = some c → c.isDigit = false ∧ c ≠ '.' ∧ Numeral.isExponentMark c = false

/-- A number ends at the end of the text. -/
theorem endsNumber_nil : EndsNumber [] := nofun

/-- A number ends in front of a comma. -/
theorem endsNumber_comma (text : List Char) : EndsNumber (',' :: text) := by
  rintro _ ⟨⟩
  decide

/-- A number ends in front of a closing bracket. -/
theorem endsNumber_bracket (text : List Char) : EndsNumber (']' :: text) := by
  rintro _ ⟨⟩
  decide

/-! Each part of a number leaves the end of the text, and it is found in front of a longer
text as well. -/

/-- Digits are found in front of whatever continues no number. -/
theorem digits_append (h : digits text = .ok (figures, rest)) (hends : EndsNumber behind) :
    rest <:+ text ∧ digits (text ++ behind) = .ok (figures, rest ++ behind) := by
  have hhead : ∀ c, behind.head? = some c → c.isDigit = false := fun c hc => (hends c hc).1
  cases text with
  | nil => cases h
  | cons c text =>
    simp only [digits] at h
    split at h
    · rename_i hc
      cases h
      refine ⟨List.dropWhile_suffix _, ?_⟩
      rw [List.cons_append, digits, if_pos hc, ← List.cons_append,
        Numeral.takeWhile_append_of_head hhead, Numeral.dropWhile_append_of_head hhead]
    · cases h

/-- Digits without a leading zero are found in front of whatever continues no number. -/
theorem integerDigits_append (h : integerDigits text = .ok (figures, rest))
    (hends : EndsNumber behind) :
    rest <:+ text ∧ integerDigits (text ++ behind) = .ok (figures, rest ++ behind) := by
  unfold integerDigits at h
  split at h
  · cases h
  · rename_i hdigits
    split at h
    · cases h
    · rename_i hzero
      cases h
      obtain ⟨hrest, happend⟩ := digits_append hdigits hends
      refine ⟨hrest, ?_⟩
      rw [integerDigits, happend]
      exact if_neg hzero

/-- A fraction, or none, is found in front of whatever continues no number. -/
theorem fraction_append (h : fraction text = .ok (figures, rest)) (hends : EndsNumber behind) :
    rest <:+ text ∧ fraction (text ++ behind) = .ok (figures, rest ++ behind) := by
  cases text with
  | nil =>
    cases h
    refine ⟨List.suffix_rfl, ?_⟩
    cases behind with
    | nil => rfl
    | cons c behind => exact if_neg (hends c rfl).2.1
  | cons c text =>
    simp only [fraction] at h
    split at h
    · rename_i hc
      obtain ⟨hrest, happend⟩ := digits_append h hends
      refine ⟨hrest.trans (List.suffix_cons _ _), ?_⟩
      rw [List.cons_append, fraction, if_pos hc, happend]
    · rename_i hc
      cases h
      refine ⟨List.suffix_rfl, ?_⟩
      rw [List.cons_append, fraction, if_neg hc]

/-- The sign of an exponent is found in front of any text. -/
theorem exponentSign_append (hne : text ≠ []) (behind : List Char) :
    (exponentSign text).2 <:+ text ∧
      exponentSign (text ++ behind) = ((exponentSign text).1, (exponentSign text).2 ++ behind) := by
  cases text with
  | nil => exact absurd rfl hne
  | cons c text =>
    simp only [exponentSign, List.cons_append]
    split
    · exact ⟨List.suffix_cons _ _, rfl⟩
    · split
      · exact ⟨List.suffix_cons _ _, rfl⟩
      · exact ⟨List.suffix_rfl, rfl⟩

/-- An exponent, or none, is found in front of whatever continues no number. -/
theorem exponent_append (h : exponent text = .ok (power, rest)) (hends : EndsNumber behind) :
    rest <:+ text ∧ exponent (text ++ behind) = .ok (power, rest ++ behind) := by
  cases text with
  | nil =>
    cases h
    refine ⟨List.suffix_rfl, ?_⟩
    cases behind with
    | nil => rfl
    | cons c behind => exact if_neg (by simp [(hends c rfl).2.2])
  | cons c text =>
    simp only [exponent] at h
    split at h
    · rename_i hc
      split at h
      · cases h
      · rename_i hdigits
        cases h
        have hne : text ≠ [] := by
          rintro rfl
          cases hdigits
        obtain ⟨hsign, hsigned⟩ := exponentSign_append hne behind
        obtain ⟨hrest, happend⟩ := digits_append hdigits hends
        refine ⟨(hrest.trans hsign).trans (List.suffix_cons _ _), ?_⟩
        rw [List.cons_append, exponent, if_pos hc, hsigned]
        simp only [happend]
    · rename_i hc
      cases h
      refine ⟨List.suffix_rfl, ?_⟩
      rw [List.cons_append, exponent, if_neg hc]

/-- A number is read in front of a text that does not go on with it as it is read alone. -/
theorem unsigned_append (h : unsigned negative text = .ok (value, rest))
    (hends : EndsNumber behind) :
    rest <:+ text ∧ unsigned negative (text ++ behind) = .ok (value, rest ++ behind) := by
  unfold unsigned at h
  split at h
  · cases h
  · rename_i hwhole
    obtain ⟨hsuffix, happend⟩ := integerDigits_append hwhole hends
    split at h
    · cases h
    · rename_i hpoint
      obtain ⟨hsuffix', happend'⟩ := fraction_append hpoint hends
      split at h
      · cases h
      · rename_i hpower
        obtain ⟨hsuffix'', happend''⟩ := exponent_append hpower hends
        split at h
        · cases h
        · rename_i hvalue
          cases h
          refine ⟨(hsuffix''.trans hsuffix').trans hsuffix, ?_⟩
          simp only [unsigned, happend, happend', happend'', hvalue]

/-- Digits that make up a word are all taken. -/
theorem absorb_eq (h : Nat.ofDigitChars 10 figures n ≤ maxWord) :
    absorb n figures = (Nat.ofDigitChars 10 figures n, []) := by
  induction figures generalizing n with
  | nil => rfl
  | cons c figures ih =>
    rw [Nat.ofDigitChars_cons] at h ⊢
    have hle : 10 * n + (c.toNat - '0'.toNat) ≤ maxWord := by
      refine Nat.le_trans ?_ h
      rw [Nat.ofDigitChars_eq_ofDigitChars_zero]
      have hpos := Nat.pow_pos (n := figures.length) (show 0 < 10 by decide)
      exact Nat.le_trans (Nat.le_mul_of_pos_left _ hpos) (Nat.le_add_right _ _)
    rw [absorb, if_neg (Nat.not_lt.mpr hle), ih h]

/-- Only zero is written with a zero in front. -/
theorem eq_zero_of_head?_toDigits (h : (Nat.toDigits 10 n).head? = some '0') : n = 0 := by
  induction n using Nat.strongRecOn with
  | ind n ih =>
    by_cases hlt : n < 10
    · rw [Nat.toDigits_of_lt_base hlt] at h
      have hdigit : ∀ m < 10, m.digitChar = '0' → m = 0 := by decide
      exact hdigit n hlt (by simpa using h)
    · have hle : 10 ≤ n := Nat.not_lt.mp hlt
      have hsome : (Nat.toDigits 10 (n / 10)).head?.isSome := by simp
      rw [Nat.toDigits_of_base_le (by decide) hle, List.head?_append,
        Option.or_of_isSome hsome] at h
      have hzero := ih (n / 10) (by omega) h
      omega

/-- The decimal digits of a word are read as a number without a fraction and an exponent. -/
theorem unsigned_toDigits (hword : n ≤ maxWord) (negative : Bool) :
    unsigned negative (Nat.toDigits 10 n) = .ok (whole negative n, []) := by
  have hdigits := Numeral.digits_toDigits n
  have hfound : digits (Nat.toDigits 10 n) = .ok (Nat.toDigits 10 n, []) := by
    obtain ⟨c, others, hcons⟩ := List.exists_cons_of_ne_nil (Nat.toDigits_ne_nil (n := n) (b := 10))
    have hall : Numeral.Digits (c :: others) := hcons ▸ hdigits
    rw [hcons, digits, if_pos (hall c List.mem_cons_self), List.takeWhile_eq_self_iff.mpr hall,
      List.dropWhile_eq_nil_iff.mpr hall]
  have hzero : ¬((Nat.toDigits 10 n).head? = some '0' ∧ (Nat.toDigits 10 n).length ≠ 1) := by
    rintro ⟨hhead, hlength⟩
    obtain rfl := eq_zero_of_head?_toDigits hhead
    exact hlength rfl
  have hnumber : Nat.ofDigitChars 10 (Nat.toDigits 10 n) 0 = n := Nat.ofDigitChars_ten_toDigits
  have habsorb : absorb 0 (Nat.toDigits 10 n) = (n, []) := by
    rw [absorb_eq (by rwa [hnumber]), hnumber]
  simp only [unsigned, integerDigits, hfound, if_neg hzero, fraction, exponent, assemble, habsorb]
  rfl

/-- An integer of 64 bits is read as itself, by its sign and its magnitude. -/
theorem whole_natAbs (value : Int64) :
    whole (decide (value.toInt < 0)) value.toInt.natAbs = .integer value := by
  have hleast := Int64.minValue_le_toInt value
  have hgreatest := Int64.toInt_le value
  rw [Int64.toInt_minValue] at hleast
  rw [Int64.toInt_maxValue] at hgreatest
  by_cases hneg : value.toInt < 0
  · have hrange : ¬(value.toInt.natAbs = 0 ∨ Nat.pow 2 63 < value.toInt.natAbs) := by
      norm_num
      omega
    have hback : -(value.toInt.natAbs : Int) = value.toInt := by omega
    simp only [whole, hneg, decide_true, if_true, if_neg hrange, hback, Int64.ofInt_toInt]
  · have hrange : value.toInt.natAbs < Nat.pow 2 63 := by
      norm_num
      omega
    have hback : (value.toInt.natAbs : Int) = value.toInt := by omega
    simp only [whole, hneg, decide_false, Bool.false_eq_true, if_false, if_pos hrange, hback,
      Int64.ofInt_toInt]

end Json

end Formula
