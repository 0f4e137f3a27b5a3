import Formula.Numeral.Layout
import Formula.Numeral.Reading
import Formula.Proofs.Binary64.Shortest
import Formula.Token.Basic
import Mathlib.Data.List.TakeWhile

/-!
# Numerals read back

What is written for a number is read as the same number again: integers in decimal,
and magnitudes by their shortest decimal, wherever the layout puts the point and
whether it writes an exponent or not.
-/

namespace Formula

namespace Numeral

/-- Digits only. -/
def Digits (text : List Char) : Prop := ∀ c ∈ text, c.isDigit = true

/-- A number is written in digits only. -/
theorem digits_toDigits (n : Nat) : Digits (Nat.toDigits 10 n) :=
  fun _ hc => Nat.isDigit_of_mem_toDigits (by decide) (by decide) hc

/-- Zeros are digits only. -/
theorem digits_replicate (count : Nat) : Digits (List.replicate count '0') := by
  intro c hc
  rw [List.eq_of_mem_replicate hc]
  decide

/-- Two texts of digits make up one. -/
theorem Digits.append {left right : List Char} (h : Digits left) (hright : Digits right) :
    Digits (left ++ right) :=
  List.forall_mem_append.mpr ⟨h, hright⟩

/-- A part of digits is of digits only. -/
theorem Digits.of_sublist {text part : List Char} (h : Digits text) (hpart : part.Sublist text) :
    Digits part :=
  fun c hc => h c (hpart.subset hc)

/-- Nothing is taken of a text that does not begin with a character of the class. -/
theorem takeWhile_append_of_head {p : Char → Bool} {behind : List Char}
    (h : ∀ c, behind.head? = some c → p c = false) (text : List Char) :
    (text ++ behind).takeWhile p = text.takeWhile p := by
  induction text with
  | nil =>
    cases behind with
    | nil => rfl
    | cons c behind => simp [h c rfl]
  | cons c text ih => simp [List.takeWhile_cons, ih]

/-- Nothing is dropped of a text that does not begin with a character of the class. -/
theorem dropWhile_append_of_head {p : Char → Bool} {behind : List Char}
    (h : ∀ c, behind.head? = some c → p c = false) (text : List Char) :
    (text ++ behind).dropWhile p = text.dropWhile p ++ behind := by
  induction text with
  | nil =>
    cases behind with
    | nil => rfl
    | cons c behind => simp [h c rfl]
  | cons c text ih =>
    by_cases hc : p c
    · simp [hc, ih]
    · simp [hc]

/-- Digits are read as a natural number. -/
theorem natural?_of_digits {text : List Char} (h : Digits text) (hne : text ≠ []) :
    natural? text = some (Nat.ofDigitChars 10 text 0) := by
  have hall : text.all Char.isDigit = true := List.all_eq_true.mpr h
  simp [natural?, hne, hall]

/-- A text that begins with a digit has no sign. -/
theorem splitSign_of_digit {c : Char} {text : List Char} (h : c.isDigit = true) :
    splitSign (c :: text) = (false, c :: text) := by
  unfold splitSign
  split
  · simp_all
  · simp_all
  · rfl

/-- Digits without a sign are read as the number that they write. -/
theorem integer?_of_digits {text : List Char} (h : Digits text) (hne : text ≠ []) :
    integer? text = some (Nat.ofDigitChars 10 text 0 : Nat) := by
  obtain ⟨c, rest, rfl⟩ := List.exists_cons_of_ne_nil hne
  rw [integer?, splitSign_of_digit (h c List.mem_cons_self)]
  simp [natural?_of_digits h hne]

/-- A natural number is written in its digits. -/
theorem natural_toList (n : Nat) : (natural n).toList = Nat.toDigits 10 n := by
  simp [natural]

/-- A natural number is written as an integer without a sign. -/
theorem integer_natCast (n : Nat) : integer n = natural n := by
  have hneg : ¬ (n : Int) < 0 := by omega
  simp [integer, hneg]

/-- An integer reads back. -/
theorem integer?_integer (n : Int) : integer? (integer n).toList = some n := by
  by_cases hneg : n < 0
  · have htext : (integer n).toList = '-' :: Nat.toDigits 10 n.natAbs := by
      simp [integer, hneg, natural_toList]
    have hread : natural? (Nat.toDigits 10 n.natAbs) = some n.natAbs := by
      rw [natural?_of_digits (digits_toDigits _) Nat.toDigits_ne_nil,
        Nat.ofDigitChars_ten_toDigits]
    have hback : -(n.natAbs : Int) = n := by omega
    rw [htext]
    simp only [integer?, splitSign, hread]
    exact congrArg some hback
  · have htext : (integer n).toList = Nat.toDigits 10 n.natAbs := by
      simp [integer, hneg, natural_toList]
    rw [htext, integer?_of_digits (digits_toDigits _) Nat.toDigits_ne_nil,
      Nat.ofDigitChars_ten_toDigits]
    simp
    omega

/-- A 64-bit integer reads back. -/
theorem int64?_integer (value : Int64) : int64? (integer value.toInt).toList = some value := by
  have hmin := Int64.minValue_le_toInt value
  have hmax := Int64.toInt_le value
  rw [int64?, integer?_integer, Option.bind_some, if_pos ⟨hmin, hmax⟩, Int64.ofInt_toInt]

/-- A real numeral in its parts: digits in front of the point, digits behind it, and
a power of ten. The point is not written without digits behind it. -/
structure Written where
  whole : List Char
  fraction : List Char
  power : Option Int

namespace Written

/-- The point with the digits behind it. -/
def point (written : Written) : List Char :=
  if written.fraction.isEmpty then [] else '.' :: written.fraction

/-- The mark of the exponent with the power behind it. -/
def mark (written : Written) : List Char :=
  match written.power with
  | none => []
  | some power => 'e' :: (integer power).toList

/-- The numeral. -/
def text (written : Written) : List Char := written.whole ++ (written.point ++ written.mark)

/-- The number nearest to the numeral. -/
def value (written : Written) : Binary64 :=
  Binary64.ofDecimal false (Nat.ofDigitChars 10 (written.whole ++ written.fraction) 0)
    (written.power.getD 0 - written.fraction.length)

/-- There are digits in front, and a point or an exponent. -/
structure Proper (written : Written) : Prop where
  whole : Digits written.whole
  whole_ne : written.whole ≠ []
  fraction : Digits written.fraction
  real : written.fraction ≠ [] ∨ written.power ≠ none

/-- A digit differs from every character that is no digit. -/
theorem ne_of_digit {c other : Char} (h : c.isDigit = true) (hother : other.isDigit = false) :
    c ≠ other := by
  rintro rfl
  rw [h] at hother
  cases hother

/-- A digit is no mark of an exponent. -/
theorem isExponentMark_of_digit {c : Char} (h : c.isDigit = true) : isExponentMark c = false := by
  have hlower : c ≠ 'e' := ne_of_digit h (by decide)
  have hupper : c ≠ 'E' := ne_of_digit h (by decide)
  simp [isExponentMark, hlower, hupper]

/-- A text without a mark in it is split at the mark behind it. -/
theorem splitExponent_append {front : List Char} (hfront : ∀ c ∈ front, isExponentMark c = false)
    {mark : Char} (hmark : isExponentMark mark = true) (behind : List Char) :
    splitExponent (front ++ mark :: behind) = (front, some behind) := by
  have hall : ∀ c ∈ front, (!isExponentMark c) = true := fun c hc => by simp [hfront c hc]
  rw [splitExponent, List.takeWhile_append_of_pos hall, List.dropWhile_append_of_pos hall]
  simp [hmark]

/-- A text without a mark in it has no exponent. -/
theorem splitExponent_of_no_mark {front : List Char}
    (hfront : ∀ c ∈ front, isExponentMark c = false) : splitExponent front = (front, none) := by
  have hall : ∀ c ∈ front, (!isExponentMark c) = true := fun c hc => by simp [hfront c hc]
  have hnil : front.dropWhile (!isExponentMark ·) = [] := List.dropWhile_eq_nil_iff.mpr hall
  simp [splitExponent, hnil]

/-- Digits in front of a point are split from what stands behind it. -/
theorem splitPoint_append {front : List Char} (hfront : Digits front) (behind : List Char) :
    splitPoint (front ++ '.' :: behind) = (front, behind) := by
  have hall : ∀ c ∈ front, (c != '.') = true :=
    fun c hc => by simpa using ne_of_digit (hfront c hc) (by decide)
  simp [splitPoint, List.takeWhile_append_of_pos hall, List.dropWhile_append_of_pos hall]

/-- Digits without a point have no fraction behind them. -/
theorem splitPoint_of_digits {front : List Char} (hfront : Digits front) :
    splitPoint front = (front, []) := by
  have hall : ∀ c ∈ front, (c != '.') = true :=
    fun c hc => by simpa using ne_of_digit (hfront c hc) (by decide)
  have hnil : front.dropWhile (· != '.') = [] := List.dropWhile_eq_nil_iff.mpr hall
  simp [splitPoint, hnil]

/-- A digit is its own small letter. -/
theorem toLower_of_digit {c : Char} (h : c.isDigit = true) : c.toLower = c := by
  have hle : c.val.toNat ≤ 57 := by
    simp only [Char.isDigit, Bool.and_eq_true, decide_eq_true_eq] at h
    exact UInt32.le_iff_toNat_le.mp h.2
  apply dif_neg
  intro hupper
  have hge : 65 ≤ c.val.toNat := UInt32.le_iff_toNat_le.mp hupper.1
  omega

/-- No name of a number begins with a digit. -/
theorem named?_of_digit {c : Char} {text : List Char} (h : c.isDigit = true) (negative : Bool) :
    named? negative (c :: text) = none := by
  have hhead : ∀ name first rest, String.ofList ((c :: text).map Char.toLower) = name →
      name.toList = first :: rest → first.isDigit = true := by
    rintro name first rest rfl hfirst
    rw [String.toList_ofList, List.map_cons, toLower_of_digit h, List.cons.injEq] at hfirst
    rwa [← hfirst.1]
  unfold named?
  split
  · rename_i hname
    exact absurd (hhead _ 'i' ['n', 'f'] hname rfl) (by decide)
  · rename_i hname
    exact absurd (hhead _ 'i' ['n', 'f', 'i', 'n', 'i', 't', 'y'] hname rfl) (by decide)
  · rename_i hname
    exact absurd (hhead _ 'n' ['a', 'n'] hname rfl) (by decide)
  · rfl

variable {written : Written}

/-- There is no mark of an exponent in front of the exponent. -/
theorem Proper.mantissa (h : written.Proper) :
    ∀ c ∈ written.whole ++ written.point, isExponentMark c = false := by
  intro c hc
  rcases List.mem_append.mp hc with hc | hc
  · exact isExponentMark_of_digit (h.whole c hc)
  · unfold point at hc
    split at hc
    · cases hc
    · rcases List.mem_cons.mp hc with rfl | hc
      · decide
      · exact isExponentMark_of_digit (h.fraction c hc)

/-- The whole part and the fraction are split at the point. -/
theorem Proper.splitPoint (h : written.Proper) :
    Numeral.splitPoint (written.whole ++ written.point) = (written.whole, written.fraction) := by
  unfold point
  by_cases hfraction : written.fraction.isEmpty = true
  · rw [if_pos hfraction, List.append_nil, splitPoint_of_digits h.whole,
      List.isEmpty_iff.mp hfraction]
  · rw [if_neg hfraction, splitPoint_append h.whole]

/-- The exponent is split from what stands in front of it. -/
theorem splitExponent_text (h : written.Proper) : splitExponent written.text =
    (written.whole ++ written.point, written.power.map fun power => (integer power).toList) := by
  rw [text, ← List.append_assoc, mark]
  cases written.power with
  | none => rw [List.append_nil, splitExponent_of_no_mark h.mantissa, Option.map_none]
  | some power => rw [splitExponent_append h.mantissa (by decide), Option.map_some]

/-- A real numeral is read as the number nearest to it. -/
theorem Proper.binary64? (h : written.Proper) : binary64? written.text = some written.value := by
  obtain ⟨c, rest, hrest⟩ := List.exists_cons_of_ne_nil h.whole_ne
  have hdigit : c.isDigit = true := h.whole c (by simp [hrest])
  have hhead : written.text = c :: (rest ++ (written.point ++ written.mark)) := by
    rw [text, hrest, List.cons_append]
  have hdigits : natural? (written.whole ++ written.fraction) =
      some (Nat.ofDigitChars 10 (written.whole ++ written.fraction) 0) :=
    natural?_of_digits (h.whole.append h.fraction) (by simp [hrest])
  have hpower : ((written.power.map fun power => (integer power).toList).map integer?).getD
      (some 0) = some (written.power.getD 0) := by
    cases written.power with
    | none => rfl
    | some power => simp [integer?_integer]
  have hsplit := splitExponent_text h
  rw [hhead] at hsplit ⊢
  rw [Numeral.binary64?, splitSign_of_digit hdigit]
  simp only [named?_of_digit hdigit]
  simp only [decimal?, hsplit, h.splitPoint, hdigits, hpower]
  rfl

end Written

namespace Layout

variable {decimal : Decimal}

/-- The figures of a decimal are digits only. -/
theorem digits_figures (decimal : Decimal) : Digits decimal.figures :=
  digits_toDigits decimal.digits

/-- A decimal has figures, even if it is zero. -/
theorem figures_ne_nil (decimal : Decimal) : decimal.figures ≠ [] := Nat.toDigits_ne_nil

/-- The figures of a decimal write its digits. -/
theorem ofDigitChars_figures (decimal : Decimal) :
    Nat.ofDigitChars 10 decimal.figures 0 = decimal.digits := Nat.ofDigitChars_ten_toDigits

/-- A numeral without an exponent that has the value of a decimal. -/
def Places (decimal : Decimal) (whole fraction : List Char) : Prop :=
  Written.Proper ⟨whole, fraction, none⟩ ∧
    (Written.mk whole fraction none).value =
      Binary64.ofDecimal false decimal.digits decimal.exponent

/-- The point behind zeros that stand behind all digits. -/
theorem places_of_le (h : 0 ≤ decimal.exponent) : Places decimal
    (decimal.figures ++ List.replicate decimal.exponent.toNat '0') ['0'] := by
  have hzero : Digits ['0'] := digits_replicate 1
  refine ⟨⟨(digits_figures decimal).append (digits_replicate _), ?_, hzero, .inl (by simp)⟩, ?_⟩
  · simp [figures_ne_nil]
  · have hvalue : Nat.ofDigitChars 10
        (decimal.figures ++ List.replicate decimal.exponent.toNat '0' ++ ['0']) 0 =
        decimal.digits * 10 ^ (decimal.exponent.toNat + 1) := by
      rw [List.append_assoc, ← List.replicate_succ', Nat.ofDigitChars_append,
        Nat.ofDigitChars_replicate_zero, ofDigitChars_figures, Nat.mul_comm]
    rw [Written.value]
    simp only [hvalue, Binary64.ofDecimal_mul_pow]
    congr 1
    simp
    omega

/-- The point among the digits. -/
theorem places_of_lt {count : Nat} (hpos : 0 < count) (hlt : count < decimal.figures.length)
    (hcount : (count : Int) = decimal.exponent + decimal.figures.length) :
    Places decimal (decimal.figures.take count) (decimal.figures.drop count) := by
  have hfigures := digits_figures decimal
  refine ⟨⟨hfigures.of_sublist (List.take_sublist _ _), ?_,
    hfigures.of_sublist (List.drop_sublist _ _), .inl ?_⟩, ?_⟩
  · simp [figures_ne_nil, hpos.ne']
  · simpa using hlt
  · rw [Written.value]
    simp only [List.take_append_drop, ofDigitChars_figures, List.length_drop]
    congr 1
    simp
    omega

/-- The point in front of zeros that stand in front of all digits. -/
theorem places_of_neg (zeros : Nat)
    (hzeros : -(zeros : Int) = decimal.exponent + decimal.figures.length) :
    Places decimal ['0'] (List.replicate zeros '0' ++ decimal.figures) := by
  refine ⟨⟨digits_replicate 1, by simp, (digits_replicate _).append (digits_figures decimal),
    .inl (by simp [figures_ne_nil])⟩, ?_⟩
  have hvalue : Nat.ofDigitChars 10 (['0'] ++ (List.replicate zeros '0' ++ decimal.figures)) 0 =
      decimal.digits := by
    rw [← List.append_assoc, ← List.replicate_one, List.replicate_append_replicate,
      Nat.ofDigitChars_append, Nat.ofDigitChars_replicate_zero, Nat.mul_zero, ofDigitChars_figures]
  rw [Written.value]
  simp only [hvalue]
  congr 1
  simp
  omega

/-- A decimal written without an exponent keeps its value. -/
theorem plain_eq_text (decimal : Decimal) : ∃ whole fraction, Places decimal whole fraction ∧
    plain decimal = String.ofList (Written.mk whole fraction none).text := by
  have hlength : 0 < decimal.figures.length := List.length_pos_iff.mpr (figures_ne_nil decimal)
  have hmagnitude : decimal.magnitude + 1 = decimal.exponent + decimal.figures.length := by
    rw [Decimal.magnitude]
    omega
  by_cases hneg : decimal.exponent + decimal.figures.length ≤ 0
  · obtain ⟨zeros, hzeros⟩ := Int.eq_ofNat_of_zero_le
      (show 0 ≤ -(decimal.exponent + decimal.figures.length) by omega)
    have hcount : (decimal.magnitude + 1).toNat = 0 := by omega
    have hfront : (-(decimal.magnitude + 1)).toNat = zeros := by omega
    refine ⟨_, _, places_of_neg zeros (by omega), ?_⟩
    apply String.toList_inj.mp
    simp only [plain, hcount, hfront]
    simp [figures_ne_nil, Written.text, Written.point, Written.mark]
  · have hfront : (-(decimal.magnitude + 1)).toNat = 0 := by omega
    by_cases hlt : decimal.exponent < 0
    · obtain ⟨count, hcount⟩ := Int.eq_ofNat_of_zero_le
        (show 0 ≤ decimal.exponent + decimal.figures.length by omega)
      have hplaces : (decimal.magnitude + 1).toNat = count := by omega
      have hpos : 0 < count := by omega
      have hshort : count < decimal.figures.length := by omega
      have hzeros : count - decimal.figures.length = 0 := by omega
      refine ⟨_, _, places_of_lt hpos hshort hcount.symm, ?_⟩
      apply String.toList_inj.mp
      simp only [plain, hplaces, hfront, hzeros]
      simp [figures_ne_nil, hpos.ne', Written.text, Written.point, Written.mark,
        Nat.not_le.mpr hshort]
    · obtain ⟨zeros, hzeros⟩ := Int.eq_ofNat_of_zero_le (Int.not_lt.mp hlt)
      have hplaces : (decimal.magnitude + 1).toNat = decimal.figures.length + zeros := by omega
      refine ⟨_, _, places_of_le (by omega), ?_⟩
      apply String.toList_inj.mp
      simp only [plain, hplaces, hfront, hzeros, Nat.add_sub_cancel_left]
      simp [figures_ne_nil, Written.text, Written.point, Written.mark,
        List.take_of_length_le, List.drop_of_length_le]

/-- A decimal written with an exponent keeps its value. -/
theorem withExponent_eq_text {layout : Layout} (hplus : layout.plus = false) (decimal : Decimal) :
    ∃ written : Written, written.Proper ∧
      written.value = Binary64.ofDecimal false decimal.digits decimal.exponent ∧
      layout.withExponent decimal = String.ofList written.text := by
  have hfigures := digits_figures decimal
  have hlength : 0 < decimal.figures.length := List.length_pos_iff.mpr (figures_ne_nil decimal)
  refine ⟨⟨decimal.figures.take 1, decimal.figures.drop 1, some decimal.magnitude⟩, ?_, ?_, ?_⟩
  · refine ⟨hfigures.of_sublist (List.take_sublist _ _), by simp [figures_ne_nil],
      hfigures.of_sublist (List.drop_sublist _ _), .inr (by simp)⟩
  · rw [Written.value]
    simp only [List.take_append_drop, ofDigitChars_figures, List.length_drop, Option.getD_some,
      Decimal.magnitude]
    congr 1
    omega
  · apply String.toList_inj.mp
    simp [withExponent, hplus, Written.text, Written.point, Written.mark]

/-- A magnitude is written as a real numeral of its own value. -/
theorem magnitude_eq_text (layout : Layout) (hplus : layout.plus = false)
    (rank : Fin magnitudeCount) : ∃ written : Written, written.Proper ∧
      written.value = .finite false rank ∧ layout.magnitude rank = String.ofList written.text := by
  have hrank : Binary64.ofRank false rank = .finite false rank := dif_pos rank.isLt
  rw [magnitude]
  split
  · rename_i hzero
    have hdigits : Digits ['0'] := digits_replicate 1
    refine ⟨⟨['0'], ['0'], none⟩, ⟨hdigits, by simp, hdigits, .inl (by simp)⟩, ?_, rfl⟩
    rw [← hrank, hzero]
    rfl
  · rw [← hrank, ← Binary64.ofDecimal_shortest layout.tie rank]
    simp only
    split
    · obtain ⟨whole, fraction, ⟨hproper, hvalue⟩, htext⟩ :=
        plain_eq_text (Binary64.shortest layout.tie rank)
      exact ⟨_, hproper, hvalue, htext⟩
    · exact withExponent_eq_text hplus _

end Layout

end Numeral

end Formula
