import Formula.Binary64.Shortest
import Mathlib.Tactic.Ring

/-!
# The number nearest to a decimal

The magnitude nearest to a ratio depends on the value of the ratio only, and a
magnitude is the one nearest to its own value. Decimals out of range are rounded
like all others, so that the power of ten may be moved between the digits and the
exponent of a decimal.
-/

namespace Formula

variable {numerator denominator factor : Nat}

/-- A common factor does not change a rounded quotient. -/
theorem roundHalfEven_mul_right (numerator denominator : Nat) (h : 0 < factor) :
    roundHalfEven (numerator * factor) (denominator * factor) =
      roundHalfEven numerator denominator := by
  have hlt : 2 * (numerator % denominator * factor) < denominator * factor ↔
      2 * (numerator % denominator) < denominator := by
    rw [← Nat.mul_assoc]
    exact Nat.mul_lt_mul_right h
  have hgt : denominator * factor < 2 * (numerator % denominator * factor) ↔
      denominator < 2 * (numerator % denominator) := by
    rw [← Nat.mul_assoc]
    exact Nat.mul_lt_mul_right h
  simp only [roundHalfEven, Nat.mul_div_mul_right numerator denominator h,
    Nat.mul_mod_mul_right, hlt, hgt]

/-- A rounded quotient is at least the quotient. -/
theorem le_roundHalfEven (numerator denominator : Nat) :
    numerator / denominator ≤ roundHalfEven numerator denominator := by
  simp only [roundHalfEven]
  split
  · exact Nat.le_refl _
  · split
    · exact Nat.le_succ _
    · exact Nat.le_add_right _ _

namespace Binary64

/-- The magnitude of one is the power of two that has all places below the unit. -/
theorem one_eq_two_pow : one = 2 ^ unitPlaces := by
  unfold one
  -- The exponent is hidden, so that nothing evaluates the power.
  generalize unitPlaces = places
  exact Nat.pow_eq

/-- The magnitude of one is not zero. -/
theorem one_pos : 0 < one := by
  rw [one_eq_two_pow]
  exact Nat.two_pow_pos _

/-- The rank nearest to a ratio depends on the value of the ratio only. -/
theorem rankOfRatio_mul_right (numerator denominator : Nat) (h : 0 < factor) :
    rankOfRatio (numerator * factor) (denominator * factor) =
      rankOfRatio numerator denominator := by
  have hscaled : numerator * factor * one = numerator * one * factor := Nat.mul_right_comm _ _ _
  have hgrid : ∀ shift, denominator * factor * 2 ^ shift = denominator * 2 ^ shift * factor :=
    fun shift => Nat.mul_right_comm _ _ _
  simp only [rankOfRatio, Nat.pow_eq, hscaled, hgrid, Nat.mul_div_mul_right _ _ h,
    roundHalfEven_mul_right _ _ h]

/-- A magnitude has 53 bits, or fewer at scale zero. -/
theorem log2_units (rank : Nat) : Nat.log2 (units rank) - 52 = scale rank := by
  by_cases hsmall : rank < 2 ^ 52
  · have hscale : scale rank = 0 := by
      rw [scale, Nat.pow_eq, Nat.div_eq_of_lt hsmall]
    have hunits : units rank = rank := by
      rw [units, hscale, significand, Nat.pow_eq, Nat.pow_eq, if_pos hsmall, pow_zero,
        Nat.mul_one]
    rw [hunits, hscale]
    by_cases hzero : rank = 0
    · subst hzero
      decide
    · have hlog := (Nat.log2_lt hzero).mpr hsmall
      omega
  · have hmod : rank % 2 ^ 52 < 2 ^ 52 := Nat.mod_lt _ (Nat.two_pow_pos 52)
    have hsignificand : significand rank = 2 ^ 52 + rank % 2 ^ 52 := by
      rw [significand, Nat.pow_eq, if_neg hsmall]
    have hne : significand rank ≠ 0 := by omega
    have hlog : Nat.log2 (units rank) = 52 + scale rank := by
      refine (Nat.log2_eq_iff (Nat.mul_ne_zero hne (Nat.two_pow_pos _).ne')).mpr ⟨?_, ?_⟩
      · rw [Nat.pow_add]
        exact Nat.mul_le_mul_right _ (by omega)
      · rw [Nat.add_right_comm, Nat.pow_add]
        exact Nat.mul_lt_mul_of_pos_right (by omega) (Nat.two_pow_pos _)
    omega

/-- A magnitude is the one nearest to its own value. -/
theorem rankOfRatio_units (rank : Nat) : rankOfRatio (units rank) one = rank := by
  have hpos : 0 < one * 2 ^ scale rank := Nat.mul_pos one_pos (Nat.two_pow_pos _)
  have hscaled : units rank * one = significand rank * (one * 2 ^ scale rank) := by
    rw [units, Nat.pow_eq]
    ring
  have hquotient : units rank * one / one = units rank := Nat.mul_div_cancel _ one_pos
  simp only [rankOfRatio, Nat.pow_eq, hquotient, log2_units]
  rw [hscaled, roundHalfEven_mul _ hpos]
  by_cases hsmall : rank < 2 ^ 52
  · rw [scale, significand, Nat.pow_eq, if_pos hsmall, Nat.div_eq_of_lt hsmall]
    omega
  · rw [scale, significand, Nat.pow_eq, if_neg hsmall]
    have hsplit := Nat.div_add_mod rank (2 ^ 52)
    have hfield : 0 < rank / 2 ^ 52 := Nat.div_pos (Nat.le_of_not_lt hsmall) (Nat.two_pow_pos 52)
    omega

/-- From `2 ^ 1024` on every natural number is past the last magnitude. -/
theorem le_rankOfRatio {bits : Nat} (hbits : 1024 ≤ bits) (h : 2 ^ bits ≤ numerator) :
    magnitudeCount ≤ rankOfRatio numerator 1 := by
  have hplaces : unitPlaces = 1074 := rfl
  have hscaled : 2 ^ (bits + unitPlaces) ≤ numerator * one := by
    rw [Nat.pow_add, one_eq_two_pow]
    exact Nat.mul_le_mul_right _ h
  have hne : numerator * one ≠ 0 := by
    have hpos : 0 < numerator * one := Nat.lt_of_lt_of_le (Nat.two_pow_pos _) hscaled
    exact hpos.ne'
  have hlog : bits + unitPlaces ≤ Nat.log2 (numerator * one) := (Nat.le_log2 hne).mpr hscaled
  have hquotient : 2 ^ 52 ≤ numerator * one / 2 ^ (Nat.log2 (numerator * one) - 52) := by
    rw [Nat.le_div_iff_mul_le (Nat.two_pow_pos _), ← Nat.pow_add,
      Nat.add_sub_cancel' (by omega)]
    exact Nat.log2_self_le hne
  have hround := le_roundHalfEven (numerator * one) (2 ^ (Nat.log2 (numerator * one) - 52))
  have hcount : magnitudeCount = 2047 * 2 ^ 52 := rfl
  simp only [rankOfRatio, Nat.pow_eq, Nat.div_one, Nat.one_mul]
  omega

/-- Below half of the least magnitude a ratio rounds to zero. -/
theorem rankOfRatio_eq_zero (h : 2 * (numerator * one) < denominator) :
    rankOfRatio numerator denominator = 0 := by
  have hlt : numerator * one < denominator := by omega
  simp only [rankOfRatio, Nat.div_eq_of_lt hlt]
  simp [roundHalfEven, Nat.div_eq_of_lt hlt, Nat.mod_eq_of_lt hlt, h]

/-- A power of ten is at least the power of two with three times the exponent. -/
theorem two_pow_le_ten_pow (count : Nat) : 2 ^ (3 * count) ≤ 10 ^ count := by
  rw [Nat.pow_mul]
  exact Nat.pow_le_pow_left (by decide) count

/-- A decimal is rounded to the number nearest to its value, be it out of range or not. -/
theorem ofDecimal_eq_ofRatio (negative : Bool) (digits : Nat) (exponent : Int) :
    ofDecimal negative digits exponent =
      ofRatio negative (digits * 10 ^ exponent.toNat) (10 ^ (-exponent).toNat) := by
  by_cases hdigits : digits = 0
  · have hten : 0 < 10 ^ (-exponent).toNat := Nat.pow_pos (by decide)
    rw [ofDecimal, if_pos hdigits, hdigits, Nat.zero_mul, ofRatio,
      rankOfRatio_eq_zero (by omega)]
    rfl
  rw [ofDecimal, if_neg hdigits]
  by_cases hhuge : 400 < exponent
  · rw [if_pos hhuge]
    obtain ⟨count, rfl⟩ := Int.eq_ofNat_of_zero_le (show 0 ≤ exponent by omega)
    have hfraction : (-(count : Int)).toNat = 0 := by omega
    have hvalue : 2 ^ (3 * count) ≤ digits * 10 ^ count :=
      Nat.le_trans (two_pow_le_ten_pow count) (Nat.le_mul_of_pos_left _ (by omega))
    have hrank := le_rankOfRatio (by omega) hvalue
    rw [Int.toNat_natCast, hfraction, Nat.pow_zero, ofRatio, ofRank, dif_neg (by omega)]
  · rw [if_neg hhuge]
    by_cases htiny : (Nat.log2 digits : Int) + 1080 < -3 * exponent
    · rw [if_pos htiny]
      obtain ⟨count, hcount⟩ := Int.eq_ofNat_of_zero_le (show 0 ≤ -exponent by omega)
      have hwhole : exponent.toNat = 0 := by omega
      have hlog : digits < 2 ^ (Nat.log2 digits + 1) := Nat.lt_log2_self
      have hplaces : unitPlaces = 1074 := rfl
      have hsmall : 2 * (digits * one) < 10 ^ count := by
        have hunits := Nat.mul_lt_mul_of_pos_right hlog one_pos
        calc 2 * (digits * one) < 2 * (2 ^ (Nat.log2 digits + 1) * one) :=
              Nat.mul_lt_mul_of_pos_left hunits (by decide)
          _ = 2 ^ (Nat.log2 digits + unitPlaces + 2) := by
              rw [one_eq_two_pow]
              ring
          _ ≤ 2 ^ (3 * count) := Nat.pow_le_pow_right (by decide) (by omega)
          _ ≤ 10 ^ count := two_pow_le_ten_pow count
      rw [hcount, hwhole, Int.toNat_natCast, Nat.pow_zero, Nat.mul_one, ofRatio,
        rankOfRatio_eq_zero hsmall]
      rfl
    · rw [if_neg htiny]
      by_cases hwhole : 0 ≤ exponent
      · have hfraction : (-exponent).toNat = 0 := by omega
        rw [if_pos hwhole, hfraction, Nat.pow_zero, Nat.pow_eq]
      · have hzero : exponent.toNat = 0 := by omega
        rw [if_neg hwhole, hzero, Nat.pow_zero, Nat.mul_one, Nat.pow_eq]

/-- Powers of ten may be moved from the exponent of a decimal to its digits. -/
theorem ofDecimal_mul_pow (negative : Bool) (digits count : Nat) (exponent : Int) :
    ofDecimal negative (digits * 10 ^ count) exponent =
      ofDecimal negative digits (exponent + count) := by
  rw [ofDecimal_eq_ofRatio, ofDecimal_eq_ofRatio]
  -- Both ratios are the same up to this power of ten.
  obtain ⟨common, hcommon⟩ := Nat.exists_eq_add_of_le
    (show (-(exponent + count)).toNat ≤ (-exponent).toNat by omega)
  have hwhole : count + exponent.toNat = (exponent + count).toNat + common := by omega
  rw [Nat.mul_assoc, ← Nat.pow_add, hwhole, hcommon, Nat.pow_add, Nat.pow_add, ← Nat.mul_assoc,
    ofRatio, rankOfRatio_mul_right _ _ (Nat.pow_pos (by decide)), ← ofRatio]

end Binary64

end Formula
