import Formula.Proofs.Binary64.Decimal

/-!
# The shortest decimal reads back

Every decimal that the search may end in rounds to the magnitude it was looked for:
those on a grid since this was checked, the exact one since it has the same value.
Moving trailing zeros into the exponent does not change this.
-/

namespace Formula

/-- Trailing zeros of the digits may be moved into the exponent. -/
theorem Binary64.ofDecimal_trim (negative : Bool) (decimal : Decimal) :
    ofDecimal negative decimal.trim.digits decimal.trim.exponent =
      ofDecimal negative decimal.digits decimal.exponent := by
  induction decimal using Decimal.trim.induct with
  | case1 decimal h ih =>
    rw [Decimal.trim, if_pos h, ih]
    have hdigits : decimal.digits = decimal.digits / 10 * 10 ^ 1 := by omega
    rw [hdigits, ofDecimal_mul_pow]
    simp
  | case2 decimal h => rw [Decimal.trim, if_neg h]

namespace Binary64

variable {tie : Tie} {rank : Nat} {exponent : Int} {decimal : Decimal}

/-- A decimal reads back if the number nearest to it has the rank it was looked for. -/
theorem readsBack_iff : readsBack rank decimal = true ↔
    ofDecimal false decimal.digits decimal.exponent = ofRank false rank := by
  simp [readsBack]

/-- What is found on a grid reads back, for this was checked. -/
theorem readsBack_of_onGrid (h : onGrid tie rank exponent = some decimal) :
    readsBack rank decimal = true := by
  simp only [onGrid] at h
  generalize hlow : (⟨units rank * 10 ^ (-exponent).toNat / (one * 10 ^ exponent.toNat),
    exponent⟩ : Decimal) = low at h
  generalize hhigh : (⟨units rank * 10 ^ (-exponent).toNat / (one * 10 ^ exponent.toNat) + 1,
    exponent⟩ : Decimal) = high at h
  cases hreadsLow : readsBack rank low <;> cases hreadsHigh : readsBack rank high <;>
    simp only [hreadsLow, hreadsHigh] at h
  · cases h
  · cases h
    exact hreadsHigh
  · cases h
    exact hreadsLow
  · have hor : decimal = low ∨ decimal = high := by
      split at h
      · exact .inl (Option.some.inj h).symm
      split at h
      · exact .inr (Option.some.inj h).symm
      cases tie with
      | up => exact .inr (Option.some.inj h).symm
      | even =>
        simp only at h
        split at h
        · exact .inl (Option.some.inj h).symm
        · exact .inr (Option.some.inj h).symm
    rcases hor with rfl | rfl
    · exact hreadsLow
    · exact hreadsHigh

/-- The exact decimal of a magnitude reads back. -/
theorem readsBack_exactDecimal (rank : Nat) : readsBack rank (exactDecimal rank) = true := by
  have hfive : 0 < 5 ^ unitPlaces := Nat.pow_pos (by decide)
  have hwhole : (-(unitPlaces : Int)).toNat = 0 := by omega
  have hten : 10 ^ unitPlaces = one * 5 ^ unitPlaces := by
    rw [one_eq_two_pow, ← Nat.mul_pow]
  rw [readsBack_iff, exactDecimal, Nat.pow_eq]
  rw [ofDecimal_eq_ofRatio, hwhole, neg_neg, Int.toNat_natCast, Nat.pow_zero, Nat.mul_one, hten,
    ofRatio, rankOfRatio_mul_right _ _ hfive, rankOfRatio_units]

/-- The shortest decimal of a magnitude rounds to it. -/
theorem ofDecimal_shortest (tie : Tie) (rank : Nat) :
    ofDecimal false (shortest tie rank).digits (shortest tie rank).exponent =
      ofRank false rank := by
  rw [shortest, ofDecimal_trim, ← readsBack_iff]
  generalize hfound : (List.range 17).findSome? _ = found
  cases found with
  | none => exact readsBack_exactDecimal rank
  | some decimal =>
    obtain ⟨count, -, hgrid⟩ := List.exists_of_findSome?_eq_some hfound
    exact readsBack_of_onGrid hgrid

end Binary64

end Formula
