import Formula.Parse.State

/-!
# The furthest failure

Of the failures noted one after another the parser keeps the one furthest to the
right, and of several at one index the first. What was noted before it lies nearer,
and noting again what is not further changes nothing.
-/

namespace Formula

/-- The kept failure is at least as far to the right as all the others. -/
def Covers (kept : Option Failure) (failures : List Failure) : Prop :=
  ∀ failure ∈ failures, ∃ furthest, kept = some furthest ∧ failure.1 ≤ furthest.1

/-- A failure is kept that is at least as far to the right as the old and the new one. -/
theorem keepFurther_eq_some (kept : Option Failure) (next : Failure) :
    ∃ furthest, keepFurther kept next = some furthest ∧ next.1 ≤ furthest.1 ∧
      ∀ old, kept = some old → old.1 ≤ furthest.1 := by
  cases kept with
  | none => exact ⟨next, rfl, Nat.le_refl _, by rintro _ ⟨⟩⟩
  | some old =>
    by_cases hlt : old.1 < next.1
    · refine ⟨next, by simp [keepFurther, hlt], Nat.le_refl _, ?_⟩
      rintro _ ⟨⟩
      exact Nat.le_of_lt hlt
    · refine ⟨old, by simp [keepFurther, hlt], Nat.le_of_not_lt hlt, ?_⟩
      rintro _ ⟨⟩
      exact Nat.le_refl _

/-- One more failure covers what was covered before. -/
theorem Covers.keepFurther {kept : Option Failure} {failures : List Failure}
    (h : Covers kept failures) (next : Failure) : Covers (keepFurther kept next) failures := by
  intro failure hmem
  obtain ⟨old, rfl, hle⟩ := h failure hmem
  obtain ⟨furthest, hkept, -, hold⟩ := keepFurther_eq_some (some old) next
  exact ⟨furthest, hkept, Nat.le_trans hle (hold old rfl)⟩

/-- More failures cover what was covered before. -/
theorem Covers.foldl {kept : Option Failure} {failures : List Failure} (h : Covers kept failures)
    (more : List Failure) : Covers (more.foldl Formula.keepFurther kept) failures := by
  induction more generalizing kept with
  | nil => exact h
  | cons next more ih => exact ih (h.keepFurther next)

/-- Failures are covered by the furthest one once they are noted. -/
theorem covers_foldl (kept : Option Failure) (failures : List Failure) :
    Covers (failures.foldl keepFurther kept) failures := by
  induction failures generalizing kept with
  | nil => rintro _ ⟨⟩
  | cons next failures ih =>
    have hnext : Covers (keepFurther kept next) [next] := by
      intro failure hmem
      obtain rfl := List.mem_singleton.mp hmem
      obtain ⟨furthest, hkept, hle, -⟩ := keepFurther_eq_some kept failure
      exact ⟨furthest, hkept, hle⟩
    intro failure hmem
    rcases List.mem_cons.mp hmem with rfl | hmem
    · exact hnext.foldl failures failure (List.mem_singleton.mpr rfl)
    · exact ih _ failure hmem

/-- Covered failures change nothing when they are noted again. -/
theorem Covers.foldl_eq {kept : Option Failure} {failures : List Failure}
    (h : Covers kept failures) : failures.foldl Formula.keepFurther kept = kept := by
  induction failures with
  | nil => rfl
  | cons next failures ih =>
    obtain ⟨furthest, rfl, hle⟩ := h next List.mem_cons_self
    have hnext : Formula.keepFurther (some furthest) next = some furthest := by
      simp [Formula.keepFurther, Nat.not_lt.mpr hle]
    rw [List.foldl_cons, hnext]
    exact ih fun failure hmem => h failure (List.mem_cons_of_mem _ hmem)

/-- The failure kept in the end is the one kept in the beginning, or it is further
and the first at its index. -/
theorem foldl_keepFurther_cases {kept failure : Failure} {failures : List Failure}
    (h : failures.foldl keepFurther (some kept) = some failure) :
    (failure = kept ∧ ∀ f ∈ failures, f.1 ≤ kept.1) ∨
      (kept.1 < failure.1 ∧ ∃ before after, failures = before ++ failure :: after ∧
        (∀ f ∈ before, f.1 < failure.1) ∧ ∀ f ∈ after, f.1 ≤ failure.1) := by
  induction failures generalizing kept with
  | nil => exact .inl ⟨(Option.some.inj h).symm, by simp⟩
  | cons next failures ih =>
    rw [List.foldl_cons] at h
    by_cases hlt : kept.1 < next.1
    · simp only [keepFurther, hlt, if_true] at h
      rcases ih h with ⟨rfl, hle⟩ | ⟨hfurther, before, after, rfl, hbefore, hafter⟩
      · exact .inr ⟨hlt, [], failures, rfl, by simp, hle⟩
      · refine .inr ⟨Nat.lt_trans hlt hfurther, next :: before, after, rfl, ?_, hafter⟩
        rintro f (_ | ⟨_, hf⟩)
        · exact hfurther
        · exact hbefore f hf
    · simp only [keepFurther, hlt, if_false] at h
      have hnext : next.1 ≤ kept.1 := Nat.le_of_not_lt hlt
      rcases ih h with ⟨rfl, hle⟩ | ⟨hfurther, before, after, rfl, hbefore, hafter⟩
      · refine .inl ⟨rfl, ?_⟩
        rintro f (_ | ⟨_, hf⟩)
        · exact hnext
        · exact hle f hf
      · refine .inr ⟨hfurther, next :: before, after, rfl, ?_, hafter⟩
        rintro f (_ | ⟨_, hf⟩)
        · exact Nat.lt_of_le_of_lt hnext hfurther
        · exact hbefore f hf

/-- The furthest failure is the first one at its index, and none is further. -/
theorem furthest_first {failure : Failure} {failures : List Failure}
    (h : failures.foldl keepFurther none = some failure) :
    ∃ before after, failures = before ++ failure :: after ∧
      (∀ f ∈ before, f.1 < failure.1) ∧ ∀ f ∈ after, f.1 ≤ failure.1 := by
  cases failures with
  | nil => cases h
  | cons next failures =>
    have hkept : failures.foldl keepFurther (some next) = some failure := h
    rcases foldl_keepFurther_cases hkept with
      ⟨rfl, hle⟩ | ⟨hfurther, before, after, rfl, hbefore, hafter⟩
    · exact ⟨[], failures, rfl, by simp, hle⟩
    · refine ⟨next :: before, after, rfl, ?_, hafter⟩
      rintro f (_ | ⟨_, hf⟩)
      · exact hfurther
      · exact hbefore f hf

/-- If there are failures, the furthest one is among them. -/
theorem exists_furthest {failures : List Failure} (hne : failures ≠ []) :
    ∃ failure ∈ failures, failures.foldl keepFurther none = some failure := by
  obtain ⟨failure, hfailure⟩ := List.exists_mem_of_ne_nil _ hne
  obtain ⟨furthest, hfurthest, -⟩ := covers_foldl none failures failure hfailure
  obtain ⟨before, after, hsplit, -⟩ := furthest_first hfurthest
  exact ⟨furthest, by simp [hsplit], hfurthest⟩

end Formula
