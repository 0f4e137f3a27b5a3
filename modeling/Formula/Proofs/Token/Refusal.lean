import Formula.Proofs.Token.Lossless
import Formula.Proofs.Token.Scanning

/-!
# Where scanning fails

Scanning stops at a character of the formula that is no blank, and the failure names this
character and its place. The lexemes in front of it hold no blanks, so that neither a token
nor a character at fault goes over the end of a line.
-/

namespace Formula

namespace Scan

variable {before : String} {text : List Char} {c : Char}

/-- No digit is a blank. -/
theorem isBlank_of_isDigit (h : c.isDigit) : isBlank c = false := by
  have hrange := toNat_of_isDigit h
  exact isBlank_eq_false (by omega) (by omega)

/-- No character of a word is a blank. -/
theorem isBlank_of_isWordChar (h : isWordChar c) : isBlank c = false := by
  simp only [isWordChar, Char.isAlphanum, Bool.or_eq_true, beq_iff_eq] at h
  rcases h with ((halpha | hdigit) | rfl) | rfl
  · have hrange := toNat_of_isAlpha halpha
    exact isBlank_eq_false (by omega) (by omega)
  · exact isBlank_of_isDigit hdigit
  · decide
  · decide

/-- There are no blanks among the digits that are split off. -/
theorem isBlank_of_mem_digits (h : c ∈ (digits text).1) : isBlank c = false :=
  isBlank_of_isDigit (List.mem_takeWhile_imp h)

/-- There are no blanks in a fraction that is split off. -/
theorem isBlank_of_mem_fraction (h : c ∈ (fraction text).1) : isBlank c = false := by
  unfold fraction at h
  split at h
  · rcases List.mem_cons.mp h with rfl | hdigits
    · decide
    · exact isBlank_of_mem_digits hdigits
  · cases h

/-- A sign that is split off is no blank. -/
theorem isBlank_of_mem_sign (h : c ∈ (sign text).1) : isBlank c = false := by
  unfold sign at h
  split at h
  · split at h
    · rename_i hsign
      obtain rfl := List.mem_singleton.mp h
      rcases hsign with rfl | rfl <;> decide
    · cases h
  · cases h

/-- There are no blanks in an exponent that is split off. -/
theorem isBlank_of_mem_exponent (h : c ∈ (exponent text).1) : isBlank c = false := by
  cases text with
  | nil => cases h
  | cons mark text =>
    simp only [exponent] at h
    split at h
    · rename_i hmark
      rcases List.mem_cons.mp h with rfl | h
      · have hexponent : c = 'e' ∨ c = 'E' := by
          simpa [Numeral.isExponentMark] using (Bool.and_eq_true_iff.mp hmark).1
        rcases hexponent with rfl | rfl <;> decide
      · rcases List.mem_append.mp h with hsign | hdigits
        · exact isBlank_of_mem_sign hsign
        · exact isBlank_of_mem_digits hdigits
    · cases h

/-- No character of a lexeme is a blank. -/
theorem isBlank_of_mem_lexeme {lexeme : Lexeme} (h : lexeme? text = some lexeme)
    (hmem : c ∈ lexeme.text) : isBlank c = false := by
  cases text with
  | nil => cases h
  | cons first text =>
    have hfirst := isBlank_of_lexeme? h
    rcases lexeme?_cases h with ⟨-, rfl⟩ | ⟨-, rfl⟩ | ⟨-, rfl⟩ | ⟨-, rfl⟩ | ⟨-, rfl⟩
    · simp only [number, List.mem_append] at hmem
      rcases hmem with (hwhole | hpart) | hpower
      · exact isBlank_of_mem_digits hwhole
      · exact isBlank_of_mem_fraction hpart
      · exact isBlank_of_mem_exponent hpower
    · rcases List.mem_cons.mp hmem with rfl | hothers
      · exact hfirst
      · exact isBlank_of_isWordChar (List.mem_takeWhile_imp hothers)
    all_goals
      obtain rfl := List.mem_singleton.mp hmem
      exact hfirst

/-- There are no blanks in a token that was cut off as a lexeme. -/
theorem IsLexeme.isBlank_of_mem {token : Token} (h : IsLexeme token)
    (hmem : c ∈ token.text.toList) : isBlank c = false := by
  obtain ⟨text, lexeme, hlexeme, htoken, -⟩ := h
  rw [← htoken] at hmem
  exact isBlank_of_mem_lexeme hlexeme (by simpa [Lexeme.token] using hmem)

/-- A number out of range is at fault by its first character. -/
theorem eq_of_rangeError? {first : Char} {token : Token} {error : LexError}
    (h : rangeError? first token = some error) :
    error.offending = first ∧ error.location = token.location := by
  unfold rangeError? at h
  split at h
  · split at h
    · cases h
      exact ⟨rfl, rfl⟩
    · cases h
  · split at h
    · cases h
      exact ⟨rfl, rfl⟩
    · cases h
  · cases h

/-- Scanning behind a text fails at a character that is no blank, in the place that the
characters in front of it make out. -/
theorem exists_of_tokens_error {error : LexError}
    (h : tokens (.behind before) text = .error error) :
    ∃ front rest, text = front ++ error.offending :: rest ∧ isBlank error.offending = false ∧
      error.location = .behind (before ++ String.ofList front) := by
  generalize hplace : Location.behind before = place at h
  fun_induction tokens place text generalizing before with
  | case1 => cases h
  | case2 place c text hblank ih =>
    have hpush : Location.behind (before.push c) = place.advance c := by
      rw [← Location.advance_behind, hplace]
    obtain ⟨front, rest, htext, hoffending, hlocation⟩ := ih hpush h
    refine ⟨c :: front, rest, by rw [htext, List.cons_append], hoffending, ?_⟩
    rw [hlocation]
    congr 1
    simp [← String.toList_inj]
  | case3 place c text hblank hnone =>
    cases h
    exact ⟨[], text, rfl, by simpa using hblank, by simp [hplace]⟩
  | case4 place c text hblank lexeme hlexeme found hrange =>
    cases h
    obtain ⟨hoffending, hlocation⟩ := eq_of_rangeError? hrange
    refine ⟨[], text, by rw [hoffending, List.nil_append], by simpa [hoffending] using hblank, ?_⟩
    simpa [hplace, Lexeme.token] using hlocation
  | case5 place c text hblank lexeme hlexeme hrange ih =>
    have hbehind : Location.behind (before ++ String.ofList lexeme.text) =
        place.after lexeme.text := by
      rw [← Location.after_behind, hplace]
    cases hrest : tokens (place.after lexeme.text) lexeme.rest with
    | ok found =>
      rw [hrest] at h
      cases h
    | error found =>
      rw [hrest] at h
      cases h
      obtain ⟨front, rest, htext, hoffending, hlocation⟩ := ih hbehind hrest
      refine ⟨lexeme.text ++ front, rest, ?_, hoffending, ?_⟩
      · rw [← lexeme?_append hlexeme, htext, List.append_assoc]
      · rw [hlocation, String.ofList_append, String.append_assoc]

end Scan

end Formula
