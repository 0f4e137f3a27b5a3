import Formula.Proofs.Grammar.Derivation
import Formula.Proofs.Token.Forms
import Formula.Proofs.Token.Lossless
import Mathlib.Combinatorics.Enumerative.DyckWord

/-!
# Parentheses of a formula

An opening parenthesis is a step up and a closing one a step down, so that parentheses are
balanced if their steps are a Dyck word. No lexeme has a parenthesis in it but the parentheses
themselves. So the steps of a formula are those of its tokens.
-/

namespace Formula

/-- The step of a character. -/
def Text.paren? : Char → Option DyckStep
  | '(' => some .U
  | ')' => some .D
  | _ => none

/-- The steps of a text. -/
def Text.parens (text : List Char) : List DyckStep := text.filterMap paren?

/-- The step of the tokens of a kind. -/
def TokenKind.paren? : TokenKind → Option DyckStep
  | .leftParen => some .U
  | .rightParen => some .D
  | _ => none

/-- An opening parenthesis is a step up. -/
@[simp] theorem TokenKind.paren?_leftParen : leftParen.paren? = some .U := rfl

/-- A closing parenthesis is a step down. -/
@[simp] theorem TokenKind.paren?_rightParen : rightParen.paren? = some .D := rfl

/-- An operator is no step. -/
@[simp] theorem TokenKind.paren?_operator : operator.paren? = none := rfl

/-- The tokens that are parentheses are those that are steps. -/
theorem Token.isParen_eq (token : Token) : token.isParen = token.kind.paren?.isSome := by
  unfold isParen
  cases token.kind <;> rfl

namespace Text

variable {text : List Char} {c : Char}

/-- The steps of two texts come one after the other. -/
theorem parens_append (left right : List Char) :
    parens (left ++ right) = parens left ++ parens right := List.filterMap_append

/-- A text has no steps exactly if none of its characters is one. -/
theorem parens_eq_nil_iff : parens text = [] ↔ ∀ c ∈ text, paren? c = none :=
  List.filterMap_eq_nil_iff

/-- Characters other than the two parentheses are no steps. -/
theorem paren?_of_ne (hopening : c ≠ '(') (hclosing : c ≠ ')') : paren? c = none := by
  unfold paren?
  split
  · exact absurd rfl hopening
  · exact absurd rfl hclosing
  · rfl

/-- No character of a word is a step. -/
theorem paren?_of_isWordChar (h : isWordChar c = true) : paren? c = none :=
  paren?_of_ne (by rintro rfl; exact absurd h (by decide))
    (by rintro rfl; exact absurd h (by decide))

/-- There are no steps among blanks. -/
theorem parens_of_isBlankText {gap : String} (h : isBlankText gap) : parens gap.toList = [] :=
  parens_eq_nil_iff.mpr fun c hmem => by
    have hblank : isBlank c = true := List.all_eq_true.mp h c hmem
    exact paren?_of_ne (by rintro rfl; exact absurd hblank (by decide))
      (by rintro rfl; exact absurd hblank (by decide))

end Text

namespace Scan

open Numeral (Digits isExponentMark)
open Text (paren? parens)

variable {kind : TokenKind} {lexeme text whole part power : List Char} {c : Char}
  {spaced : List SpacedToken} {token : Token}

/-- No digit is a step. -/
theorem paren?_of_digits (h : Digits text) (hmem : c ∈ text) : paren? c = none :=
  Text.paren?_of_isWordChar (by simp [isWordChar, Char.isAlphanum, h c hmem])

/-- There are no steps in a numeral. -/
theorem IsNumber.paren?_of_mem (h : IsNumber whole part power)
    (hmem : c ∈ whole ++ part ++ power) : paren? c = none := by
  rcases List.mem_append.mp hmem with hmem | hpower
  · rcases List.mem_append.mp hmem with hwhole | hpart
    · exact paren?_of_digits h.digits hwhole
    · cases h.fraction with
      | nil => cases hpart
      | point hplaces =>
        rcases List.mem_cons.mp hpart with rfl | hplace
        · rfl
        · exact paren?_of_digits hplaces hplace
  · cases h.exponent with
    | nil => cases hpower
    | mark hmark hsign hdigits =>
      rcases List.mem_cons.mp hpower with rfl | hpower
      · exact Text.paren?_of_ne (by rintro rfl; exact absurd hmark (by decide))
          (by rintro rfl; exact absurd hmark (by decide))
      · rcases List.mem_append.mp hpower with hmem | hdigit
        · cases hsign with
          | nil => cases hmem
          | plus | minus =>
            obtain rfl := List.mem_singleton.mp hmem
            rfl
        · exact paren?_of_digits hdigits hdigit

/-- A lexeme of a kind without a step has no parenthesis in it. -/
theorem Form.paren?_of_mem (h : Form kind lexeme) (hkind : kind.paren? = none)
    (hmem : c ∈ lexeme) : paren? c = none := by
  cases h with
  | number hnumber => exact hnumber.paren?_of_mem hmem
  | word hfirst hothers =>
    rcases List.mem_cons.mp hmem with rfl | hmem
    · exact Text.paren?_of_isWordChar (isWordChar_of_isAlpha hfirst)
    · exact Text.paren?_of_isWordChar (hothers _ hmem)
  | leftParen | rightParen => cases hkind
  | operator op =>
    obtain rfl := List.mem_singleton.mp hmem
    cases op <;> rfl

/-- A lexeme of a kind with a step is the parenthesis that makes this step. -/
theorem Form.eq_singleton_of_paren? {step : DyckStep} (h : Form kind lexeme)
    (hkind : kind.paren? = some step) : ∃ c, lexeme = [c] ∧ paren? c = some step := by
  cases h with
  | leftParen | rightParen => exact ⟨_, rfl, hkind⟩
  | number | word => split at hkind <;> cases hkind
  | operator => cases hkind

/-- The steps of a lexeme are that of its kind. -/
theorem Form.parens_eq (h : Form kind lexeme) : parens lexeme = kind.paren?.toList := by
  cases hkind : kind.paren? with
  | none => exact Text.parens_eq_nil_iff.mpr fun c hmem => h.paren?_of_mem hkind hmem
  | some step =>
    obtain ⟨c, rfl, hstep⟩ := h.eq_singleton_of_paren? hkind
    simp [parens, hstep]

/-- The text of a token that was cut off as a lexeme has the form of its kind. -/
theorem IsLexeme.form (h : IsLexeme token) : Form token.kind token.text.toList := by
  obtain ⟨text, lexeme, hlexeme, htoken, -⟩ := h
  rw [← htoken]
  simpa [Lexeme.token] using form_of_lexeme? hlexeme

/-- Blanks between tokens have no steps. -/
theorem parens_textOf (h : ∀ piece ∈ spaced,
      parens piece.token.text.toList = piece.token.kind.paren?.toList) :
    parens (textOf spaced).toList =
      (spaced.map SpacedToken.token).filterMap fun token => token.kind.paren? := by
  induction spaced with
  | nil => rfl
  | cons piece spaced ih =>
    obtain ⟨hpiece, hspaced⟩ := List.forall_mem_cons.mp h
    rw [textOf_cons, String.toList_append, String.toList_append, Text.parens_append,
      Text.parens_append, Text.parens_of_isBlankText piece.blank, hpiece, ih hspaced,
      List.map_cons, List.filterMap_cons]
    cases piece.token.kind.paren? <;> rfl

end Scan

/-- The steps of a formula are those of its tokens. -/
theorem parens_of_tokenize {source : String} {tokens : List Token}
    (h : tokenize source = .ok tokens) :
    Text.parens source.toList = tokens.filterMap fun token => token.kind.paren? := by
  have hscan : Scan.tokens (.behind "") source.toList = .ok tokens := h
  obtain ⟨piece, rest, hmap, htext, -⟩ := Scan.exists_spaced hscan
  rw [String.ofList_toList] at htext
  rw [htext, ← hmap]
  refine Scan.parens_textOf fun piece hpiece => ?_
  obtain ⟨lexemes, htokens, hlexemes⟩ := Scan.tokens_eq_append h
  have htoken : piece.token ∈ tokens := hmap ▸ List.mem_map_of_mem hpiece
  rw [htokens] at htoken
  rcases List.mem_append.mp htoken with hmem | hmem
  · exact (hlexemes _ hmem).form.parens_eq
  · rw [List.mem_singleton.mp hmem]
    rfl

end Formula
