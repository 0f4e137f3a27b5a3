import Formula.Token.Scan
import Mathlib.Data.String.Basic

/-!
# Scanning is lossless

A formula that is scanned consists of the texts of its tokens, in order, with nothing
but blanks in front of each of them. Every token says how many bytes, lines and
characters of its line lie in front of it.
-/

namespace Formula

/-- The place behind a text: its bytes, one more than its line feeds, and one more than
the characters behind the last of these. -/
def Location.behind (text : String) : Location where
  offset := text.utf8ByteSize
  line := 1 + text.toList.count '\n'
  column := 1 + (text.toList.reverse.takeWhile (· != '\n')).length

namespace Location

/-- Behind nothing is the start. -/
@[simp] theorem behind_empty : behind "" = start := rfl

/-- The place behind a text moves on with each character that is added to the text. -/
theorem advance_behind (text : String) (c : Char) :
    (behind text).advance c = behind (text.push c) := by
  by_cases hc : c = '\n'
  · subst hc
    simp [advance, behind, Nat.add_assoc]
  · simp [advance, behind, hc, Nat.add_comm]

/-- The place behind a run of characters is counted from the start of the text. -/
theorem after_behind (text : String) (run : List Char) :
    (behind text).after run = behind (text ++ String.ofList run) := by
  induction run generalizing text with
  | nil => simp
  | cons c run ih =>
    rw [after_cons, advance_behind, ih]
    congr 1
    simp [← String.toList_inj]

end Location

namespace Scan

/-- A token with the blanks in front of it. -/
structure SpacedToken where
  gap : String
  token : Token
  blank : isBlankText gap

/-- The text that spaced tokens make up. -/
def textOf (spaced : List SpacedToken) : String :=
  String.join (spaced.map fun piece => piece.gap ++ piece.token.text)

variable {before : String} {text : List Char} {tokens : List Token} {place : Location}
  {spaced front rest : List SpacedToken} {piece : SpacedToken}

/-- No tokens make up the empty text. -/
@[simp] theorem textOf_nil : textOf [] = "" := rfl

/-- The first token comes behind its blanks, and the text of the others behind it. -/
@[simp] theorem textOf_cons (piece : SpacedToken) (rest : List SpacedToken) :
    textOf (piece :: rest) = piece.gap ++ piece.token.text ++ textOf rest := by
  simp [textOf]

/-- Tokens behind others make up the text behind theirs. -/
@[simp] theorem textOf_append (front rest : List SpacedToken) :
    textOf (front ++ rest) = textOf front ++ textOf rest := by
  simp [textOf]

/-- Spaced tokens stand behind a text, each where it says it is. -/
def Placed (before : String) : List SpacedToken → Prop
  | [] => True
  | piece :: rest => piece.token.location = .behind (before ++ piece.gap) ∧
      Placed (before ++ piece.gap ++ piece.token.text) rest

/-- Each of the tokens stands behind the text and the tokens in front of it. -/
theorem Placed.location_eq (h : Placed before (front ++ piece :: rest)) :
    piece.token.location = .behind (before ++ textOf front ++ piece.gap) := by
  induction front generalizing before with
  | nil => simpa using h.1
  | cons first front ih => simpa [String.append_assoc] using ih h.2

/-- No token begins in the text in front of all of them. -/
theorem Placed.size_le (h : Placed before spaced) :
    ∀ piece ∈ spaced, before.utf8ByteSize ≤ piece.token.location.offset := by
  intro piece hmem
  obtain ⟨front, rest, rfl⟩ := List.append_of_mem hmem
  rw [h.location_eq]
  simp only [Location.behind, String.utf8ByteSize_append]
  omega

/-- Of two tokens the second begins behind the end of the first. -/
theorem Placed.pairwise (h : Placed before spaced) :
    (spaced.map SpacedToken.token).Pairwise fun first second =>
      first.location.offset + first.text.utf8ByteSize ≤ second.location.offset := by
  induction spaced generalizing before with
  | nil => exact .nil
  | cons piece rest ih =>
    refine .cons ?_ (ih h.2)
    intro token hmem
    obtain ⟨next, hnext, rfl⟩ := List.mem_map.mp hmem
    have hsize := h.2.size_le next hnext
    rw [h.1]
    simpa [Location.behind] using hsize

/-- A token that was cut off as a lexeme; if it is a number, it has a value. -/
def IsLexeme (token : Token) : Prop :=
  ∃ text lexeme, lexeme? text = some lexeme ∧ lexeme.token token.location = token ∧
    (token.kind = .integer ∨ token.kind = .real → token.literal?.isSome)

/-- A number that is not out of range has a value. -/
theorem literal?_isSome_of_rangeError? {first : Char} {token : Token}
    (h : rangeError? first token = none) (hkind : token.kind = .integer ∨ token.kind = .real) :
    token.literal?.isSome := by
  rcases hkind with hkind | hkind <;> simpa [rangeError?, hkind, Option.isSome_iff_ne_none] using h

/-- No lexeme is an end of the input. -/
theorem kind_ne_ending {lexeme : Lexeme} (h : lexeme? text = some lexeme) :
    lexeme.kind ≠ .ending := by
  cases text with
  | nil => cases h
  | cons c text =>
    rcases lexeme?_cases h with ⟨-, rfl⟩ | ⟨-, rfl⟩ | ⟨-, rfl⟩ | ⟨-, rfl⟩ | ⟨-, rfl⟩
    · simp only [number]
      split <;> simp
    · simp only [word]
      split <;> simp
    all_goals simp

/-- A token that was cut off as a lexeme is no end of the input. -/
theorem IsLexeme.kind_ne_ending {token : Token} (h : IsLexeme token) : token.kind ≠ .ending := by
  obtain ⟨text, lexeme, hlexeme, htoken, -⟩ := h
  rw [← htoken]
  exact Scan.kind_ne_ending hlexeme

/-- A token that was cut off as a lexeme is not empty. -/
theorem IsLexeme.text_ne_empty {token : Token} (h : IsLexeme token) : token.text ≠ "" := by
  obtain ⟨text, lexeme, hlexeme, htoken, -⟩ := h
  rw [← htoken]
  simpa [Lexeme.token] using lexeme?_ne_nil hlexeme

/-- The tokens of a text are lexemes, and behind them is the end of the input. -/
theorem tokens_eq_append (h : Scan.tokens place text = .ok tokens) :
    ∃ lexemes, tokens = lexemes ++ [⟨.ending, "", place.after text⟩] ∧
      ∀ token ∈ lexemes, IsLexeme token := by
  fun_induction Scan.tokens place text generalizing tokens with
  | case1 place =>
    cases h
    exact ⟨[], rfl, nofun⟩
  | case2 place c text hblank ih => exact ih h
  | case3 => cases h
  | case4 => cases h
  | case5 place c text hblank lexeme hlexeme hrange ih =>
    cases hrest : Scan.tokens (place.after lexeme.text) lexeme.rest with
    | error error =>
      rw [hrest] at h
      cases h
    | ok found =>
      rw [hrest] at h
      cases h
      obtain ⟨lexemes, rfl, hlexemes⟩ := ih hrest
      refine ⟨lexeme.token place :: lexemes, ?_, ?_⟩
      · rw [← lexeme?_append hlexeme, Location.after_append]
        rfl
      · rintro token (_ | ⟨_, hmem⟩)
        · exact ⟨_, lexeme, hlexeme, rfl, literal?_isSome_of_rangeError? hrange⟩
        · exact hlexemes token hmem

/-- A text that is scanned behind another one consists of its tokens and of blanks in
front of them. -/
theorem exists_spaced (h : Scan.tokens (.behind before) text = .ok tokens) :
    ∃ piece rest, (piece :: rest).map SpacedToken.token = tokens ∧
      String.ofList text = textOf (piece :: rest) ∧ Placed before (piece :: rest) := by
  generalize hplace : Location.behind before = place at h
  fun_induction Scan.tokens place text generalizing before tokens with
  | case1 place =>
    cases h
    exact ⟨⟨"", ⟨.ending, "", place⟩, rfl⟩, [], rfl, rfl, by simp [hplace], trivial⟩
  | case2 place c text hblank ih =>
    -- The blank becomes the first character of the first gap.
    have hpush : Location.behind (before.push c) = place.advance c := by
      rw [← Location.advance_behind, hplace]
    obtain ⟨piece, rest, hmap, htext, hlocation, hrest⟩ := ih hpush h
    have hgap : before.push c ++ piece.gap = before ++ (String.singleton c ++ piece.gap) := by
      simp [← String.toList_inj]
    have hblanks : isBlankText (String.singleton c ++ piece.gap) := by
      have hpiece := piece.blank
      simpa [isBlankText, hblank] using hpiece
    refine ⟨⟨String.singleton c ++ piece.gap, piece.token, hblanks⟩, rest, hmap, ?_, ?_, ?_⟩
    · rw [textOf_cons] at htext
      simp [String.ofList_cons, htext, String.append_assoc]
    · rw [hlocation, hgap]
    · rwa [← hgap]
  | case3 => cases h
  | case4 => cases h
  | case5 place c text hblank lexeme hlexeme hrange ih =>
    cases hrest : Scan.tokens (place.after lexeme.text) lexeme.rest with
    | error error =>
      rw [hrest] at h
      cases h
    | ok found =>
      rw [hrest] at h
      cases h
      have hbehind : Location.behind (before ++ String.ofList lexeme.text) =
          place.after lexeme.text := by
        rw [← Location.after_behind, hplace]
      obtain ⟨piece, rest, rfl, htext, hplaced⟩ := ih hbehind hrest
      refine ⟨⟨"", lexeme.token place, rfl⟩, piece :: rest, rfl, ?_, ?_, ?_⟩
      · rw [← lexeme?_append hlexeme, String.ofList_append, htext]
        simp [Lexeme.token]
      · simp [Lexeme.token, hplace]
      · simpa [Lexeme.token] using hplaced

end Scan

open Scan

/-- The tokens of a formula are not empty, apart from the end of the input, which is
the last one and no other and stands behind the whole formula. The formula is made up
of the texts of its tokens and of blanks in front of each one; the place of a token is
counted from the text in front of it, and no token begins before the end of another
one in front of it. -/
theorem tokenize_lossless (source : String) (tokens : List Token)
    (h : tokenize source = .ok tokens) :
    (∃ others, tokens = others ++ [⟨.ending, "", .behind source⟩] ∧
      ∀ token ∈ others, token.kind ≠ .ending ∧ token.text ≠ "") ∧
    (∃ spaced : List SpacedToken, spaced.map SpacedToken.token = tokens ∧
      source = textOf spaced ∧
      ∀ front piece rest, spaced = front ++ piece :: rest →
        source = textOf front ++ piece.gap ++ piece.token.text ++ textOf rest ∧
        piece.token.location = .behind (textOf front ++ piece.gap)) ∧
    tokens.Pairwise fun first second =>
      first.location.offset + first.text.utf8ByteSize ≤ second.location.offset := by
  have hscan : Scan.tokens (.behind "") source.toList = .ok tokens := h
  obtain ⟨piece, rest, hmap, htext, hplaced⟩ := exists_spaced hscan
  rw [String.ofList_toList] at htext
  refine ⟨?_, ⟨piece :: rest, hmap, htext, ?_⟩, hmap ▸ hplaced.pairwise⟩
  · obtain ⟨lexemes, rfl, hlexemes⟩ := tokens_eq_append h
    refine ⟨lexemes, ?_, fun token hmem => ?_⟩
    · rw [← Location.behind_empty, Location.after_behind, String.ofList_toList, String.empty_append]
    · exact ⟨(hlexemes token hmem).kind_ne_ending, (hlexemes token hmem).text_ne_empty⟩
  · intro front next others hsplit
    rw [hsplit] at htext hplaced
    refine ⟨?_, ?_⟩
    · simpa [String.append_assoc] using htext
    · simpa using hplaced.location_eq

/-- A sum over two lines, with a blank of two bytes in front. The second operand is on
the second line, at the eighth byte. -/
theorem tokenize_lossless_two_lines :
    let source := "\u00a0f1 +\n 2"
    let tokens : List Token := [⟨.identifier, "f1", ⟨2, 1, 2⟩⟩, ⟨.operator, "+", ⟨5, 1, 5⟩⟩,
      ⟨.integer, "2", ⟨8, 2, 2⟩⟩, ⟨.ending, "", ⟨9, 2, 3⟩⟩]
    tokenize source = .ok tokens ∧ (⟨9, 2, 3⟩ : Location) = .behind source ∧
      ∃ spaced : List SpacedToken, spaced.map SpacedToken.token = tokens ∧
        source = textOf spaced := by
  intro source tokens
  have htokens : tokenize source = .ok tokens := by decide +kernel
  obtain ⟨-, ⟨spaced, hmap, htext, -⟩, -⟩ := tokenize_lossless source tokens htokens
  exact ⟨htokens, by decide, spaced, hmap, htext⟩

end Formula
