import Formula.Text.Blank
import Formula.Token.Basic
import Formula.Token.Name

/-!
# Scanning

A formula is cut into tokens from left to right. At each place the longest
lexeme is taken; blanks between lexemes are dropped. Scanning fails at a
character that begins no lexeme and at a number out of range.
-/

namespace Formula

/-- Why a text has no tokens. -/
inductive LexCause where
  | unexpected
  | integerRange (text : String)
  | realRange (text : String)
deriving DecidableEq, Repr

/-- A failure to scan: the character at fault and its place. -/
structure LexError where
  cause : LexCause
  offending : Char
  location : Location
deriving DecidableEq, Repr

/-- The failure in words. -/
def LexError.message (error : LexError) : String :=
  match error.cause with
  | .unexpected => "Unexpected character: '" ++ String.singleton error.offending ++ "'"
  | .integerRange text => "Integer literal out of range: " ++ text
  | .realRange text => "Real literal out of range: " ++ text

namespace Scan

/-- A lexeme at the head of a text, and the text behind it. -/
structure Lexeme where
  kind : TokenKind
  text : List Char
  rest : List Char
deriving DecidableEq, Repr

/-- The digits at the head of a text, and the text behind them. -/
def digits (text : List Char) : List Char × List Char :=
  (text.takeWhile Char.isDigit, text.dropWhile Char.isDigit)

/-- A point with the digits behind it, if the text begins with a point. -/
def fraction : List Char → List Char × List Char
  | '.' :: text => ('.' :: (digits text).1, (digits text).2)
  | text => ([], text)

/-- A sign at the head of a text. -/
def sign : List Char → List Char × List Char
  | c :: text => if c = '+' ∨ c = '-' then ([c], text) else ([], c :: text)
  | [] => ([], [])

/-- An exponent mark, an optional sign and digits. A mark without digits is
left in the text. -/
def exponent : List Char → List Char × List Char
  | c :: text =>
    let (mark, behind) := sign text
    let (power, rest) := digits behind
    if Numeral.isExponentMark c && !power.isEmpty then (c :: (mark ++ power), rest)
    else ([], c :: text)
  | [] => ([], [])

/-- A number: digits, a fraction and an exponent. Without the last two it is
an integer. -/
def number (text : List Char) : Lexeme :=
  let (whole, afterWhole) := digits text
  let (part, afterPart) := fraction afterWhole
  let (power, rest) := exponent afterPart
  ⟨if part.isEmpty && power.isEmpty then .integer else .real, whole ++ part ++ power, rest⟩

/-- A word that begins with the given letter. -/
def word (first : Char) (text : List Char) : Lexeme :=
  let others := text.takeWhile isWordChar
  ⟨if others.isEmpty then .letter else .identifier, first :: others, text.dropWhile isWordChar⟩

/-- Whether a text begins with a digit. -/
def startsWithDigit : List Char → Bool
  | c :: _ => c.isDigit
  | [] => false

/-- The lexeme at the head of a text. -/
def lexeme? : List Char → Option Lexeme
  | [] => none
  | c :: text =>
    if c.isDigit || (c == '.' && startsWithDigit text) then some (number (c :: text))
    else if c.isAlpha then some (word c text)
    else if c = '(' then some ⟨.leftParen, [c], text⟩
    else if c = ')' then some ⟨.rightParen, [c], text⟩
    else (Operator.ofChar? c).map fun _ => ⟨.operator, [c], text⟩

/-- Splitting off digits loses nothing of the text. -/
theorem digits_append (text : List Char) : (digits text).1 ++ (digits text).2 = text :=
  List.takeWhile_append_dropWhile

/-- Splitting off a fraction loses nothing of the text. -/
theorem fraction_append (text : List Char) : (fraction text).1 ++ (fraction text).2 = text := by
  unfold fraction
  split
  · simp [digits_append]
  · rfl

/-- Splitting off a sign loses nothing of the text. -/
theorem sign_append (text : List Char) : (sign text).1 ++ (sign text).2 = text := by
  unfold sign
  split
  · split <;> rfl
  · rfl

/-- Splitting off an exponent loses nothing of the text. -/
theorem exponent_append (text : List Char) : (exponent text).1 ++ (exponent text).2 = text := by
  cases text with
  | nil => rfl
  | cons c text =>
    simp only [exponent]
    split
    · simp [digits_append, sign_append]
    · rfl

/-- A number and the text behind it make up the text. -/
theorem number_append (text : List Char) : (number text).text ++ (number text).rest = text := by
  simp only [number, List.append_assoc, exponent_append, fraction_append, digits_append]

/-- The first character tells which lexeme a text begins with. -/
theorem lexeme?_cases {c : Char} {text : List Char} {lexeme : Lexeme}
    (h : lexeme? (c :: text) = some lexeme) :
    ((c.isDigit || (c == '.' && startsWithDigit text)) ∧ lexeme = number (c :: text)) ∨
      (c.isAlpha ∧ lexeme = word c text) ∨
      (c = '(' ∧ lexeme = ⟨.leftParen, [c], text⟩) ∨
      (c = ')' ∧ lexeme = ⟨.rightParen, [c], text⟩) ∨
      ((Operator.ofChar? c).isSome ∧ lexeme = ⟨.operator, [c], text⟩) := by
  simp only [lexeme?] at h
  split at h
  · exact .inl ⟨‹_›, (Option.some.inj h).symm⟩
  split at h
  · exact .inr (.inl ⟨‹_›, (Option.some.inj h).symm⟩)
  split at h
  · exact .inr (.inr (.inl ⟨‹_›, (Option.some.inj h).symm⟩))
  split at h
  · exact .inr (.inr (.inr (.inl ⟨‹_›, (Option.some.inj h).symm⟩)))
  · obtain ⟨op, hop, rfl⟩ := Option.map_eq_some_iff.mp h
    exact .inr (.inr (.inr (.inr ⟨by simp [hop], rfl⟩)))

/-- A lexeme and the text behind it make up the text. -/
theorem lexeme?_append {text : List Char} {lexeme : Lexeme} (h : lexeme? text = some lexeme) :
    lexeme.text ++ lexeme.rest = text := by
  cases text with
  | nil => simp [lexeme?] at h
  | cons c text =>
    rcases lexeme?_cases h with ⟨-, rfl⟩ | ⟨-, rfl⟩ | ⟨-, rfl⟩ | ⟨-, rfl⟩ | ⟨-, rfl⟩
    · exact number_append _
    · simp [word]
    · rfl
    · rfl
    · rfl

/-- A number that begins with a digit, or with a point before one, is not empty. -/
theorem number_ne_nil {c : Char} {text : List Char}
    (h : c.isDigit || (c == '.' && startsWithDigit text)) : (number (c :: text)).text ≠ [] := by
  simp only [number]
  by_cases hc : c.isDigit
  · simp [digits, hc]
  · obtain ⟨rfl, -⟩ : c = '.' ∧ startsWithDigit text := by simpa [hc] using h
    simp [digits, fraction, hc]

/-- Lexemes are not empty. -/
theorem lexeme?_ne_nil {text : List Char} {lexeme : Lexeme} (h : lexeme? text = some lexeme) :
    lexeme.text ≠ [] := by
  cases text with
  | nil => simp [lexeme?] at h
  | cons c text =>
    rcases lexeme?_cases h with ⟨hc, rfl⟩ | ⟨-, rfl⟩ | ⟨-, rfl⟩ | ⟨-, rfl⟩ | ⟨-, rfl⟩
    · exact number_ne_nil hc
    all_goals simp [word]

/-- Taking a lexeme off makes a text shorter. -/
theorem lexeme?_rest_length {text : List Char} {lexeme : Lexeme} (h : lexeme? text = some lexeme) :
    lexeme.rest.length < text.length := by
  have happend := congrArg List.length (lexeme?_append h)
  have hpos := List.length_pos_iff.mpr (lexeme?_ne_nil h)
  rw [List.length_append] at happend
  omega

/-- The token of a lexeme at a place. -/
def Lexeme.token (lexeme : Lexeme) (place : Location) : Token :=
  ⟨lexeme.kind, String.ofList lexeme.text, place⟩

/-- The failure of a number token without a value. -/
def rangeError? (first : Char) (token : Token) : Option LexError :=
  match token.kind with
  | .integer =>
    if token.literal?.isNone then some ⟨.integerRange token.text, first, token.location⟩ else none
  | .real =>
    if token.literal?.isNone then some ⟨.realRange token.text, first, token.location⟩ else none
  | _ => none

/-- The tokens of a text that begins at a place, the end of the input last. -/
def tokens (place : Location) : List Char → Except LexError (List Token)
  | [] => .ok [⟨.ending, "", place⟩]
  | c :: text =>
    if isBlank c then tokens (place.advance c) text
    else
      match _h : lexeme? (c :: text) with
      | none => .error ⟨.unexpected, c, place⟩
      | some lexeme =>
        match rangeError? c (lexeme.token place) with
        | some error => .error error
        | none => (lexeme.token place :: ·) <$> tokens (place.after lexeme.text) lexeme.rest
termination_by text => text.length
decreasing_by
  · simp
  · exact lexeme?_rest_length ‹_›

end Scan

/-- The tokens of a formula, the end of the input last. -/
def tokenize (source : String) : Except LexError (List Token) :=
  Scan.tokens Location.start source.toList

end Formula
