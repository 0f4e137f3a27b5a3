import Formula.Parse.Transcript
import Formula.Text.Line

/-!
# Diagnostics

A formula is refused by the scanner or by the parser. Either failure is
diagnosed by a message, the piece of the formula at fault, and its place. A
report shows the line of the formula with a caret below the column at fault.
-/

namespace Formula

/-- Who refused a formula. -/
inductive Stage where
  | scanner
  | parser
deriving DecidableEq, Repr

/-- What is wrong with a formula, and where. -/
structure Diagnostic where
  stage : Stage
  detail : String
  offending : String
  location : Location
deriving DecidableEq, Repr

namespace Diagnostic

/-- The diagnostic in words, with line and column. -/
def message (diagnostic : Diagnostic) : String :=
  (match diagnostic.stage with
    | .scanner => "Lexer error"
    | .parser => "Parse error") ++
    " at line " ++ Numeral.natural diagnostic.location.line ++ ", column " ++
    Numeral.natural diagnostic.location.column ++ ": " ++ diagnostic.detail

/-- The line of a text at fault; a text without that many lines has none. -/
def sourceLine (diagnostic : Diagnostic) (source : String) : String :=
  ((Text.lines source)[diagnostic.location.line - 1]?).getD ""

/-- The message, the line at fault, and a caret below the column at fault. -/
def report (diagnostic : Diagnostic) (source : String) : String :=
  diagnostic.message ++ "\n  " ++ diagnostic.sourceLine source ++ "\n  " ++
    Text.blanks (diagnostic.location.column - 1) ++ "^"

end Diagnostic

/-- Why a formula has no tree. -/
inductive FormulaError where
  | lex (error : LexError)
  | parse (error : ParseError)
deriving DecidableEq, Repr

namespace FormulaError

/-- The diagnostic of a failure. At the end of the input nothing is at fault. -/
def diagnostic : FormulaError → Diagnostic
  | lex error =>
    ⟨.scanner, error.message, String.singleton error.offending, error.location⟩
  | parse error => ⟨.parser, error.message, error.found.text, error.location⟩

/-- The place of a failure. -/
def location (error : FormulaError) : Location := error.diagnostic.location

/-- The report of a failure in a formula. -/
def report (error : FormulaError) (source : String) : String :=
  error.diagnostic.report source

end FormulaError

/-- The tree of a formula under a grammar. -/
def parseWith (grammar : Grammar) (source : String) : Except FormulaError Expr :=
  match tokenize source with
  | .error error => .error (.lex error)
  | .ok tokens => (parseTokens grammar tokens).mapError .parse

/-- The tree of a formula under the usual grammar. -/
def parse (source : String) : Except FormulaError Expr := parseWith .standard source

section

variable {grammar : Grammar} {source : String} {tokens : List Token} {e : Expr}

/-- A formula that has tokens is parsed as its tokens are. -/
theorem parseWith_of_tokenize (h : tokenize source = .ok tokens) :
    parseWith grammar source = (parseTokens grammar tokens).mapError .parse := by
  rw [parseWith, h]

/-- The tree of a formula that has tokens is the tree of its tokens. -/
theorem parseWith_eq_ok_iff (h : tokenize source = .ok tokens) :
    parseWith grammar source = .ok e ↔ parseTokens grammar tokens = .ok e := by
  rw [parseWith_of_tokenize h]
  cases parseTokens grammar tokens with
  | error failure => exact ⟨nofun, nofun⟩
  | ok root =>
    constructor
    · rintro ⟨⟩
      rfl
    · rintro ⟨⟩
      rfl

/-- A formula that has tokens fails in the parser exactly if its tokens do. -/
theorem parseWith_eq_error_iff {error : ParseError} (h : tokenize source = .ok tokens) :
    parseWith grammar source = .error (.parse error) ↔
      parseTokens grammar tokens = .error error := by
  rw [parseWith_of_tokenize h]
  cases parseTokens grammar tokens with
  | error failure =>
    constructor
    · rintro ⟨⟩
      rfl
    · rintro ⟨⟩
      rfl
  | ok root => exact ⟨nofun, nofun⟩

/-- A formula that has a tree has tokens, and these have the same tree. -/
theorem exists_tokens_of_parseWith (h : parseWith grammar source = .ok e) :
    ∃ tokens, tokenize source = .ok tokens ∧ parseTokens grammar tokens = .ok e := by
  cases htokens : tokenize source with
  | error error =>
    rw [parseWith, htokens] at h
    cases h
  | ok tokens => exact ⟨tokens, rfl, (parseWith_eq_ok_iff htokens).mp h⟩

end

end Formula
