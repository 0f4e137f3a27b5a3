import Formula.Numeral.Reading
import Formula.Operator
import Formula.Text.Location

/-!
# Tokens

A token is a piece of a formula with its kind and its place. The text decides
what a token means: which operator it is, or which number.
-/

namespace Formula

/-- The kinds of tokens. A name of one letter is a kind of its own, since only
such names are variables. -/
inductive TokenKind where
  | integer
  | real
  | letter
  | identifier
  | operator
  | leftParen
  | rightParen
  | ending
deriving DecidableEq, Repr

/-- The name of a kind in listings. -/
def TokenKind.name : TokenKind → String
  | integer => "Integer"
  | real => "Real"
  | letter => "Variable"
  | identifier => "Identifier"
  | operator => "Operator"
  | leftParen => "LeftParen"
  | rightParen => "RightParen"
  | ending => "End"

/-- A number in a formula. Integers and reals stay apart. -/
inductive Literal where
  | integer (value : Int64)
  | real (value : Binary64)
deriving DecidableEq, Repr

/-- A piece of a formula. The end of the input is a token with an empty text. -/
structure Token where
  kind : TokenKind
  text : String
  location : Location
deriving DecidableEq, Repr

namespace Token

/-- Whether the token is the end of the input. -/
def isEnding (token : Token) : Bool := token.kind == .ending

/-- The operator of an operator token. -/
def operator? (token : Token) : Option Operator :=
  if token.kind = .operator then Operator.ofText? token.text else none

/-- The number of a number token, if it is in range. -/
def literal? (token : Token) : Option Literal :=
  match token.kind with
  | .integer => (Numeral.int64? token.text.toList).map .integer
  | .real => ((Numeral.binary64? token.text.toList).filter Binary64.isFinite).map .real
  | _ => none

/-- The token as messages call it. -/
def describe (token : Token) : String :=
  match token.kind with
  | .integer => "integer " ++ token.text
  | .real => "real " ++ token.text
  | .letter => "variable '" ++ token.text ++ "'"
  | .identifier => "identifier '" ++ token.text ++ "'"
  | .operator => "operator '" ++ token.text ++ "'"
  | .leftParen => "'('"
  | .rightParen => "')'"
  | .ending => "end of input"

end Token

end Formula
