import Formula.Numeral.Layout
import Formula.Token.Basic

/-!
# Parse failures

A failure names the token where the parser stopped, and either what it would
have taken there or that the nesting limit was reached.
-/

namespace Formula

/-- What the parser would have taken in place of a token. -/
inductive Expectation where
  | operand
  | number
  /-- The parenthesis that closes the one opened in this column. -/
  | closingParen (column : Nat)
  | operatorOrEnding
  | prefixOperator
  | postfixOperator
  | binaryOperator
  | completeExpression
deriving DecidableEq, Repr

namespace Expectation

/-- The expectation in words. -/
def describe : Expectation → String
  | operand => "operand"
  | number => "number"
  | closingParen _ => "')'"
  | operatorOrEnding => "operator or end of input"
  | prefixOperator => "prefix operator"
  | postfixOperator => "postfix operator"
  | binaryOperator => "binary operator"
  | completeExpression => "a complete expression"

/-- What a message adds behind the token that was found. -/
def note : Expectation → String
  | closingParen column => " to close '(' at column " ++ Numeral.natural column
  | _ => ""

end Expectation

/-- Why the parser stopped. -/
inductive ParseCause where
  | expected (what : Expectation)
  | tooDeep
deriving DecidableEq, Repr

/-- A failure to parse, at the token that was found. -/
structure ParseError where
  cause : ParseCause
  found : Token
deriving DecidableEq, Repr

namespace ParseError

/-- What was expected, in words. -/
def expected (error : ParseError) : String :=
  match error.cause with
  | .expected what => what.describe
  | .tooDeep => "shallower nesting"

/-- The failure in words. -/
def message (error : ParseError) : String :=
  match error.cause with
  | .expected what =>
    "expected " ++ what.describe ++ ", found " ++ error.found.describe ++ what.note
  | .tooDeep => "expression nested too deeply at " ++ error.found.describe

/-- The place of the failure. -/
def location (error : ParseError) : Location := error.found.location

end ParseError

end Formula
