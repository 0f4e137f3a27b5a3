import Formula.Expr.Render
import Formula.Token.Name

/-!
# Nested sequences

A tree can be handed on as nested sequences of numbers and symbols: an operator
stands between, before or behind its operands as it does in a formula. The
sequence form is read back by its shape.
-/

namespace Formula

/-- A sequence of sequences, numbers and symbols. -/
inductive Nested where
  | number (value : Literal)
  | symbol (text : String)
  | sequence (items : List Nested)
deriving Repr

/-- Why nested sequences are not a tree. -/
inductive NestedError where
  | invalidAtom (text : String)
  | unknownOperator (text : String)
  | invalidShape (count : Nat)
deriving DecidableEq, Repr

/-- The fault in words. -/
def NestedError.message : NestedError → String
  | invalidAtom text => "'" ++ text ++ "' is not a variable name"
  | unknownOperator text => "unknown operator '" ++ text ++ "'"
  | invalidShape count =>
    "a sequence of " ++ Numeral.natural count ++ " elements is not an expression"

namespace Nested

/-- The text of a symbol. -/
def symbol? : Nested → Option String
  | symbol text => some text
  | _ => none

/-- The binary operator of a symbol. -/
def binaryOp? (text : String) : Option BinaryOp :=
  (Operator.ofText? text).bind Operator.asBinary?

/-- The prefix operator of a symbol. What is no operator symbol has to be a name. -/
def prefixOp? (text : String) : Option PrefixOp :=
  match Operator.ofText? text with
  | some op => op.asPrefix?
  | none => if isName text then some (.apply text) else none

/-- The variable named by a symbol. -/
def letter? (text : String) : Option Char :=
  match text.toList with
  | [c] => if c.isAlpha then some c else none
  | _ => none

/-- The tree of nested sequences. A sequence of two is read as postfix if the
second element is a factorial sign and as prefix otherwise; an operator is
looked at before its operands. -/
def toExpr : Nested → Except NestedError Expr
  | number value => .ok (.literal value)
  | symbol text =>
    match letter? text with
    | some name => .ok (.var name)
    | none => .error (.invalidAtom text)
  | sequence [left, middle, right] =>
    match middle.symbol? with
    | none => .error (.invalidShape 3)
    | some text =>
      match binaryOp? text with
      | none => .error (.unknownOperator text)
      | some op => do
        let l ← left.toExpr
        let r ← right.toExpr
        .ok (.binary op l r)
  | sequence [first, second] =>
    if second.symbol? = some PostfixOp.factorial.symbol then do
      let operand ← first.toExpr
      .ok (.postfixed operand .factorial)
    else
      match first.symbol? with
      | none => .error (.invalidShape 2)
      | some text =>
        match prefixOp? text with
        | none => .error (.unknownOperator text)
        | some op => do
          let operand ← second.toExpr
          .ok (.prefixed op operand)
  | sequence items => .error (.invalidShape items.length)

mutual

/-- The sequences as lists in brackets, with symbols in single quotes. -/
def listing : Nested → String
  | number value => value.render
  | symbol text => "'" ++ text ++ "'"
  | sequence items => "[" ++ itemListing items ++ "]"

/-- The items of a sequence with commas between them. -/
def itemListing : List Nested → String
  | [] => ""
  | [item] => item.listing
  | item :: next :: items => item.listing ++ ", " ++ itemListing (next :: items)

end

end Nested

/-- The tree as nested sequences. -/
def Expr.toNested : Expr → Nested
  | .literal value => .number value
  | .var name => .symbol (String.singleton name)
  | .prefixed op operand => .sequence [.symbol op.symbol, operand.toNested]
  | .postfixed operand op => .sequence [operand.toNested, .symbol op.symbol]
  | .binary op left right => .sequence [left.toNested, .symbol op.symbol, right.toNested]

end Formula
