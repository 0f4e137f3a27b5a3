import Formula.Expr.Basic
import Formula.Numeral.Layout

/-!
# Writing formulas

A tree is written as a formula that has a pair of parentheses around every
compound operand, so that precedence does not matter. Only a variable in front of
a sign may be taken for a function by some table.
-/

namespace Formula

/-- The text of a literal. Reals keep a point or an exponent. -/
def Literal.render : Literal → String
  | .integer value => Numeral.integer value.toInt
  | .real value => Numeral.formulaReal.write value

/-- An operand in parentheses, unless it is an atom. -/
def Expr.enclose (atom : Bool) (text : String) : String :=
  if atom then text else "(" ++ text ++ ")"

/-- The formula of a tree. A function name is set off from its operand by a
blank and a binary operator from both of its operands; a sign and a factorial
stand at their operand. -/
def Expr.render : Expr → String
  | .literal value => value.render
  | .var name => String.singleton name
  | .prefixed (.apply name) operand => name ++ " " ++ enclose operand.isAtom operand.render
  | .prefixed op operand => op.symbol ++ enclose operand.isAtom operand.render
  | .postfixed operand op => enclose operand.isAtom operand.render ++ op.symbol
  | .binary op left right =>
    enclose left.isAtom left.render ++ " " ++ op.symbol ++ " " ++
      enclose right.isAtom right.render

end Formula
