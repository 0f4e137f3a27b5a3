/-!
# Operator symbols

Six characters are operators. What a symbol stands for depends on where it is
written: a plus is a sign before an operand and a sum between two.
-/

namespace Formula

/-- A character that is an operator by itself. -/
inductive Operator where
  | plus
  | minus
  | star
  | slash
  | caret
  | bang
deriving DecidableEq, Repr

/-- An operator between two operands. -/
inductive BinaryOp where
  | add
  | sub
  | mul
  | div
  | pow
deriving DecidableEq, Repr

/-- An operator before its operand: a sign, or the name of a function. -/
inductive PrefixOp where
  | plus
  | minus
  | apply (name : String)
deriving DecidableEq, Repr

/-- An operator behind its operand. -/
inductive PostfixOp where
  | factorial
deriving DecidableEq, Repr

namespace Operator

/-- The operator that a character is. -/
def ofChar? : Char → Option Operator
  | '+' => some .plus
  | '-' => some .minus
  | '*' => some .star
  | '/' => some .slash
  | '^' => some .caret
  | '!' => some .bang
  | _ => none

/-- The operator that a text of one character is. -/
def ofText? (text : String) : Option Operator :=
  match text.toList with
  | [c] => ofChar? c
  | _ => none

/-- The character of an operator. -/
def char : Operator → Char
  | plus => '+'
  | minus => '-'
  | star => '*'
  | slash => '/'
  | caret => '^'
  | bang => '!'

/-- The symbol of an operator as a text. -/
def symbol (op : Operator) : String := String.singleton op.char

/-- The character of an operator stands for this operator. -/
@[simp] theorem ofChar?_char (op : Operator) : ofChar? op.char = some op := by
  cases op <;> rfl

/-- The symbol of an operator stands for this operator. -/
@[simp] theorem ofText?_symbol (op : Operator) : ofText? op.symbol = some op := by
  simp [ofText?, symbol]

/-- No other character stands for an operator than its own. -/
theorem ofChar?_eq_some_iff {c : Char} {op : Operator} : ofChar? c = some op ↔ c = op.char := by
  constructor
  · intro h
    unfold ofChar? at h
    split at h <;> simp_all [char] <;> subst h <;> rfl
  · rintro rfl
    simp

/-- What an operator stands for between two operands. -/
def asBinary? : Operator → Option BinaryOp
  | plus => some .add
  | minus => some .sub
  | star => some .mul
  | slash => some .div
  | caret => some .pow
  | bang => none

/-- What an operator stands for before an operand. -/
def asPrefix? : Operator → Option PrefixOp
  | plus => some .plus
  | minus => some .minus
  | _ => none

/-- What an operator stands for behind an operand. -/
def asPostfix? : Operator → Option PostfixOp
  | bang => some .factorial
  | _ => none

end Operator

/-- The symbol of a binary operator. -/
def BinaryOp.symbol : BinaryOp → String
  | .add => "+"
  | .sub => "-"
  | .mul => "*"
  | .div => "/"
  | .pow => "^"

/-- The symbol of a sign, or the name of a function. -/
def PrefixOp.symbol : PrefixOp → String
  | .plus => "+"
  | .minus => "-"
  | .apply name => name

/-- The symbol of a postfix operator. -/
def PostfixOp.symbol : PostfixOp → String
  | .factorial => "!"

end Formula
