import Formula.Expr.Basic
import Formula.Token.Name

/-!
# Trees that can be written

A tree can be written if its variables are letters, its functions have names, and its literals
can be written. Which literals can be depends on the form: those with a numeral, those with a
numeral and a sign in front of it, or all of them.
-/

namespace Formula

/-- A literal that has a numeral: an integer that is not negative, or a finite real
without a sign. -/
def Literal.WellFormed : Literal → Prop
  | .integer value => 0 ≤ value
  | .real value => value.isFinite ∧ value.isNegative = false

instance : DecidablePred Literal.WellFormed
  | .integer value => inferInstanceAs (Decidable (0 ≤ value))
  | .real value => inferInstanceAs (Decidable (value.isFinite ∧ value.isNegative = false))

/-- A sign, or a function that has a name. -/
def PrefixOp.ProperlyNamed : PrefixOp → Prop
  | .apply name => isName name
  | _ => True

instance : DecidablePred PrefixOp.ProperlyNamed
  | .apply name => inferInstanceAs (Decidable (isName name = true))
  | .plus => .isTrue trivial
  | .minus => .isTrue trivial

namespace Expr

variable {p q : Literal → Prop} {op : PrefixOp} {e operand : Expr}

/-- The literals of the tree satisfy a condition, its variables are letters and its functions
have names. -/
def WrittenWith (p : Literal → Prop) : Expr → Prop
  | literal value => p value
  | var name => name.isAlpha
  | prefixed op operand => op.ProperlyNamed ∧ operand.WrittenWith p
  | postfixed operand _ => operand.WrittenWith p
  | binary _ left right => left.WrittenWith p ∧ right.WrittenWith p

instance decidableWrittenWith [DecidablePred p] : (e : Expr) → Decidable (e.WrittenWith p)
  | literal value => inferInstanceAs (Decidable (p value))
  | var name => inferInstanceAs (Decidable (name.isAlpha = true))
  | prefixed op operand =>
    have := decidableWrittenWith operand
    inferInstanceAs (Decidable (op.ProperlyNamed ∧ operand.WrittenWith p))
  | postfixed operand _ => decidableWrittenWith operand
  | binary _ left right =>
    have := decidableWrittenWith left
    have := decidableWrittenWith right
    inferInstanceAs (Decidable (left.WrittenWith p ∧ right.WrittenWith p))

/-- A tree that is written with numerals and names only. -/
abbrev WellFormed (e : Expr) : Prop :=
  e.WrittenWith Literal.WellFormed

/-- A tree whose variables are letters and whose functions have names. -/
abbrev ProperlyNamed (e : Expr) : Prop :=
  e.WrittenWith fun _ => True

/-- A weaker condition on the literals leaves more trees that can be written. -/
theorem WrittenWith.mono (hpq : ∀ value, p value → q value) (h : e.WrittenWith p) :
    e.WrittenWith q := by
  induction e with
  | literal value => exact hpq value h
  | var name => exact h
  | prefixed op operand ih => exact ⟨h.1, ih h.2⟩
  | postfixed operand op ih => exact ih h
  | binary op left right ihl ihr => exact ⟨ihl h.1, ihr h.2⟩

/-- Whatever its literals are, a tree that can be written has proper names. -/
theorem WrittenWith.properlyNamed (h : e.WrittenWith p) : e.ProperlyNamed :=
  h.mono fun _ _ => trivial

end Expr

end Formula
