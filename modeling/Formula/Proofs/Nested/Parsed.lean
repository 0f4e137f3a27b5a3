import Formula.Proofs.Expr.Parsed
import Formula.Proofs.Nested.Inverse

/-!
# Formulas as nested sequences

The tree of a formula has only such names as nested sequences can tell apart from operators.
So it can be handed on as nested sequences and read back from them.
-/

namespace Formula

/-- The tree of a formula is well-formed, whatever the precedence table is: its integers are not
negative, its reals are finite and without a sign, its variables are letters and its functions
have names. So it is read back from its nested form. -/
theorem toExpr_toNested_of_parse (grammar : Grammar) (source : String) (e : Expr)
    (h : parseWith grammar source = .ok e) : e.WellFormed ∧ e.toNested.toExpr = .ok e := by
  have hwell : e.WellFormed := wellFormed_of_parseWith h
  exact ⟨hwell, Nested.toExpr_toNested hwell.properlyNamed⟩

/-- The double of a sine. -/
theorem toExpr_toNested_of_parse_sine :
    let e : Expr := .binary .mul (.literal (.integer 2)) (.prefixed (.apply "sin") (.var 'x'))
    parseWith Grammar.standard "2*sin x" = .ok e ∧ e.WellFormed ∧
      Nested.toExpr (.sequence [.number (.integer 2), .symbol "*",
        .sequence [.symbol "sin", .symbol "x"]]) = .ok e := by
  intro e
  have hparse : parseWith Grammar.standard "2*sin x" = .ok e :=
    Parse.parseWith_eq_of_plain (by decide +kernel)
  obtain ⟨hwell, hback⟩ := toExpr_toNested_of_parse Grammar.standard "2*sin x" e hparse
  exact ⟨hparse, hwell, hback⟩

end Formula
