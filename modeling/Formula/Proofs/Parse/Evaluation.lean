import Formula.Diagnostic
import Formula.Proofs.Parse.Transparency

/-!
# Closed formulas are evaluated by the plain parser

The plain parser looks up nothing, so that its reading of a closed formula can be computed in a
proof. Within the nesting limit it is what the parser itself gives.
-/

namespace Formula

variable {grammar : Grammar} {tokens : List Token} {source : String}

namespace Parse

/-- Where the plain parser stays within the nesting limit, its result is that of the parser. -/
theorem parseTokens_eq_of_plain {result : Except ParseError Expr}
    (hheight : (Plain.readAll grammar tokens).height ≤ nestingLimit)
    (h : Plain.parseTokens grammar tokens = result) : parseTokens grammar tokens = result := by
  rcases parseTokens_cases grammar tokens with ⟨-, -, -, hsame⟩ | ⟨-, hlimit⟩
  · exact hsame.trans h
  · omega

/-- What the plain parser gives for a formula; nothing if it is beyond the nesting limit. -/
def Plain.parseWith? (grammar : Grammar) (source : String) :
    Option (Except FormulaError Expr) :=
  match tokenize source with
  | .error error => some (.error (.lex error))
  | .ok tokens =>
    if (readAll grammar tokens).height ≤ nestingLimit then
      some ((parseTokens grammar tokens).mapError .parse)
    else none

/-- A result that the plain parser gives for a formula is that of the parser. -/
theorem parseWith_eq_of_plain {result : Except FormulaError Expr}
    (h : Plain.parseWith? grammar source = some result) : parseWith grammar source = result := by
  cases htokens : tokenize source with
  | error error =>
    rw [Plain.parseWith?, htokens] at h
    rw [parseWith, htokens]
    exact Option.some.inj h
  | ok tokens =>
    simp only [Plain.parseWith?, htokens] at h
    split at h
    · rename_i hheight
      rw [parseWith_of_tokenize htokens, parseTokens_eq_of_plain hheight rfl]
      exact Option.some.inj h
    · cases h

end Parse

end Formula
