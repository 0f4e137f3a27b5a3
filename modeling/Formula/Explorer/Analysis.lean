import Formula.Diagnostic
import Formula.Expr.Outline
import Formula.Json.Write

/-!
# Analyses

All that the explorer shows of a formula follows from its text.
-/

namespace Formula

/-- What the explorer shows of a formula. -/
structure Analysis where
  /-- The tokens, or why there are none. -/
  tokens : Except LexError (List Token)
  /-- The lines of the outline. -/
  tree : List String
  /-- The nested sequences as a listing and, below it, as JSON. -/
  nested : List String
  /-- The size and the height of the tree, or why there is none. -/
  outcome : Except FormulaError (Nat × Nat)

namespace Analysis

/-- The analysis of a formula. -/
def ofText (input : String) : Analysis :=
  match parse input with
  | .ok e =>
    { tokens := tokenize input
      tree := e.outlineLines
      nested := [e.toNested.listing, "", e.toJson]
      outcome := .ok (e.nodeCount, e.depth) }
  | .error error =>
    { tokens := tokenize input
      tree := []
      nested := []
      outcome := .error error }

/-- The column of the failure, if there is one. -/
def errorColumn? (analysis : Analysis) : Option Nat :=
  match analysis.outcome with
  | .ok _ => none
  | .error error => some error.location.column

end Analysis

end Formula
