import Formula.Proofs.Expr.Reprint
import Formula.Proofs.Parse.Room

/-!
# The depth of what is parsed

The nesting limit counts the rules that are active at once. The loops of the levels do not
call themselves, so that a tree may be deeper than the limit where they go on. What is
bounded on a way down from the root is the number of steps that were made by a rule called
inside a rule.
-/

namespace Formula

variable {grammar : Grammar} {tokens : List Token} {e : Expr}

/-- Each level of a tree is made for a token of its own. -/
theorem depth_lt_tokenCount (h : parseTokens grammar tokens = .ok e) :
    e.depth < (transcribe grammar tokens).tokenCount := by
  obtain ⟨derivation⟩ := Parse.derives_of_parseTokens h
  calc e.depth
      ≤ e.nodeCount := e.depth_le_nodeCount
    _ = e.symbols.length := e.length_symbols.symm
    _ = ((Token.beforeEnding tokens).filter (!·.isParen)).length :=
      derivation.spells_symbols.length_eq.symm
    _ ≤ (Token.beforeEnding tokens).length := List.length_filter_le _ _
    _ < (transcribe grammar tokens).tokenCount := Token.length_beforeEnding_lt tokens

/-- Every factorial is a level of its own. -/
theorem iteratedFactorial.depth_eq (count : Nat) : (iteratedFactorial count).depth = count + 1 := by
  induction count with
  | zero => rfl
  | succ count ih => rw [iteratedFactorial, Expr.depth, ih, Nat.add_comm]

/-- On a way down from the root of a tree that is returned, the steps made by a rule called
inside a rule are bounded by the nesting limit, whatever the table is: the way has at most so
many nodes, if a node is not counted where the next step goes to the operand of a postfix
operator, or to the left operand of an operator that the table chains from the left. Steps of
these two kinds are made in a loop. All its nodes counted, the tree is less deep than there are
tokens. -/
theorem parse_depth_bounded (h : parseTokens grammar tokens = .ok e) :
    e.nesting (Level.anyChains grammar.levels) ≤ nestingLimit ∧
      e.depth < (transcribe grammar tokens).tokenCount :=
  ⟨Parse.nesting_le_of_parseTokens h, depth_lt_tokenCount h⟩

/-- A sum in parentheses behind a sign is returned, so it had room. -/
theorem parse_depth_bounded_sum :
    let tokens : List Token := [⟨.operator, "-", Location.start⟩, ⟨.leftParen, "(", Location.start⟩,
      ⟨.letter, "x", Location.start⟩, ⟨.operator, "+", Location.start⟩,
      ⟨.letter, "y", Location.start⟩, ⟨.rightParen, ")", Location.start⟩]
    let e : Expr := .prefixed .minus (.binary .add (.var 'x') (.var 'y'))
    parseTokens Grammar.standard tokens = .ok e ∧
      e.nesting (Level.anyChains Grammar.standard.levels) ≤ nestingLimit ∧ e.depth < 7 := by
  intro tokens e
  have hparsed : parseTokens Grammar.standard tokens = .ok e :=
    Parse.parseTokens_eq_of_plain (by decide +kernel) (by decide +kernel)
  obtain ⟨hnesting, hdepth⟩ := parse_depth_bounded hparsed
  exact ⟨hparsed, hnesting, hdepth⟩

/-- The factorial of one that is taken as often as the limit allows rules is parsed, and its
tree is deeper than the limit. -/
theorem not_parse_depth_le_nestingLimit :
    ¬ ∀ (grammar : Grammar) (tokens : List Token) (e : Expr),
      parseTokens grammar tokens = .ok e → e.depth ≤ nestingLimit := by
  intro hbounded
  obtain ⟨tokens, -, htokens⟩ :=
    exists_tokens_of_parseWith (iteratedFactorial.parse_factorialsOfOne nestingLimit)
  have hdepth := hbounded _ tokens _ htokens
  rw [iteratedFactorial.depth_eq] at hdepth
  omega

end Formula
