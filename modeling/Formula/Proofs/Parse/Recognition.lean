import Formula.Proofs.Parse.Completeness
import Formula.Proofs.Parse.Evaluation

/-!
# The parser recognizes the stratified grammar

Under every valid table the parser returns derived trees only. Under a separated
table it returns the tree that is derived, unless the nesting limit stops it, so
that there is one tree at most.
-/

namespace Formula

variable {grammar : Grammar} {tokens : List Token} {e : Expr}

namespace Parse

/-- A tree that the parser returns is derived. -/
theorem derives_of_parseTokens (h : parseTokens grammar tokens = .ok e) :
    grammar.Derives (Token.beforeEnding tokens) e := by
  rcases parseTokens_cases grammar tokens with ⟨-, -, -, hsame⟩ | ⟨⟨found, hdeep⟩, -⟩
  · rw [hsame, Plain.parseTokens] at h
    split at h
    · cases h
    · rename_i inner finish hread
      cases h
      exact Plain.derives_of_readAll hread
  · rw [hdeep] at h
    cases h

/-- What is derived under a separated grammar is parsed if the nesting limit allows. -/
theorem parseTokens_of_derivation (hseparated : grammar.Separated)
    (derivation : Derivation grammar.loosestFirst grammar.loosestFirst
      (Token.beforeEnding tokens) e) :
    parseTokens grammar tokens = .ok e ∨
      NestsTooDeep grammar tokens ∧ nestingLimit < derivation.height := by
  obtain ⟨⟨finish, hread⟩, hheight⟩ := Plain.readAll_of_derivation hseparated derivation
  rcases parseTokens_cases grammar tokens with ⟨-, -, -, hsame⟩ | ⟨hdeep, hlimit⟩
  · left
    rw [hsame, Plain.parseTokens, hread]
  · exact .inr ⟨hdeep, Nat.lt_of_lt_of_le hlimit hheight⟩

end Parse

/-- Under a separated grammar tokens without an end among them derive one tree at most. -/
theorem Grammar.Separated.derives_unique (hseparated : grammar.Separated) {other : Expr}
    (h : grammar.Derives (Token.beforeEnding tokens) e)
    (hother : grammar.Derives (Token.beforeEnding tokens) other) : e = other := by
  obtain ⟨derivation⟩ := h
  obtain ⟨second⟩ := hother
  obtain ⟨⟨finish, hread⟩, -⟩ := Parse.Plain.readAll_of_derivation hseparated derivation
  obtain ⟨⟨stop, hagain⟩, -⟩ := Parse.Plain.readAll_of_derivation hseparated second
  rw [hread] at hagain
  cases hagain
  rfl

end Formula
