import Formula.Proofs.Grammar.Derivation

/-!
# Viable prefixes

A token list is viable if it can be continued to one that the grammar derives. A
place awaits a level if whatever the level derives may stand there. Places inside
a formula pass from level to level in the way the rules of the grammar do.
-/

namespace Formula

/-- The tokens can be continued to some that all levels derive. -/
def Viable (all : List Level) (tokens : List Token) : Prop :=
  ∃ behind e, Nonempty (Derivation all all (tokens ++ behind) e)

/-- Behind these tokens may stand whatever the levels derive. -/
def Awaits (all levels : List Level) (tokens : List Token) : Prop :=
  ∀ inner e, Derivation all levels inner e → Viable all (tokens ++ inner)

/-- A token for the number zero. -/
def Token.zero : Token := ⟨.integer, "0", Location.start⟩

/-- The token for zero stands for the number zero. -/
theorem Token.zero_spells : Token.zero.Spells (.literal (.integer 0)) := by
  change Token.zero.literal? = _
  decide

variable {all levels tighter : List Level} {level : Level} {token : Token}
  {before tokens : List Token} {e : Expr}

/-- What stands in front in a viable token list is viable. -/
theorem Viable.left (h : Viable all (before ++ tokens)) : Viable all before := by
  obtain ⟨behind, e, hderives⟩ := h
  exact ⟨tokens ++ behind, e, by rwa [← List.append_assoc]⟩

/-- Fewer tokens from the beginning are viable if more of them are. -/
theorem Viable.take_of_le {count index : Nat} (h : Viable all (tokens.take index))
    (hle : count ≤ index) : Viable all (tokens.take count) := by
  have hwhole := List.take_append_drop count (tokens.take index)
  rw [List.take_take, Nat.min_eq_left hle] at hwhole
  rw [← hwhole] at h
  exact h.left

/-- What is derived is viable. -/
theorem viable_of_derivation (derivation : Derivation all all tokens e) : Viable all tokens :=
  ⟨[], e, ⟨by rwa [List.append_nil]⟩⟩

namespace Awaits

/-- The beginning awaits a whole formula. -/
theorem start : Awaits all all [] := fun _ _ derivation => viable_of_derivation derivation

/-- What awaits a level is viable, since a number may follow. -/
theorem viable (h : Awaits all levels before) : Viable all before := by
  have zero : Derivation all [] [Token.zero] (.literal (.integer 0)) := .literal Token.zero_spells
  have derivation := zero.widen levels
  rw [List.append_nil] at derivation
  exact (h _ _ derivation).left

/-- Where a level is awaited, so are the tighter ones. -/
theorem tail (h : Awaits all (level :: tighter) before) : Awaits all tighter before :=
  fun inner e derivation => h inner e (.tighter derivation)

/-- Behind a prefix operator an operand of the same level is awaited. -/
theorem behind_prefix {op : PrefixOp} (h : Awaits all (level :: tighter) before)
    (hfixity : level.fixity = .prefixOp) (hcontains : level.operators.contains token = true)
    (spells : token.Spells (.prefixed op)) :
    Awaits all (level :: tighter) (before ++ [token]) := by
  intro inner e derivation
  have hviable := h _ _ (.prefixed hfixity hcontains spells derivation)
  rwa [List.append_assoc]

/-- Behind an infix operator that groups to the left an operand of the tighter
levels is awaited. -/
theorem behind_left {op : BinaryOp} (h : Awaits all (level :: tighter) before)
    (hfixity : level.fixity = .infixOp .left) (hcontains : level.operators.contains token = true)
    (spells : token.Spells (.binary op)) (first : Derivation all (level :: tighter) tokens e) :
    Awaits all tighter (before ++ (tokens ++ [token])) := by
  intro inner r derivation
  have hviable := h _ _ (.left hfixity hcontains spells first derivation)
  simpa using hviable

/-- Behind an infix operator that groups to the right an operand of its level is
awaited. -/
theorem behind_right {op : BinaryOp} (h : Awaits all (level :: tighter) before)
    (hfixity : level.fixity = .infixOp .right) (hcontains : level.operators.contains token = true)
    (spells : token.Spells (.binary op)) (first : Derivation all tighter tokens e) :
    Awaits all (level :: tighter) (before ++ (tokens ++ [token])) := by
  intro inner r derivation
  have hviable := h _ _ (.right hfixity hcontains spells first derivation)
  simpa using hviable

/-- Behind an opening parenthesis a whole formula is awaited. -/
theorem behind_paren (h : Awaits all [] before) (opens : token.kind = .leftParen) :
    Awaits all all (before ++ [token]) := by
  intro inner e derivation
  let closing : Token := ⟨.rightParen, ")", Location.start⟩
  have closes : closing.kind = .rightParen := rfl
  have hviable : Viable all ((before ++ [token] ++ inner) ++ [closing]) := by
    simpa using h _ _ (.paren opens closes derivation)
  exact hviable.left

end Awaits

end Formula
