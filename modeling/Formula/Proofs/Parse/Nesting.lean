import Formula.Proofs.Parse.Transparency

/-!
# Parentheses use up the nesting limit

Behind an opening parenthesis all levels are called, each by the next looser one. As
long as no outcome is known, every call starts a rule on top of those that are active.
So a formula that begins with many parentheses is refused, whatever is behind them.
-/

namespace Formula

namespace Parse

variable {context : ParseContext} {levels : List Level} {opening rest : List Token}
  {position : Nat} {state : ParseState}

/-- Wherever the levels are called at these tokens with so many rules active, the parser
is stopped, if no outcome is known. -/
def StopsAt (context : ParseContext) (levels : List Level) (tokens : List Token)
    (depth : Nat) : Prop :=
  ∀ position state, state.tooDeep = none →
    (∀ rule start, state.memo.outcome? rule start = none) → depth ≤ state.depth →
    ∃ error, (run context levels position tokens state).2.tooDeep = some error

/-- A rule stops the parser if its body does so with one more active rule. -/
theorem stopsAt_of_expand {tokens : List Token} {depth : Nat}
    (h : ∀ position state, state.tooDeep = none →
      (∀ rule start, state.memo.outcome? rule start = none) → depth < state.depth →
      state.depth ≤ nestingLimit →
      ∃ error, (expand context levels position tokens state).2.tooDeep = some error) :
    StopsAt context levels tokens depth := by
  intro position state hnone hunknown hdepth
  rw [run]
  by_cases hlimit : state.depth < nestingLimit
  · rw [ParseState.enter_started hnone (hunknown _ _) hlimit]
    exact h position _ hnone hunknown (Nat.lt_succ_of_le hdepth) hlimit
  · rw [ParseState.enter_limited hnone (hunknown _ _) hlimit]
    exact ⟨_, rfl⟩

/-- What a level does behind its first operand does not lift the stop. -/
theorem exists_tooDeep_expand {level : Level} {tighter : List Level} {tokens : List Token}
    {error : ParseError} (hfixity : level.fixity ≠ .prefixOp)
    (h : (run context tighter position tokens state).2.tooDeep = some error) :
    (expand context (level :: tighter) position tokens state).2.tooDeep = some error := by
  rw [expand]
  split
  · exact absurd ‹_› hfixity
  · exact tooDeep_of_called (fun _ => keepsStop_postfixChain _) (fun _ => keepsStop_end _) _ _ h
  · exact tooDeep_of_called (fun _ => keepsStop_leftChain _) (fun _ => keepsStop_end _) _ _ h
  · exact tooDeep_of_called (fun _ => keepsStop_rightOperand) (fun _ => keepsStop_end _) _ _ h

/-- The levels pass the parenthesis on to the primary. -/
theorem stopsAt_of_primary {first : Token} {behind : List Token} {depth : Nat}
    (hopens : first.kind = .leftParen)
    (h : StopsAt context [] (first :: behind) (depth + levels.length)) :
    StopsAt context levels (first :: behind) depth := by
  induction levels generalizing depth with
  | nil => exact h
  | cons level tighter ih =>
    have hcontains : level.operators.contains first = false :=
      OperatorSet.contains_eq_false_of_isParen (by simp [Token.isParen, hopens])
    have htighter : StopsAt context tighter (first :: behind) (depth + 1) := by
      apply ih
      rwa [Nat.add_assoc, Nat.add_comm 1]
    apply stopsAt_of_expand
    intro position state hnone hunknown hdepth hlimit
    obtain ⟨error, herror⟩ := htighter position state hnone hunknown hdepth
    by_cases hfixity : level.fixity = .prefixOp
    · refine ⟨error, ?_⟩
      rw [expand, hfixity]
      simpa only [prefixed, hcontains, Bool.false_eq_true, if_false] using herror
    · exact ⟨error, exists_tooDeep_expand hfixity herror⟩

/-- Parentheses stop the parser if all levels together for each of them but the first,
which is read by the given ones, are too many. -/
theorem stopsAt_opening (hopening : ∀ token ∈ opening, token.kind = .leftParen) {depth : Nat}
    (hne : opening ≠ [])
    (hlimit : nestingLimit + context.levels.length <
      depth + levels.length + opening.length * (context.levels.length + 1)) :
    StopsAt context levels (opening ++ rest) depth := by
  induction opening generalizing levels depth with
  | nil => exact absurd rfl hne
  | cons first more ih =>
    have hopens := hopening first List.mem_cons_self
    have hmore : ∀ token ∈ more, token.kind = .leftParen :=
      fun token hmem => hopening token (List.mem_cons_of_mem _ hmem)
    rw [List.length_cons, Nat.succ_mul] at hlimit
    apply stopsAt_of_primary hopens
    apply stopsAt_of_expand
    intro position state hnone hunknown hdepth hbound
    have hcount : more ≠ [] := by
      rintro rfl
      simp only [List.length_nil, Nat.zero_mul] at hlimit
      omega
    have hinner : StopsAt context context.levels (more ++ rest) (depth + levels.length + 1) :=
      ih hmore hcount (by omega)
    obtain ⟨error, herror⟩ := hinner (position + 1) state hnone hunknown hdepth
    refine ⟨error, ?_⟩
    rw [expand]
    simp only [primary, hopens]
    apply tooDeep_of_called ?_ (fun _ => keepsStop_end _) _ _ herror
    intro inner state error h
    simp only
    split <;> exact h

/-- A formula that begins with too many parentheses is refused. -/
theorem nestsTooDeep_of_opening {grammar : Grammar} {tokens : List Token}
    (htokens : Token.beforeEnding tokens = opening ++ rest)
    (hopening : ∀ token ∈ opening, token.kind = .leftParen)
    (hlimit : nestingLimit < opening.length * (grammar.levels.length + 1)) :
    NestsTooDeep grammar tokens := by
  have hlength : grammar.loosestFirst.length = grammar.levels.length := List.length_reverse
  have hne : opening ≠ [] := by
    rintro rfl
    simp at hlimit
  have hstops : StopsAt (context grammar tokens) grammar.loosestFirst (opening ++ rest) 0 := by
    refine stopsAt_opening hopening hne ?_
    simp only [context, hlength]
    omega
  obtain ⟨error, herror⟩ := hstops 0 {} rfl (fun _ _ => by simp [Memo.outcome?]) (Nat.le_refl _)
  have hstopped : (runAll grammar tokens).2.tooDeep = some error := by
    obtain ⟨log, hended⟩ := exists_checkEnding (opening ++ rest)
      (run (context grammar tokens) grammar.loosestFirst 0 (opening ++ rest) {})
    rw [runAll, htokens, hended]
    exact herror
  rcases parseTokens_cases grammar tokens with ⟨hnone, -⟩ | ⟨hdeep, -⟩
  · rw [hstopped] at hnone
    cases hnone
  · exact hdeep

end Parse

end Formula
