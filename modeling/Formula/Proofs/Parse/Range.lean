import Formula.Proofs.Parse.ErrorPosition
import Formula.Proofs.Parse.Intact
import Formula.Proofs.Token.Lossless

/-!
# The parser stays within its tables

A parse begins in an intact state and so ends in one: it looks up no rule but those of the
table, passes no end of the input, and makes no node that stands for no tree. The failures
that would tell of a fault of the parser itself are noted in no run.
-/

namespace Formula

/-- The failures that would be faults of the parser itself. -/
def ParseError.IsInternal (error : ParseError) : Prop :=
  error.expected ∈
    ["prefix operator", "postfix operator", "binary operator", "a complete expression"]

/-- A failure that a parser without faults may meet: the nesting limit was reached, or what
is missed may be missed at the token that was found. -/
def ParseError.IsOrdinary (error : ParseError) : Prop :=
  error.cause = .tooDeep ∨ ∃ what, error.cause = .expected what ∧ what.MayMiss error.found

namespace ParseError

variable {error : ParseError}

/-- What may be missed is no fault of the parser. -/
theorem IsOrdinary.not_isInternal (h : error.IsOrdinary) : ¬ error.IsInternal := by
  rcases h with hcause | ⟨what, hcause, hwhat⟩
  · simp [IsInternal, expected, hcause]
  · cases what with
    | prefixOperator | postfixOperator | binaryOperator | completeExpression => exact hwhat.elim
    | _ => simp [IsInternal, expected, hcause, Expectation.describe]

/-- A number is missed at a number token without a value only. -/
theorem IsOrdinary.expected_ne_number (h : error.IsOrdinary)
    (hvalue : error.found.kind = .integer ∨ error.found.kind = .real →
      error.found.literal?.isSome) : error.expected ≠ "number" := by
  rcases h with hcause | ⟨what, hcause, hwhat⟩
  · simp [expected, hcause]
  · cases what with
    | number =>
      obtain ⟨hkind, hnone⟩ := hwhat
      have hsome := hvalue hkind
      rw [hnone] at hsome
      cases hsome
    | prefixOperator | postfixOperator | binaryOperator | completeExpression => exact hwhat.elim
    | _ => simp [expected, hcause, Expectation.describe]

end ParseError

/-- The tokens of a formula are closed. -/
theorem close_of_tokenize {source : String} {tokens : List Token}
    (h : tokenize source = .ok tokens) : Token.close tokens = tokens := by
  obtain ⟨lexemes, rfl, -⟩ := Scan.tokens_eq_append h
  simp [Token.close, Token.isEnding]

/-- The number tokens of a formula have values. -/
theorem literal?_isSome_of_tokenize {source : String} {tokens : List Token} {token : Token}
    (h : tokenize source = .ok tokens) (hmem : token ∈ tokens)
    (hkind : token.kind = .integer ∨ token.kind = .real) : token.literal?.isSome := by
  obtain ⟨lexemes, rfl, hlexemes⟩ := Scan.tokens_eq_append h
  rcases List.mem_append.mp hmem with hlexeme | hlast
  · obtain ⟨text, lexeme, -, -, hvalue⟩ := hlexemes token hlexeme
    exact hvalue hkind
  · obtain rfl := List.mem_singleton.mp hlast
    rcases hkind with hkind | hkind <;> cases hkind

namespace Parse

variable {grammar : Grammar} {tokens : List Token} {error : ParseError} {index : Nat}

/-- The token that is peeked at, up to the end of the input, is the one of the closed list. -/
theorem getElem?_close (grammar : Grammar) (h : index ≤ (Token.beforeEnding tokens).length) :
    (Token.close tokens)[index]? =
      some ((context grammar tokens).peek ((Token.beforeEnding tokens).drop index)) := by
  obtain ⟨behind, hclose⟩ := Token.close_eq_append tokens
  by_cases hlt : index < (Token.beforeEnding tokens).length
  · rw [hclose, List.getElem?_append_left hlt, List.drop_eq_getElem_cons hlt]
    simp [ParseContext.peek, hlt]
  · obtain rfl : index = (Token.beforeEnding tokens).length := by omega
    rw [hclose, List.getElem?_append_right (Nat.le_refl _), List.drop_length]
    simp [ParseContext.peek, context]

/-- In the beginning nothing is kept. -/
theorem intact_start (context : ParseContext) (whole : List Token) :
    Intact context whole {} where
  lookups := nofun
  nodes := nofun
  known rule position found hknown := by simp [Memo.outcome?] at hknown
  failures := nofun
  stop := nofun

/-- The state at the end of a parse is intact. -/
theorem intact_runAll (grammar : Grammar) (tokens : List Token) :
    Intact (context grammar tokens) (Token.beforeEnding tokens) (runAll grammar tokens).2 := by
  have hrun : Preserves (context grammar tokens) (Token.beforeEnding tokens) 1 {}
      (run (context grammar tokens) grammar.loosestFirst 0 (Token.beforeEnding tokens) {}) :=
    preserves_run grammar.valid_loosestFirst (Token.isEnding_firstEnding _) List.suffix_rfl
      (Nat.zero_le _) (intact_start _ _)
  rw [runAll]
  generalize run (context grammar tokens) grammar.loosestFirst 0 (Token.beforeEnding tokens) {}
    = ran at hrun
  obtain ⟨outcome, state⟩ := ran
  obtain ⟨hintact, -, hends⟩ := hrun
  cases outcome with
  | error error => exact hintact
  | ok root =>
    rw [checkEnding]
    split
    · exact hintact
    · split
      · exact hintact
      · rename_i next behind hrest
        have hdrop : (Token.beforeEnding tokens).drop root.finish = next :: behind := hrest
        have hmay : Expectation.operatorOrEnding.MayMiss
          ((context grammar tokens).peek ((Token.beforeEnding tokens).drop root.finish)) := trivial
        have hfail : Preserves _ _ 1 _ _ := preserves_fail hintact (hends root rfl).finish hmay
        rw [peek_drop hdrop] at hfail
        exact hfail.intact

/-- The nodes of a match that is left stand for a tree. So a parse without a tree fails by a failure
that was noted, or by the one that the nesting limit caused. -/
theorem noted_or_stopped (h : parseTokens grammar tokens = .error error) :
    (∃ index, (index, error) ∈ (runAll grammar tokens).2.failures.noted) ∨
      (runAll grammar tokens).2.tooDeep = some error := by
  rcases simulates_runAll grammar tokens with ⟨hnone, hfollows⟩ | ⟨⟨found, hsome⟩, -⟩
  · have hsame : parseTokens grammar tokens = Plain.parseTokens grammar tokens :=
      conclude_eq_of_follows hnone hfollows
    obtain ⟨-, index, hfurthest, -⟩ := Plain.exists_failure_of_parseTokens (hsame.symm.trans h)
    obtain ⟨before, after, hnoted, -⟩ :=
      transcribe_failures_split (hfollows.furthest.trans hfurthest)
    have hmem : (index, error) ∈ (transcribe grammar tokens).failures := by simp [hnoted]
    exact .inl ⟨index, List.mem_reverse.mp hmem⟩
  · have hresult : parseTokens grammar tokens = .error ⟨.tooDeep, found⟩ := by
      change conclude _ (runAll grammar tokens) = _
      simp only [conclude, hsome]
    rw [hresult] at h
    cases h
    exact .inr hsome

/-- A failure that is noted names a token of the closed list, and is an ordinary one. -/
theorem named_of_noted (grammar : Grammar) (tokens : List Token) :
    ∀ failure ∈ (runAll grammar tokens).2.failures.noted,
      failure.1 ≤ (Token.beforeEnding tokens).length ∧
        (Token.close tokens)[failure.1]? = some failure.2.found ∧ failure.2.IsOrdinary := by
  rintro ⟨index, error⟩ hmem
  obtain ⟨hindex, what, hwhat, herror⟩ := (intact_runAll grammar tokens).failures _ hmem
  simp only at hindex hwhat herror ⊢
  subst herror
  exact ⟨hindex, getElem?_close grammar hindex, .inr ⟨what, rfl, hwhat⟩⟩

/-- A parse that fails names a token of the closed list, and the failure is an ordinary one. -/
theorem named_of_parseTokens (h : parseTokens grammar tokens = .error error) :
    error.found ∈ Token.close tokens ∧ error.IsOrdinary := by
  rcases noted_or_stopped h with ⟨index, hmem⟩ | hstop
  · obtain ⟨-, hget, hordinary⟩ := named_of_noted grammar tokens _ hmem
    exact ⟨List.mem_of_getElem? hget, hordinary⟩
  · obtain ⟨index, hindex, rfl⟩ := (intact_runAll grammar tokens).stop _ hstop
    exact ⟨List.mem_of_getElem? (getElem?_close grammar hindex), .inl rfl⟩

end Parse

/-- A parse stays within its tables. The first end of the input is in the closed token list,
and the number of the loosest level is that of the last one. Rules are looked up at tokens up
to that end, and levels that there are; a match that is kept ends behind its first token, not
behind the end of the input, and has a node that was made; and all nodes stand for trees, so
that none refers to a number that is not in use. Every failure that is noted names the
token at its index. No failure that is noted or returned is a fault of the parser itself, and
none is for want of a number if the tokens are those of a formula. -/
theorem parse_stays_in_range (grammar : Grammar) (tokens : List Token) :
    let closed := Token.close tokens
    let ending := (Token.beforeEnding tokens).length
    let state := (Parse.runAll grammar tokens).2
    (∃ token, closed[ending]? = some token ∧ token.isEnding) ∧
    grammar.loosest + 1 = grammar.levels.length ∧
    (∀ rule position, (rule, position) ∈ state.memo.found ++ state.memo.missed →
      position ≤ ending ∧ ∀ index, rule = .level index → index < grammar.levels.length) ∧
    (∀ rule position found, state.memo.outcome? rule position = some (.ok found) →
      position < found.finish ∧ found.finish ≤ ending ∧ found.node < state.arena.size) ∧
    (∀ id < state.arena.size, ∃ e, state.arena.expr? id = some e) ∧
    (∀ failure ∈ state.failures.noted,
      failure.1 ≤ ending ∧ closed[failure.1]? = some failure.2.found) ∧
    ∀ error, error ∈ state.failures.noted.map Prod.snd ∨ parseTokens grammar tokens = .error error →
      ¬ error.IsInternal ∧
        ((∃ source, tokenize source = .ok tokens) → error.expected ≠ "number") := by
  intro closed ending state
  have hintact := Parse.intact_runAll grammar tokens
  have hnoted := Parse.named_of_noted grammar tokens
  refine ⟨⟨_, Parse.getElem?_close grammar (Nat.le_refl _), ?_⟩, ?_, ?_, ?_, hintact.nodes, ?_, ?_⟩
  · rw [List.drop_length]
    exact Token.isEnding_firstEnding closed
  · have hpos := List.length_pos_iff.mpr grammar.nonempty
    rw [Grammar.loosest]
    omega
  · intro rule position hmem
    obtain ⟨hrank, hposition⟩ := hintact.lookups _ hmem
    refine ⟨hposition, ?_⟩
    rintro index rfl
    have hlevels : (Parse.context grammar tokens).levels.length = grammar.levels.length :=
      List.length_reverse
    rwa [hlevels] at hrank
  · intro rule position found hknown
    obtain ⟨hnode, hleast, hfinish⟩ := hintact.known rule position found hknown
    exact ⟨hleast, hfinish, hnode⟩
  · intro failure hmem
    exact ⟨(hnoted failure hmem).1, (hnoted failure hmem).2.1⟩
  · intro error herror
    have hnamed : error.found ∈ closed ∧ error.IsOrdinary := by
      rcases herror with hmem | hfails
      · obtain ⟨failure, hfailure, rfl⟩ := List.mem_map.mp hmem
        obtain ⟨-, hget, hordinary⟩ := hnoted failure hfailure
        exact ⟨List.mem_of_getElem? hget, hordinary⟩
      · exact Parse.named_of_parseTokens hfails
    refine ⟨hnamed.2.not_isInternal, ?_⟩
    rintro ⟨source, hsource⟩
    have hfound : error.found ∈ tokens := close_of_tokenize hsource ▸ hnamed.1
    exact hnamed.2.expected_ne_number (literal?_isSome_of_tokenize hsource hfound)

/-- A sum without its right operand fails for want of an operand. -/
theorem parse_stays_in_range_half_sum :
    let tokens : List Token :=
      [⟨.letter, "x", ⟨0, 1, 1⟩⟩, ⟨.operator, "+", ⟨1, 1, 2⟩⟩, ⟨.ending, "", ⟨2, 1, 3⟩⟩]
    let error : ParseError := ⟨.expected .operand, ⟨.ending, "", ⟨2, 1, 3⟩⟩⟩
    tokenize "x+" = .ok tokens ∧ parseTokens Grammar.standard tokens = .error error ∧
      ¬ error.IsInternal ∧ error.expected ≠ "number" := by
  intro tokens error
  have htokens : tokenize "x+" = .ok tokens := by decide +kernel
  have hfails : parseTokens Grammar.standard tokens = .error error :=
    Parse.parseTokens_eq_of_plain (by decide +kernel) (by decide +kernel)
  obtain ⟨-, -, -, -, -, -, herrors⟩ := parse_stays_in_range Grammar.standard tokens
  obtain ⟨hinternal, hnumber⟩ := herrors error (.inr hfails)
  exact ⟨htokens, hfails, hinternal, hnumber ⟨_, htokens⟩⟩

end Formula
