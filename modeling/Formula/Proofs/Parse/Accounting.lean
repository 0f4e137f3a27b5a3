import Formula.Proofs.Parse.Allocation
import Formula.Proofs.Parse.ErrorPosition
import Formula.Proofs.Parse.Fresh
import Mathlib.Tactic.Ring

/-!
# What a parse costs

A parse begins with an empty memo and no nodes. What holds of every run then gives counts
for the whole parse: no rule is run twice at a token, only failures are given again, the
look-ups are bounded by a constant for each level and token, and a tree has been made node
by node, none of them in vain.
-/

namespace Formula

namespace Parse

section

variable {context : ParseContext} {whole : List Token} {outcome : Outcome} {state : ParseState}
  {root : Match} (h : Performs context whole (.call context.levels 0) {} outcome state)
include h

/-- No rule is looked up in vain twice at a token. A rule that was called while it is
active would be. -/
theorem Performs.missed_nodup : state.memo.missed.Nodup :=
  (h.once fun _ _ hmem => nomatch hmem).nodup .nil

/-- No more rules are looked up in vain than there are pairs of a rule and a token. -/
theorem Performs.missed_le :
    state.memo.missed.length ≤ (context.levels.length + 1) * (whole.length + 1) :=
  length_le_of_inTable h.missed_nodup (h.inTable fun _ hmem => nomatch hmem)

/-- Each rule that was looked up in vain is kept, but for the one that the limit stopped. -/
theorem Performs.entries_eq :
    state.memo.entries.size + stops state = state.memo.missed.length := by
  have hentries := h.entries
  simpa [stops] using hentries.symm

/-- There is room for all tokens in the beginning. -/
theorem Performs.allocates_all :
    Allocates whole (load whole 0) (.call context.levels 0) 0 outcome state := by
  have hnone (rule : Rule) (position : Nat) : ({} : Memo).outcome? rule position = none := by
    simp [Memo.outcome?]
  refine h.allocates ⟨fun _ rule start found _ hknown => ?_, fun _ => .inl ?_, Nat.zero_le _,
    by simp [HitsFail]⟩
  · rw [hnone] at hknown
    cases hknown
  · exact Nat.le_of_eq (Nat.zero_add _)

/-- A run that has read all tokens has made a node for each that is no parenthesis. -/
theorem Performs.size_eq (hok : outcome = .ok root) (hall : whole.length ≤ root.finish) :
    state.arena.size = load whole 0 := by
  have hnone : load whole root.finish = 0 := by simp [load, List.drop_eq_nil_of_le hall]
  have hpaid : 0 + load whole 0 ≤ state.arena.size + load whole root.finish :=
    h.allocates_all.paid root hok
  have hsize := h.allocates_all.size_and_hits.1
  omega

/-- There are no more nodes than tokens. -/
theorem Performs.size_le_length : state.arena.size ≤ whole.length :=
  Nat.le_trans h.allocates_all.size_and_hits.1 List.countP_le_length

/-- The look-ups are bounded by a constant for each level and token. -/
theorem Performs.lookups_le_all :
    state.memo.found.length + state.memo.missed.length ≤
      (2 * context.levels.length + 3) * (whole.length + 1) := by
  have hlookups : state.memo.lookups ≤ 1 + 2 * state.memo.missed.length + state.arena.size := by
    simpa [Task.allowance, Memo.lookups, Arena.size] using h.lookups_le
  have hsize := h.size_le_length
  have hmissed := h.missed_le
  calc state.memo.found.length + state.memo.missed.length
      ≤ 1 + 2 * state.memo.missed.length + state.arena.size := hlookups
    _ ≤ 1 + 2 * ((context.levels.length + 1) * (whole.length + 1)) + whole.length := by omega
    _ = (2 * context.levels.length + 3) * (whole.length + 1) := by ring

/-- Under a separated grammar no outcome is given again. -/
theorem Performs.found_eq_nil (horder : Orderly context.levels) : state.memo.found = [] := by
  have hnothing : Fresh ({} : ParseState).memo 0 := fun _ _ _ => by simp [Memo.outcome?]
  exact (h.fresh horder fun _ => hnothing.callable context whole context.levels).1

end

variable {grammar : Grammar} {tokens : List Token} {e : Expr}

/-- A match that is left at the end of the input is one of all tokens. -/
theorem of_checkEnding {whole : List Token} {result : Outcome × ParseState} {root : Match}
    (h : (checkEnding whole result).1 = .ok root) (hnone : result.2.tooDeep = none) :
    result.1 = .ok root ∧ whole.length ≤ root.finish := by
  obtain ⟨outcome, state⟩ := result
  cases outcome with
  | error error => cases h
  | ok found =>
    simp only [checkEnding, show state.tooDeep = none from hnone, Option.isSome_none,
      Bool.false_eq_true, if_false] at h
    split at h
    · rename_i hrest
      cases h
      exact ⟨rfl, List.drop_eq_nil_iff.mp hrest⟩
    · cases h

/-- What a parse counts is counted in a run of the loosest rule at the first token. If the
parse ends with a match, then the run has read all tokens. -/
theorem exists_performs (grammar : Grammar) (tokens : List Token) :
    ∃ outcome state,
      Performs (context grammar tokens) (Token.beforeEnding tokens)
        (.call (context grammar tokens).levels 0) {} outcome state ∧
      (runAll grammar tokens).2.memo = state.memo ∧
      (runAll grammar tokens).2.arena = state.arena ∧
      (runAll grammar tokens).2.tooDeep = state.tooDeep ∧
      ∀ root, (runAll grammar tokens).1 = .ok root → state.tooDeep = none →
        outcome = .ok root ∧ (Token.beforeEnding tokens).length ≤ root.finish := by
  have htraced : Traced (context grammar tokens) (Token.beforeEnding tokens)
      (.call (context grammar tokens).levels 0) {}
      (run (context grammar tokens) grammar.loosestFirst 0 (Token.beforeEnding tokens) {}) :=
    traced_call grammar.valid_loosestFirst (Token.isEnding_firstEnding _) List.suffix_rfl
      (Nat.zero_le _) fun _ _ _ hknown => by simp [Memo.outcome?] at hknown
  rw [runAll]
  generalize run (context grammar tokens) grammar.loosestFirst 0 (Token.beforeEnding tokens) {}
    = ran at htraced
  obtain ⟨log, hended⟩ := exists_checkEnding (Token.beforeEnding tokens) ran
  refine ⟨ran.1, ran.2, htraced.performs, by rw [hended], by rw [hended], by rw [hended], ?_⟩
  intro root hroot hnone
  exact of_checkEnding hroot hnone

/-- A tree is returned only if the limit was not reached and the run ended with a match. -/
theorem ends_of_parseTokens (h : parseTokens grammar tokens = .ok e) :
    (runAll grammar tokens).2.tooDeep = none ∧ ∃ root, (runAll grammar tokens).1 = .ok root := by
  have hconclude : conclude (context grammar tokens) (runAll grammar tokens) = .ok e := h
  unfold conclude at hconclude
  split at hconclude
  rename_i outcome state hfinished
  rw [hfinished]
  split at hconclude
  · cases hconclude
  · rename_i hnone
    split at hconclude
    · cases hconclude
    · rename_i root
      exact ⟨hnone, root, rfl⟩

/-- A tree has been made without a node in vain. -/
theorem size_of_parseTokens (h : parseTokens grammar tokens = .ok e) :
    (runAll grammar tokens).2.arena.size = e.nodeCount := by
  obtain ⟨outcome, state, hperforms, -, harena, htooDeep, hends⟩ := exists_performs grammar tokens
  obtain ⟨hnone, root, hroot⟩ := ends_of_parseTokens h
  rw [htooDeep] at hnone
  obtain ⟨hok, hall⟩ := hends root hroot hnone
  obtain ⟨derivation⟩ := derives_of_parseTokens h
  calc (runAll grammar tokens).2.arena.size
      = state.arena.size := by rw [harena]
    _ = load (Token.beforeEnding tokens) 0 := hperforms.size_eq hok hall
    _ = ((Token.beforeEnding tokens).filter (!·.isParen)).length := List.countP_eq_length_filter
    _ = e.symbols.length := derivation.spells_symbols.length_eq
    _ = e.nodeCount := e.length_symbols

/-- Under a separated table nothing is looked up again. -/
theorem found_eq_nil (hseparated : grammar.Separated) (tokens : List Token) :
    (runAll grammar tokens).2.memo.found = [] := by
  obtain ⟨outcome, state, hperforms, hmemo, -⟩ := exists_performs grammar tokens
  rw [hmemo]
  exact hperforms.found_eq_nil hseparated.orderly

end Parse

/-- Under every table no rule is run twice at a token, nor called there while it is active,
for it would be looked up in vain twice; and every look-up in vain is answered by an entry,
but for the one that reached the nesting limit. An entry that is given again is a failure.
Look-ups and nodes are bounded by the number of tokens, and a tree that is returned has been
made without a node in vain. Under the usual table nothing is looked up again at all. -/
theorem parse_work_linear (grammar : Grammar) (tokens : List Token) :
    let memo := (Parse.runAll grammar tokens).2.memo
    let transcript := transcribe grammar tokens
    memo.missed.Nodup ∧
    transcript.stats.entries + (if transcript.limited then 1 else 0) = transcript.stats.misses ∧
    transcript.stats.misses ≤ (grammar.levels.length + 1) * transcript.tokenCount ∧
    (∀ hit ∈ transcript.hits, ∃ error, memo.outcome? hit.1 hit.2 = some (.error error)) ∧
    transcript.stats.hits + transcript.stats.misses ≤
      (2 * grammar.levels.length + 3) * transcript.tokenCount ∧
    transcript.nodeCount < transcript.tokenCount ∧
    (∀ e, transcript.result = .ok e → transcript.nodeCount = e.nodeCount) ∧
    (transcribe Grammar.standard tokens).stats.hits = 0 := by
  intro memo transcript
  obtain ⟨outcome, state, hperforms, hmemo, harena, htooDeep, -⟩ :=
    Parse.exists_performs grammar tokens
  have hlevels : (Parse.context grammar tokens).levels.length = grammar.levels.length :=
    List.length_reverse
  have hcount : (Token.beforeEnding tokens).length < transcript.tokenCount :=
    Token.length_beforeEnding_lt tokens
  have hsame : memo = state.memo := hmemo
  have hstats : transcript.stats = state.memo.stats := congrArg Memo.stats hmemo
  have hnodes : transcript.nodeCount = state.arena.size := congrArg Arena.size harena
  have hlimited : transcript.limited = state.tooDeep.isSome := congrArg Option.isSome htooDeep
  refine ⟨?_, ?_, ?_, ?_, ?_, ?_, ?_, ?_⟩
  · rw [hsame]
    exact hperforms.missed_nodup
  · rw [hstats, hlimited]
    exact hperforms.entries_eq
  · rw [hstats, ← hlevels]
    exact Nat.le_trans hperforms.missed_le (Nat.mul_le_mul_left _ hcount)
  · have hfails : Parse.HitsFail memo := by
      rw [hsame]
      exact hperforms.allocates_all.size_and_hits.2
    exact fun hit hmem => hfails hit (List.mem_reverse.mp hmem)
  · rw [hstats, ← hlevels]
    exact Nat.le_trans hperforms.lookups_le_all (Nat.mul_le_mul_left _ hcount)
  · rw [hnodes]
    exact Nat.lt_of_le_of_lt hperforms.size_le_length hcount
  · exact fun e => Parse.size_of_parseTokens
  · exact congrArg List.length (Parse.found_eq_nil Grammar.standard_separated tokens)

/-- Where two levels apply functions, a variable is tried as a function twice. What is behind
it is looked up again then, and known to be no operand. -/
theorem parse_work_linear_two_applications :
    let grammar : Grammar :=
      ⟨[⟨.names, .prefixOp⟩, ⟨.names, .prefixOp⟩], by simp, by simp [Level.Valid]⟩
    let tokens : List Token := [⟨.letter, "x", Location.start⟩]
    let transcript := transcribe grammar tokens
    transcript.result = .ok (.var 'x') ∧ transcript.nodeCount = 1 ∧
      transcript.hits = [(.level 0, 1)] ∧
      ∃ error, (Parse.runAll grammar tokens).2.memo.outcome? (.level 0) 1 =
        some (.error error) := by
  intro grammar tokens transcript
  have hresult : transcript.result = .ok (.var 'x') :=
    Parse.parseTokens_eq_of_plain (by decide +kernel) (by decide +kernel)
  have hname : "x".toList = ['x'] := rfl
  have hhits : transcript.hits = [(.level 0, 1)] := by
    simp [transcript, transcribe, Parse.runAll, Parse.checkEnding, Parse.context,
      Grammar.loosestFirst, Token.beforeEnding, Token.isEnding, Parse.run, Parse.expand,
      Parse.prefixed, Parse.primary, ParseState.enter, ParseState.leave, ParseState.fail,
      ParseState.succeed, ParseState.noteFailure, Memo.outcome?, Memo.insert, Memo.noteHit,
      Memo.noteMiss, Std.HashMap.getElem_insert, Rule.ofLevels, nestingLimit,
      OperatorSet.contains, tokensFrom, tokens, grammar, hname]
  obtain ⟨-, -, -, hfails, -, -, hnodes, -⟩ := parse_work_linear grammar tokens
  refine ⟨hresult, hnodes _ hresult, hhits, ?_⟩
  exact hfails (.level 0, 1) (hhits ▸ List.mem_singleton_self _)

end Formula
