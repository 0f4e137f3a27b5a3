import Formula.Proofs.Parse.Calls
import Formula.Proofs.Parse.Nesting

/-!
# The moment at which the nesting limit is reached

A rule of some level at some token calls only rules of tighter levels at this token and rules at
later tokens. So rules that are active at once are of different levels or at different tokens,
and many of them are active only far behind the beginning. Once a rule would be one too
many, the parse fails at its token, whatever the rules that are still active do.
-/

namespace Formula

namespace Parse

section

variable {context : ParseContext} {whole : List Token} {levels tighter : List Level}
  {level : Level} {position : Nat} {start : ParseState} {call made last : Call}
  {active : List Call} {id : NodeId} {error : ParseError}

namespace Call

/-- A call of levels of the grammar, at a token in front of the end of the input or there, in
an intact state. -/
structure Within (context : ParseContext) (whole : List Token) (call : Call) : Prop where
  levels : call.levels <:+ context.levels
  position : call.position ≤ whole.length
  tokens : call.tokens = whole.drop call.position
  intact : Intact context whole call.state

/-- Rules are numbered from token to token and at each one from the loosest level to the
primary. -/
def number (context : ParseContext) (call : Call) : Nat :=
  call.position * (context.levels.length + 1) + (context.levels.length - call.levels.length)

/-- The rules at a token have smaller numbers than all rules at later tokens. -/
theorem number_lt_succ_mul (context : ParseContext) (call : Call) :
    call.number context < (call.position + 1) * (context.levels.length + 1) := by
  rw [number, Nat.succ_mul]
  omega

/-- At a later token the number is greater. -/
theorem number_lt_of_position (h : call.position < made.position) :
    call.number context < made.number context := by
  have hmul : (call.position + 1) * (context.levels.length + 1) ≤
      made.position * (context.levels.length + 1) := Nat.mul_le_mul_right _ h
  have hnumber := number_lt_succ_mul context call
  rw [number.eq_def context made]
  omega

/-- For a tighter level at the same token the number is greater. -/
theorem number_lt_of_levels (hlevels : call.levels <:+ context.levels)
    (h : made.levels.length < call.levels.length) (hposition : made.position = call.position) :
    call.number context < made.number context := by
  have hle := hlevels.length_le
  rw [number, number, hposition]
  omega

/-- The call itself, or one that is made behind it. -/
theorem mem_andThen {goOn : Match → ParseState → List Call} {instead : ParseState → List Call}
    (h : made ∈ call.andThen context goOn instead) :
    made = call ∨ (∃ found state, call.result context = (.ok found, state) ∧
        made ∈ goOn found state) ∨
      ∃ error state, call.result context = (.error error, state) ∧ made ∈ instead state := by
  rcases List.mem_cons.mp h with rfl | hmem
  · exact .inl rfl
  · cases hresult : call.result context with
    | mk outcome state =>
      rw [hresult] at hmem
      cases outcome with
      | error error => exact .inr (.inr ⟨error, state, rfl, hmem⟩)
      | ok found => exact .inr (.inl ⟨found, state, rfl, hmem⟩)

end Call

/-- The call for the right operand is within the parse, at a later token than the operator. -/
theorem within_rightCalls (hlevels : level :: tighter <:+ context.levels)
    (h : Intact context whole start) :
    ∀ call ∈ rightCalls level tighter position (whole.drop position) start,
      call.Within context whole ∧ position < call.position := by
  intro call hmem
  cases htokens : whole.drop position with
  | nil => simp [htokens, rightCalls] at hmem
  | cons token behind =>
    obtain rfl := eq_drop_of_cons htokens
    rw [htokens, rightCalls] at hmem
    split at hmem
    · obtain rfl := List.mem_singleton.mp hmem
      exact ⟨⟨hlevels, lt_length_of_drop htokens, rfl, h⟩, Nat.lt_succ_self position⟩
    · cases hmem

/-- The call for a formula in parentheses is within the parse, at a later token. -/
theorem within_primaryCalls (h : Intact context whole start) :
    ∀ call ∈ primaryCalls context position (whole.drop position) start,
      call.Within context whole ∧ position < call.position := by
  intro call hmem
  cases htokens : whole.drop position with
  | nil => simp [htokens, primaryCalls] at hmem
  | cons token behind =>
    obtain rfl := eq_drop_of_cons htokens
    rw [htokens, primaryCalls] at hmem
    split at hmem
    · obtain rfl := List.mem_singleton.mp hmem
      exact ⟨⟨List.suffix_rfl, lt_length_of_drop htokens, rfl, h⟩, Nat.lt_succ_self position⟩
    · cases hmem

section

variable (hall : ∀ l ∈ context.levels, l.Valid) (hending : context.ending.isEnding)

include hall hending

/-- A call within the parse leaves the state intact and ends behind its first token. -/
theorem Call.Within.preserves (h : call.Within context whole) :
    Preserves context whole (call.position + 1) call.state (call.result context) := by
  rw [Call.result, h.tokens]
  exact preserves_run hall hending h.levels h.position h.intact

/-- The calls for right operands are within the parse, at later tokens than the operator. -/
theorem within_leftCalls (hlevels : level :: tighter <:+ context.levels)
    (hfixity : level.fixity = .infixOp .left) (h : Intact context whole start)
    (hnode : id < start.arena.size) :
    ∀ call ∈ leftCalls context level.operators tighter id position (whole.drop position) start,
      call.Within context whole ∧ position < call.position := by
  induction hn : (whole.drop position).length using Nat.strongRecOn
    generalizing id position start with
  | ind n ih =>
    intro call hmem
    cases htokens : whole.drop position with
    | nil => simp [htokens, leftCalls] at hmem
    | cons token behind =>
      obtain rfl := eq_drop_of_cons htokens
      rw [htokens, leftCalls] at hmem
      split at hmem
      · rename_i hcontains
        have hvalid : level.Valid := hall level (hlevels.mem List.mem_cons_self)
        obtain ⟨op, hop⟩ := hvalid.binary_of_contains hfixity hcontains
        have hcall : Call.Within context whole
            ⟨tighter, position + 1, whole.drop (position + 1), start⟩ :=
          ⟨(List.suffix_cons level tighter).trans hlevels, lt_length_of_drop htokens, rfl, h⟩
        rcases Call.mem_andThen hmem with
          rfl | ⟨right, state, hresult, hmem⟩ | ⟨error, state, -, hmem⟩
        · exact ⟨hcall, Nat.lt_succ_self position⟩
        · have hpreserves := hcall.preserves hall hending
          rw [hresult] at hpreserves
          have hends := hpreserves.ends right rfl
          have hfinish : position + 1 < right.finish := hends.least
          obtain ⟨l, hl⟩ := hpreserves.intact.nodes id (Nat.lt_of_lt_of_le hnode hpreserves.grows)
          obtain ⟨r, hr⟩ := hpreserves.intact.nodes right.node hends.node
          rw [hop] at hmem
          simp only [tokensFrom_drop (Nat.le_of_lt hfinish)] at hmem
          have hless : (whole.drop right.finish).length < n := by
            rw [← hn, htokens, List.length_cons, List.length_drop, List.length_drop]
            omega
          obtain ⟨hwithin, hlt⟩ := ih _ hless
            (hpreserves.intact.add ⟨_, Arena.expr?_add_binary hl hr op⟩) (by simp) rfl call hmem
          exact ⟨hwithin, by omega⟩
        · cases hmem
      · cases hmem

/-- The calls for the operand of a prefix operator and for an operand of the tighter levels are
within the parse, at a later token or at the same one. -/
theorem within_prefixedCalls (hlevels : level :: tighter <:+ context.levels)
    (hposition : position ≤ whole.length) (h : Intact context whole start) :
    ∀ call ∈ prefixedCalls context level tighter position (whole.drop position) start,
      call.Within context whole ∧
        (position < call.position ∨ call.position = position ∧ call.levels = tighter) := by
  have hoperand (state : ParseState) (hstate : Intact context whole state) :
      Call.Within context whole ⟨tighter, position, whole.drop position, state⟩ :=
    ⟨(List.suffix_cons level tighter).trans hlevels, hposition, rfl, hstate⟩
  intro call hmem
  cases htokens : whole.drop position with
  | nil =>
    rw [htokens, prefixedCalls, ← htokens] at hmem
    obtain rfl := List.mem_singleton.mp hmem
    exact ⟨hoperand start h, .inr ⟨rfl, rfl⟩⟩
  | cons token behind =>
    have hbehind := eq_drop_of_cons htokens
    rw [htokens, prefixedCalls, ← htokens] at hmem
    split at hmem
    · have hattempt : Call.Within context whole
          ⟨level :: tighter, position + 1, behind, start⟩ :=
        ⟨hlevels, lt_length_of_drop htokens, hbehind, h⟩
      rcases Call.mem_andThen hmem with
        rfl | ⟨found, state, -, hmem⟩ | ⟨error, state, hresult, hmem⟩
      · exact ⟨hattempt, .inl (Nat.lt_succ_self position)⟩
      · cases hmem
      · have hpreserves := hattempt.preserves hall hending
        rw [hresult] at hpreserves
        obtain rfl := List.mem_singleton.mp hmem
        exact ⟨hoperand state hpreserves.intact, .inr ⟨rfl, rfl⟩⟩
    · obtain rfl := List.mem_singleton.mp hmem
      exact ⟨hoperand start h, .inr ⟨rfl, rfl⟩⟩

/-- The calls of a body are within the parse, at later tokens or of tighter levels at the same
token. -/
theorem within_bodyCalls (hlevels : levels <:+ context.levels) (hposition : position ≤ whole.length)
    (h : Intact context whole start) :
    ∀ call ∈ bodyCalls context levels position (whole.drop position) start,
      call.Within context whole ∧ (position < call.position ∨
        call.position = position ∧ call.levels.length < levels.length) := by
  intro call hmem
  cases levels with
  | nil =>
    rw [bodyCalls] at hmem
    exact (within_primaryCalls h call hmem).imp_right .inl
  | cons level tighter =>
    have hoperand : Call.Within context whole ⟨tighter, position, whole.drop position, start⟩ :=
      ⟨(List.suffix_cons level tighter).trans hlevels, hposition, rfl, h⟩
    have hsame : position < position ∨
        position = position ∧ tighter.length < (level :: tighter).length :=
      .inr ⟨rfl, Nat.lt_succ_self _⟩
    have hends {found : Match} {state : ParseState}
        (hresult : Call.result context ⟨tighter, position, whole.drop position, start⟩ =
          (.ok found, state)) :
        Intact context whole state ∧ found.node < state.arena.size ∧ position < found.finish ∧
          tokensFrom (whole.drop position) position found.finish = whole.drop found.finish := by
      have hpreserves := hoperand.preserves hall hending
      rw [hresult] at hpreserves
      have hends := hpreserves.ends found rfl
      exact ⟨hpreserves.intact, hends.node, hends.least,
        tokensFrom_drop (Nat.le_of_lt hends.least)⟩
    rw [bodyCalls] at hmem
    split at hmem
    · obtain ⟨hwithin, hlt | ⟨hat, htighter⟩⟩ :=
        within_prefixedCalls hall hending hlevels hposition h call hmem
      · exact ⟨hwithin, .inl hlt⟩
      · exact ⟨hwithin, .inr ⟨hat, htighter ▸ Nat.lt_succ_self _⟩⟩
    · obtain rfl := List.mem_singleton.mp hmem
      exact ⟨hoperand, hsame⟩
    · rename_i hfixity
      rcases Call.mem_andThen hmem with rfl | ⟨found, state, hresult, hmem⟩ | ⟨_, _, -, hmem⟩
      · exact ⟨hoperand, hsame⟩
      · obtain ⟨hstate, hnode, hfinish, htokens⟩ := hends hresult
        rw [htokens] at hmem
        obtain ⟨hwithin, hlt⟩ :=
          within_leftCalls hall hending hlevels hfixity hstate hnode call hmem
        exact ⟨hwithin, .inl (Nat.lt_trans hfinish hlt)⟩
      · cases hmem
    · rcases Call.mem_andThen hmem with rfl | ⟨found, state, hresult, hmem⟩ | ⟨_, _, -, hmem⟩
      · exact ⟨hoperand, hsame⟩
      · obtain ⟨hstate, -, hfinish, htokens⟩ := hends hresult
        rw [htokens] at hmem
        obtain ⟨hwithin, hlt⟩ := within_rightCalls hlevels hstate call hmem
        exact ⟨hwithin, .inl (Nat.lt_trans hfinish hlt)⟩
      · cases hmem

/-- The calls within a rule are within the parse, and their numbers are greater than that of the
rule. -/
theorem Call.Within.inner (h : call.Within context whole) :
    ∀ made ∈ call.inner context, made.Within context whole ∧
      call.number context < made.number context := by
  intro made hmem
  have hentered : Intact context whole call.entered :=
    h.intact.noteMiss (inTable_ofLevels h.levels h.position) _ h.intact.stop
  rw [Call.inner, h.tokens] at hmem
  obtain ⟨hwithin, hlt | ⟨hat, htighter⟩⟩ :=
    within_bodyCalls hall hending h.levels h.position hentered made hmem
  · exact ⟨hwithin, Call.number_lt_of_position hlt⟩
  · exact ⟨hwithin, Call.number_lt_of_levels h.levels htighter hat⟩

/-- A property of calls within a parse follows from the same for the calls within each rule. -/
theorem Call.Within.induction {motive : Call → Prop}
    (step : ∀ call : Call, call.Within context whole →
      (∀ made ∈ call.inner context, motive made) → motive call)
    (h : call.Within context whole) : motive call := by
  -- The numbers grow, and at the end of the input they come to an end.
  induction hn : (whole.length + 1) * (context.levels.length + 1) - call.number context
    using Nat.strongRecOn generalizing call with
  | ind n ih =>
    refine step call h fun made hmem => ?_
    obtain ⟨hwithin, hlt⟩ := h.inner hall hending made hmem
    have hle : (made.position + 1) * (context.levels.length + 1) ≤
        (whole.length + 1) * (context.levels.length + 1) :=
      Nat.mul_le_mul_right _ (Nat.succ_le_succ hwithin.position)
    have hnumber := made.number_lt_succ_mul context
    exact ih _ (by omega) hwithin rfl

/-- A call leaves as many rules active as there were. -/
theorem Call.Within.depth_result (h : call.Within context whole) :
    (call.result context).2.depth = call.state.depth := by
  refine h.induction hall hending
    (motive := fun call => (call.result context).2.depth = call.state.depth) fun call _ ih => ?_
  by_cases hstarts : call.Starts
  · by_cases hroom : call.state.depth < nestingLimit
    · obtain ⟨finish, hthreads, -, hresult⟩ := Call.exists_threads context hstarts hroom
      rw [hresult, (hthreads.depth_eq ih).1]
      rfl
    · exact (Call.result_of_limited hstarts hroom).2
  · exact (Call.result_of_answered hstarts).2

/-- Within a rule that was started one more rule is active. -/
theorem Call.Within.depth_inner (h : call.Within context whole) (hstarts : call.Starts)
    (hroom : call.state.depth < nestingLimit) :
    ∀ made ∈ call.inner context, made.state.depth = call.state.depth + 1 := by
  obtain ⟨finish, hthreads, -⟩ := Call.exists_threads context hstarts hroom
  exact (hthreads.depth_eq fun made hmem =>
    (h.inner hall hending made hmem).1.depth_result hall hending).2

end

/-- A call would start one rule too many. -/
structure Call.Exceeds (call : Call) : Prop where
  starts : call.Starts
  full : ¬ call.state.depth < nestingLimit

/-- From a call on, rules are active one within the other, the outermost first, and a call is
made within the last of them. -/
inductive Nests (context : ParseContext) : Call → List Call → Call → Prop
  | last (call : Call) : Nests context call [] call
  | within {call made last : Call} {active : List Call} (starts : call.Starts)
    (room : call.state.depth < nestingLimit) (hmem : made ∈ call.inner context)
    (rest : Nests context made active last) : Nests context call (call :: active) last

/-- If the innermost call would start a rule, the limit was not reached at the outermost one. -/
theorem Nests.running (h : Nests context call active last) (hlast : last.Starts) :
    call.state.tooDeep = none := by
  cases h with
  | last => exact hlast.running
  | within starts => exact starts.running

section

variable (hall : ∀ l ∈ context.levels, l.Valid) (hending : context.ending.isEnding)

include hall hending

/-- Rules that are active at once have ever greater numbers. -/
theorem Nests.bounds (hnests : Nests context call active last) (h : call.Within context whole) :
    last.Within context whole ∧
      call.number context + active.length ≤ last.number context ∧
      last.state.depth = call.state.depth + active.length ∧
      (call.state.depth ≤ nestingLimit → last.state.depth ≤ nestingLimit) := by
  induction hnests with
  | last call => exact ⟨h, Nat.le_refl _, rfl, id⟩
  | within starts room hmem rest ih =>
    obtain ⟨hmade, hnumber⟩ := h.inner hall hending _ hmem
    have hdepth := h.depth_inner hall hending starts room _ hmem
    obtain ⟨hlast, hnumbers, hdepths, hlimit⟩ := ih hmade
    rw [List.length_cons]
    exact ⟨hlast, by omega, by omega, fun _ => hlimit (hdepth ▸ room)⟩

/-- The limit is reached within a call exactly if one call would start one rule too many, on top
of rules that are active one within the other. It fails at the token of this call. -/
theorem Call.Within.tooDeep_iff (h : call.Within context whole)
    (hnone : call.state.tooDeep = none) :
    (call.result context).2.tooDeep = some error ↔
      ∃ active last, Nests context call active last ∧ last.Exceeds ∧
        error = ⟨.tooDeep, context.peek last.tokens⟩ := by
  revert hnone
  refine h.induction hall hending (motive := fun call => call.state.tooDeep = none →
    ((call.result context).2.tooDeep = some error ↔ ∃ active last, Nests context call active last ∧
      last.Exceeds ∧ error = ⟨.tooDeep, context.peek last.tokens⟩)) fun call _ ih hnone => ?_
  by_cases hstarts : call.Starts
  · by_cases hroom : call.state.depth < nestingLimit
    · obtain ⟨finish, hthreads, hresult, -⟩ :=
        Call.exists_threads context hstarts hroom
      rw [hresult, hthreads.tooDeep_iff hstarts.running]
      constructor
      · rintro ⟨made, hmem, hrunning, hstop⟩
        obtain ⟨active, last, hnests, hexceeds, herror⟩ := (ih made hmem hrunning).mp hstop
        exact ⟨call :: active, last, .within hstarts hroom hmem hnests, hexceeds, herror⟩
      · rintro ⟨active, last, hnests, hexceeds, herror⟩
        cases hnests with
        | last => exact absurd hroom hexceeds.full
        | @within _ made _ active _ _ hmem rest =>
          have hrunning := rest.running hexceeds.starts
          exact ⟨made, hmem, hrunning,
            (ih made hmem hrunning).mpr ⟨active, last, rest, hexceeds, herror⟩⟩
    · rw [(Call.result_of_limited hstarts hroom).1, Option.some_inj]
      constructor
      · rintro rfl
        exact ⟨[], call, .last call, ⟨hstarts, hroom⟩, rfl⟩
      · rintro ⟨active, last, hnests, -, rfl⟩
        cases hnests with
        | last => rfl
        | within _ room => exact absurd room hroom
  · rw [(Call.result_of_answered hstarts).1, hnone]
    refine ⟨nofun, ?_⟩
    rintro ⟨active, last, hnests, hexceeds, -⟩
    cases hnests with
    | last => exact absurd hexceeds.starts hstarts
    | within starts => exact absurd starts hstarts

/-- The limit is reached once at most. -/
theorem Nests.unique (hnests : Nests context call active last) (h : call.Within context whole)
    (hexceeds : last.Exceeds) {others : List Call} {other : Call}
    (hothers : Nests context call others other) (hother : other.Exceeds) :
    active = others ∧ last = other := by
  induction hnests generalizing others with
  | last call =>
    cases hothers with
    | last => exact ⟨rfl, rfl⟩
    | within _ room => exact absurd room hexceeds.full
  | @within call made last active starts room hmem rest ih =>
    cases hothers with
    | last => exact absurd room hother.full
    | @within _ next _ others _ _ hnext hrest =>
      have hmade := (h.inner hall hending made hmem).1
      have hstops {first final : Call} {within : List Call} (hfirst : first ∈ call.inner context)
          (hwithin : Nests context first within final) (hfinal : final.Exceeds) :
          first.Stops context := by
        have hrunning := hwithin.running hfinal.starts
        exact ⟨hrunning, _, ((h.inner hall hending first hfirst).1.tooDeep_iff hall hending
          hrunning).mpr ⟨within, final, hwithin, hfinal, rfl⟩⟩
      obtain ⟨finish, hthreads, -⟩ := Call.exists_threads context starts room
      obtain rfl : made = next := hthreads.eq_of_stops hmem hnext
        (hstops hmem rest hexceeds) (hstops hnext hrest hother)
      obtain ⟨hactive, hlast⟩ := ih hmade hexceeds hrest
      exact ⟨congrArg _ hactive, hlast⟩

end

end

variable {grammar : Grammar} {tokens : List Token} {active : List Call} {call last : Call}
  {error : ParseError}

/-- The call of the loosest rule at the first token. A parse begins with it in the empty state. -/
def firstCall (grammar : Grammar) (tokens : List Token) (state : ParseState) : Call :=
  ⟨grammar.loosestFirst, 0, Token.beforeEnding tokens, state⟩

/-- In a parse, with as many rules active as may be, a call is about to start one more. -/
structure ReachesLimit (grammar : Grammar) (tokens : List Token) (active : List Call)
    (call : Call) : Prop where
  nests : Nests (context grammar tokens) (firstCall grammar tokens {}) active call
  full : active.length = nestingLimit
  starts : call.Starts

/-- The first call of a parse is within the parse. -/
theorem within_firstCall (grammar : Grammar) (tokens : List Token) :
    (firstCall grammar tokens {}).Within (context grammar tokens) (Token.beforeEnding tokens) :=
  ⟨List.suffix_rfl, Nat.zero_le _, rfl, intact_start _ _⟩

/-- The limit is reached by a call in front of the end of the input or there. -/
theorem Nests.within_parse
    (h : Nests (context grammar tokens) (firstCall grammar tokens {}) active last) :
    last.Within (context grammar tokens) (Token.beforeEnding tokens) ∧
      active.length ≤ last.number (context grammar tokens) ∧
      last.state.depth = active.length ∧ active.length ≤ nestingLimit := by
  obtain ⟨hwithin, hnumber, hdepth, hlimit⟩ := h.bounds grammar.valid_loosestFirst
    (Token.isEnding_firstEnding _) (within_firstCall grammar tokens)
  have hactive : last.state.depth = active.length := hdepth.trans (Nat.zero_add _)
  exact ⟨hwithin, Nat.le_trans (Nat.le_add_left _ _) hnumber, hactive,
    hactive ▸ hlimit (Nat.zero_le _)⟩

/-- To reach the limit is to have a call that would start one rule too many. -/
theorem reachesLimit_iff : ReachesLimit grammar tokens active call ↔
    Nests (context grammar tokens) (firstCall grammar tokens {}) active call ∧ call.Exceeds := by
  constructor
  · rintro ⟨hnests, hfull, hstarts⟩
    obtain ⟨-, -, hdepth, -⟩ := hnests.within_parse
    exact ⟨hnests, hstarts, by omega⟩
  · rintro ⟨hnests, hstarts, hfull⟩
    obtain ⟨-, -, hdepth, hle⟩ := hnests.within_parse
    exact ⟨hnests, by omega, hstarts⟩

/-- A parse is stopped by the limit exactly if it is reached, and fails at the token of the
call. -/
theorem tooDeep_runAll_iff :
    (runAll grammar tokens).2.tooDeep = some error ↔
      ∃ active call, ReachesLimit grammar tokens active call ∧
        error = ⟨.tooDeep, (context grammar tokens).peek call.tokens⟩ := by
  obtain ⟨log, hended⟩ := exists_checkEnding (Token.beforeEnding tokens)
    (run (context grammar tokens) grammar.loosestFirst 0 (Token.beforeEnding tokens) {})
  rw [runAll, hended]
  simp only [reachesLimit_iff, and_assoc]
  exact (within_firstCall grammar tokens).tooDeep_iff grammar.valid_loosestFirst
    (Token.isEnding_firstEnding _) rfl

/-- The failure of a parse that was stopped is returned. -/
theorem parseTokens_of_tooDeep (h : (runAll grammar tokens).2.tooDeep = some error) :
    parseTokens grammar tokens = .error error := by
  change conclude _ (runAll grammar tokens) = _
  simp only [conclude, h]

/-- A failure for nesting is the one that the limit caused. -/
theorem tooDeep_of_parseTokens (h : parseTokens grammar tokens = .error error)
    (hcause : error.cause = .tooDeep) : (runAll grammar tokens).2.tooDeep = some error := by
  refine (noted_or_stopped h).resolve_left ?_
  rintro ⟨index, hnoted⟩
  obtain ⟨-, what, -, hwhat⟩ := (intact_runAll grammar tokens).failures _ hnoted
  rw [show error = _ from hwhat] at hcause
  cases hcause

end Parse

open Parse

/-- The failure for nesting cannot strike a short input, and it is reported where the limit was
reached. The tokens are counted as the parser holds them, the last one being the end of the input,
which it appends if it is missing; a list that ends with it is held as it is. If a rule for each
level and one more at each token are no more than the limit allows, a parse never fails for
nesting. If it does, it wants shallower nesting, at the token of a call that was about to start
one more rule than may be active, and the rules up to this token are more than the limit allows.
There is one such call at most in a parse, and once it is made the parse fails so, whatever the
active rules do. -/
theorem nesting_error_at_limit (grammar : Grammar) (tokens : List Token) :
    let closed := Token.close tokens
    let width := grammar.levels.length + 1
    (width * closed.length ≤ nestingLimit → ¬ NestsTooDeep grammar tokens) ∧
    (∀ others ending, tokens = others ++ [ending] → ending.isEnding →
      closed = tokens ∧ (width * tokens.length ≤ nestingLimit → ¬ NestsTooDeep grammar tokens)) ∧
    (∀ error, parseTokens grammar tokens = .error error → error.cause = .tooDeep →
      error.expected = "shallower nesting" ∧
        ∃ active call, ReachesLimit grammar tokens active call ∧
          closed[call.position]? = some error.found ∧
          nestingLimit < (call.position + 1) * width) ∧
    ∀ active call, ReachesLimit grammar tokens active call →
      (∃ found, closed[call.position]? = some found ∧
        parseTokens grammar tokens = .error ⟨.tooDeep, found⟩) ∧
      ∀ others other, ReachesLimit grammar tokens others other →
        others = active ∧ other = call := by
  intro closed width
  have hplace {active : List Call} {call : Call} (h : ReachesLimit grammar tokens active call) :
      closed[call.position]? = some ((context grammar tokens).peek call.tokens) ∧
        call.position < closed.length ∧ nestingLimit < (call.position + 1) * width := by
    obtain ⟨hwithin, hnumber, -, -⟩ := h.nests.within_parse
    have hwidth : (context grammar tokens).levels.length + 1 = width :=
      congrArg (· + 1) List.length_reverse
    have hlt : call.number (context grammar tokens) < (call.position + 1) * width := by
      rw [← hwidth]
      exact call.number_lt_succ_mul (context grammar tokens)
    rw [h.full] at hnumber
    exact ⟨hwithin.tokens ▸ getElem?_close grammar hwithin.position,
      Nat.lt_of_le_of_lt hwithin.position (Token.length_beforeEnding_lt tokens),
      Nat.lt_of_le_of_lt hnumber hlt⟩
  -- A call that reaches the limit has a number that is too great for a short input.
  have hshort (hle : width * closed.length ≤ nestingLimit) : ¬ NestsTooDeep grammar tokens := by
    rintro ⟨found, hfound⟩
    obtain ⟨active, call, hlimit, -⟩ :=
      tooDeep_runAll_iff.mp (tooDeep_of_parseTokens hfound rfl)
    obtain ⟨-, hlt, hbound⟩ := hplace hlimit
    have hwhole : (call.position + 1) * width ≤ closed.length * width :=
      Nat.mul_le_mul_right _ hlt
    rw [Nat.mul_comm] at hle
    omega
  refine ⟨hshort, fun others ending htokens hending => ?_, fun error herror hcause => ?_,
    fun active call hlimit => ⟨?_, ?_⟩⟩
  · have hclosed : closed = tokens := by
      rw [htokens]
      exact htokens ▸ Token.close_concat hending others
    exact ⟨hclosed, fun hle => hshort (hclosed ▸ hle)⟩
  · obtain ⟨active, call, hlimit, rfl⟩ :=
      tooDeep_runAll_iff.mp (tooDeep_of_parseTokens herror hcause)
    obtain ⟨htoken, -, hbound⟩ := hplace hlimit
    exact ⟨rfl, active, call, hlimit, htoken, hbound⟩
  · exact ⟨_, (hplace hlimit).1, parseTokens_of_tooDeep
      (tooDeep_runAll_iff.mpr ⟨active, call, hlimit, rfl⟩)⟩
  · intro others other hother
    obtain ⟨hnests, hexceeds⟩ := reachesLimit_iff.mp hlimit
    obtain ⟨hothers, hexceeds'⟩ := reachesLimit_iff.mp hother
    exact hothers.unique grammar.valid_loosestFirst (Token.isEnding_firstEnding _)
      (within_firstCall grammar tokens) hexceeds' hnests hexceeds

/-- Under the usual grammar, of six levels, a hundred opening parentheses reach the limit, and the
parse fails at the token of the call that would exceed it. Three of them do not, with an end of
the input behind them or without. -/
theorem nesting_error_at_limit_parens :
    let opening (count : Nat) : List Token := List.replicate count ⟨.leftParen, "(", .start⟩
    let ended : List Token := opening 3 ++ [⟨.ending, "", .start⟩]
    7 * (Token.close (opening 3)).length ≤ nestingLimit ∧
      ¬ NestsTooDeep Grammar.standard (opening 3) ∧
      7 * ended.length ≤ nestingLimit ∧ ¬ NestsTooDeep Grammar.standard ended ∧
      ∃ active call found, ReachesLimit Grammar.standard (opening 100) active call ∧
        parseTokens Grammar.standard (opening 100) = .error ⟨.tooDeep, found⟩ ∧
        (Token.close (opening 100))[call.position]? = some found ∧
        nestingLimit < (call.position + 1) * 7 := by
  intro opening ended
  have hbefore : Token.beforeEnding (opening 100) = opening 100 ++ [] := by
    simp [Token.beforeEnding, opening, Token.isEnding]
  obtain ⟨found, hdeep⟩ : NestsTooDeep Grammar.standard (opening 100) :=
    nestsTooDeep_of_opening hbefore (fun token hmem => by rw [List.eq_of_mem_replicate hmem])
      (by decide)
  obtain ⟨hshort, -⟩ := nesting_error_at_limit Grammar.standard (opening 3)
  obtain ⟨-, hended, -⟩ := nesting_error_at_limit Grammar.standard ended
  obtain ⟨-, -, hreported, hstopped⟩ := nesting_error_at_limit Grammar.standard (opening 100)
  obtain ⟨-, active, call, hlimit, htoken, hbound⟩ := hreported _ hdeep rfl
  obtain ⟨⟨other, hother, hfails⟩, -⟩ := hstopped active call hlimit
  exact ⟨by decide, hshort (by decide), by decide, (hended _ _ rfl rfl).2 (by decide), active, call,
    other, hlimit, hfails, hother, hbound⟩

end Formula
