import Formula.Proofs.Parse.Balance
import Formula.Proofs.Parse.Range

/-!
# The parser as a reader that moves

The rules hand the index behind a match to one another, and a failure has none. Here the same rules
are run by a reader that stands at one token of the whole list at a time. It steps behind the
tokens that it takes, goes back where a try has failed, and keeps with every outcome where it stood
then. Calls are made within calls, and chains of operators followed, only as long as there is fuel,
and without it there is no outcome. With more fuel than there are rules for the tokens that are
left, the reader ends as the parser does, in the same state: behind the match, or where the rule
was called if it fails.
-/

namespace Formula

/-- The node that a rule has made, or why it failed. -/
abbrev Verdict := Except ParseError NodeId

/-- What a reader keeps of a rule: its verdict, and where it stood then. -/
structure Kept where
  verdict : Verdict
  position : Nat

/-- A parser that stands at a token. -/
structure Reader where
  position : Nat
  kept : Rule → Nat → Option Kept
  found : List (Rule × Nat)
  missed : List (Rule × Nat)
  arena : Arena
  failures : FailureLog
  depth : Nat
  tooDeep : Option ParseError

namespace Reader

/-- The token at which the reader stands. It does not look behind the last one. -/
def peek (tokens : List Token) (reader : Reader) : Token :=
  (tokens[min reader.position (tokens.length - 1)]?).getD ⟨.ending, "", .start⟩

/-- Steps behind a token, but not behind the end of the input. -/
def advance (tokens : List Token) (reader : Reader) : Reader :=
  if (reader.peek tokens).isEnding then reader
  else { reader with position := reader.position + 1 }

/-- Fails at the token for want of something else. -/
def fail (tokens : List Token) (what : Expectation) (reader : Reader) : Verdict × Reader :=
  let error : ParseError := ⟨.expected what, reader.peek tokens⟩
  (.error error, { reader with failures := reader.failures.note (reader.position, error) })

/-- Succeeds with a new node. -/
def succeed (node : Node) (reader : Reader) : Verdict × Reader :=
  (.ok reader.arena.size, { reader with arena := reader.arena.add node })

/-- What happens when a rule is called: it is answered at once, or it starts. -/
inductive Entry where
  | answered (verdict : Verdict) (reader : Reader)
  | started (reader : Reader)

/-- Calls a rule where the reader stands. With a kept outcome it moves to where it stood then. -/
def enter (rule : Rule) (next : Token) (reader : Reader) : Entry :=
  match reader.tooDeep with
  | some error => .answered (.error error) reader
  | none =>
    match reader.kept rule reader.position with
    | some kept =>
      .answered kept.verdict { reader with
        position := kept.position
        found := (rule, reader.position) :: reader.found }
    | none =>
      let reader := { reader with missed := (rule, reader.position) :: reader.missed }
      if reader.depth < nestingLimit then .started { reader with depth := reader.depth + 1 }
      else
        let error : ParseError := ⟨.tooDeep, next⟩
        .answered (.error error) { reader with tooDeep := some error }

/-- Ends a rule that was started somewhere. If it fails, the reader goes back there. -/
def leave (rule : Rule) (start : Nat) (verdict : Verdict) (reader : Reader) : Reader :=
  let finish := if verdict.isOk then reader.position else start
  { reader with
    position := finish
    depth := reader.depth - 1
    kept := fun other place =>
      if rule = other ∧ start = place then some ⟨verdict, finish⟩ else reader.kept other place }

/-- What runs the rule of the first of some levels for a reader, if it comes to an end. -/
abbrev Callee := List Level → Reader → Option (Verdict × Reader)

section

variable (tokens : List Token) (loosest : List Level) (callee : Callee)

/-- Takes postfix operators as long as there are any. -/
def postfixChain (operators : OperatorSet) (fuel : Nat) (operand : NodeId) (reader : Reader) :
    Option (Verdict × Reader) :=
  match fuel with
  | 0 => none
  | fuel + 1 =>
    let token := reader.peek tokens
    if operators.contains token then
      let reader := reader.advance tokens
      match token.operator?.bind Operator.asPostfix? with
      | none => some (reader.fail tokens .postfixOperator)
      | some op =>
        postfixChain operators fuel reader.arena.size
          { reader with arena := reader.arena.add (.postfixed operand op) }
    else some (.ok operand, reader)

/-- Takes infix operators with operands of the tighter levels; goes back in front of an operator
that has none. -/
def leftChain (operators : OperatorSet) (tighter : List Level) (fuel : Nat) (left : NodeId)
    (reader : Reader) : Option (Verdict × Reader) :=
  match fuel with
  | 0 => none
  | fuel + 1 =>
    let token := reader.peek tokens
    if operators.contains token then do
      match ← callee tighter (reader.advance tokens) with
      | (.error _, ended) => some (.ok left, { ended with position := reader.position })
      | (.ok right, ended) =>
        match token.operator?.bind Operator.asBinary? with
        | none => some (ended.fail tokens .binaryOperator)
        | some op =>
          leftChain operators tighter fuel ended.arena.size
            { ended with arena := ended.arena.add (.binary op left right) }
    else some (.ok left, reader)

/-- Takes an infix operator with an operand of the same level; goes back in front of the operator
if it has none. -/
def rightOperand (level : Level) (tighter : List Level) (left : NodeId) (reader : Reader) :
    Option (Verdict × Reader) :=
  let token := reader.peek tokens
  if level.operators.contains token then do
    match ← callee (level :: tighter) (reader.advance tokens) with
    | (.error _, ended) => some (.ok left, { ended with position := reader.position })
    | (.ok right, ended) =>
      match token.operator?.bind Operator.asBinary? with
      | none => some (ended.fail tokens .binaryOperator)
      | some op => some (ended.succeed (.binary op left right))
  else some (.ok left, reader)

/-- Takes an operator and an operand of the same level; if there is none, goes back in front of
the operator and takes an operand of the tighter levels. -/
def prefixed (level : Level) (tighter : List Level) (reader : Reader) :
    Option (Verdict × Reader) :=
  let token := reader.peek tokens
  if level.operators.contains token then do
    match ← callee (level :: tighter) (reader.advance tokens) with
    | (.error _, ended) => callee tighter { ended with position := reader.position }
    | (.ok operand, ended) =>
      match level.operators.prefixOp? token with
      | none => some (ended.fail tokens .prefixOperator)
      | some op => some (ended.succeed (.prefixed op operand))
  else callee tighter reader

/-- Takes a number, a variable, or a formula in parentheses. -/
def primary (reader : Reader) : Option (Verdict × Reader) :=
  let token := reader.peek tokens
  match token.kind with
  | .leftParen => do
    match ← callee loosest (reader.advance tokens) with
    | (.error error, ended) => some (.error error, ended)
    | (.ok inner, ended) =>
      if (ended.peek tokens).kind = .rightParen then some (.ok inner, ended.advance tokens)
      else some (ended.fail tokens (.closingParen token.location.column))
  | .integer | .real =>
    match token.literal? with
    | some value => some ((reader.advance tokens).succeed (.literal value))
    | none => some (reader.fail tokens .number)
  | .letter =>
    match token.text.toList with
    | name :: _ => some ((reader.advance tokens).succeed (.var name))
    | [] => some (reader.fail tokens .operand)
  | _ => some (reader.fail tokens .operand)

/-- Runs the body of a rule. -/
def body (fuel : Nat) (levels : List Level) (reader : Reader) : Option (Verdict × Reader) :=
  match levels with
  | [] => primary tokens loosest callee reader
  | level :: tighter =>
    match level.fixity with
    | .prefixOp => prefixed tokens callee level tighter reader
    | .postfixOp => do
      match ← callee tighter reader with
      | (.error error, ended) => some (.error error, ended)
      | (.ok operand, ended) => postfixChain tokens level.operators fuel operand ended
    | .infixOp .left => do
      match ← callee tighter reader with
      | (.error error, ended) => some (.error error, ended)
      | (.ok left, ended) => leftChain tokens callee level.operators tighter fuel left ended
    | .infixOp .right => do
      match ← callee tighter reader with
      | (.error error, ended) => some (.error error, ended)
      | (.ok left, ended) => rightOperand tokens callee level tighter left ended

/-- Runs the rule of the first level, or repeats what it did there before. -/
def call (fuel : Nat) (levels : List Level) (reader : Reader) : Option (Verdict × Reader) :=
  match fuel with
  | 0 => none
  | fuel + 1 =>
    match reader.enter (.ofLevels levels) (reader.peek tokens) with
    | .answered verdict reader => some (verdict, reader)
    | .started entered => do
      let (verdict, ended) ← body tokens loosest (call fuel) fuel levels entered
      some (verdict, ended.leave (.ofLevels levels) reader.position verdict)

end

end Reader

/-- Where a rule leaves a reader that called it somewhere: behind the match or, if it failed,
where it was called. -/
def finishFrom (start : Nat) : Outcome → Nat
  | .ok found => found.finish
  | .error _ => start

/-- The outcome of a rule without the index behind the match. -/
def verdict (outcome : Outcome) : Verdict := outcome.map Match.node

/-- The reader that stands at a token in a state of the parse. -/
def ParseState.readerAt (state : ParseState) (position : Nat) : Reader where
  position := position
  kept rule start := (state.memo.outcome? rule start).map fun outcome =>
    ⟨verdict outcome, finishFrom start outcome⟩
  found := state.memo.found
  missed := state.memo.missed
  arena := state.arena
  failures := state.failures
  depth := state.depth
  tooDeep := state.tooDeep

namespace Parse

variable {grammar : Grammar} {tokens behind : List Token} {token : Token} {position : Nat}
  {state start : ParseState} {levels tighter : List Level} {level : Level} {id : NodeId}
  {operators : OperatorSet} {outcome : Outcome} {rule : Rule} {fuel origin : Nat}
  {callee : Reader.Callee}

/-- The end of the input has the kind of one. -/
theorem kind_ending (grammar : Grammar) (tokens : List Token) :
    (context grammar tokens).ending.kind = .ending := by
  have hending : (context grammar tokens).ending.isEnding := Token.isEnding_firstEnding _
  simpa [Token.isEnding] using hending

/-- In front of the end of the input and there, the reader sees what the parser does. -/
theorem peek_readerAt (grammar : Grammar) (h : position ≤ (Token.beforeEnding tokens).length) :
    (state.readerAt position).peek (Token.close tokens) =
      (context grammar tokens).peek ((Token.beforeEnding tokens).drop position) := by
  have hlt := Token.length_beforeEnding_lt tokens
  have hmin : min position ((Token.close tokens).length - 1) = position := by omega
  change ((Token.close tokens)[min position ((Token.close tokens).length - 1)]?).getD _ = _
  rw [hmin, getElem?_close grammar h, Option.getD_some]

/-- The reader sees the token at its index. -/
theorem peek_readerAt_of_cons (h : (Token.beforeEnding tokens).drop position = token :: behind) :
    (state.readerAt position).peek (Token.close tokens) = token := by
  rw [peek_readerAt Grammar.standard (Nat.le_of_lt (lt_length_of_drop h)), peek_drop h]

/-- No operator is the end of the input. -/
theorem contains_readerAt_of_nil (operators : OperatorSet)
    (hposition : position ≤ (Token.beforeEnding tokens).length)
    (h : (Token.beforeEnding tokens).drop position = []) :
    operators.contains ((state.readerAt position).peek (Token.close tokens)) = false := by
  have hending := kind_ending Grammar.standard tokens
  rw [peek_readerAt Grammar.standard hposition, h]
  cases operators with
  | names => simp [OperatorSet.contains, ParseContext.peek, hending]
  | symbols list => simp [OperatorSet.contains, Token.operator?, ParseContext.peek, hending]

/-- Past a token the reader is at the next index. -/
theorem advance_readerAt (h : (Token.beforeEnding tokens).drop position = token :: behind) :
    (state.readerAt position).advance (Token.close tokens) = state.readerAt (position + 1) := by
  have hmem : token ∈ Token.beforeEnding tokens :=
    List.mem_of_mem_drop (h ▸ List.mem_cons_self)
  have hending : token.isEnding = false := by simpa using List.mem_takeWhile_imp hmem
  rw [Reader.advance, peek_readerAt_of_cons h, if_neg (by simp [hending])]
  rfl

/-- The reader fails as the parser does, and stays where it is. -/
theorem fail_readerAt (grammar : Grammar) (what : Expectation)
    (h : position ≤ (Token.beforeEnding tokens).length) :
    (state.readerAt position).fail (Token.close tokens) what =
      (verdict (state.fail what position
          ((context grammar tokens).peek ((Token.beforeEnding tokens).drop position))).1,
        (state.fail what position
          ((context grammar tokens).peek ((Token.beforeEnding tokens).drop position))).2.readerAt
            position) := by
  rw [Reader.fail, peek_readerAt grammar h]
  rfl

/-- A rule is called alike. -/
theorem enter_readerAt (rule : Rule) (next : Token) :
    (state.readerAt position).enter rule next =
      match state.enter rule position next with
      | .answered outcome ended =>
        .answered (verdict outcome) (ended.readerAt (finishFrom position outcome))
      | .started entered => .started (entered.readerAt position) := by
  rw [Reader.enter]
  cases htooDeep : state.tooDeep with
  | some error =>
    rw [ParseState.enter_of_tooDeep htooDeep]
    simp only [ParseState.readerAt, htooDeep]
    rfl
  | none =>
    cases hknown : state.memo.outcome? rule position with
    | some outcome =>
      rw [ParseState.enter_known htooDeep hknown]
      simp only [ParseState.readerAt, htooDeep, hknown]
      rfl
    | none =>
      by_cases hdepth : state.depth < nestingLimit
      · rw [ParseState.enter_started htooDeep hknown hdepth]
        simp only [ParseState.readerAt, htooDeep, hknown, hdepth]
        rfl
      · rw [ParseState.enter_limited htooDeep hknown hdepth]
        simp only [ParseState.readerAt, htooDeep, hknown, hdepth]
        rfl

/-- A rule is left alike. It fails where it was called, wherever its body has come to. -/
theorem leave_readerAt {place : Nat}
    (h : ∀ found, outcome = .ok found → place = found.finish) :
    (state.readerAt place).leave rule position (verdict outcome) =
      (state.leave rule position outcome).readerAt (finishFrom position outcome) := by
  have hfinish : (if (verdict outcome).isOk then place else position) =
      finishFrom position outcome := by
    cases outcome with
    | error error => rfl
    | ok found => exact h found rfl
  have hkept : (fun other start => if rule = other ∧ position = start then
        some (⟨verdict outcome, finishFrom position outcome⟩ : Kept)
      else (state.readerAt place).kept other start) =
      ((state.leave rule position outcome).readerAt (finishFrom position outcome)).kept := by
    funext other start
    simp only [ParseState.readerAt, ParseState.leave, Memo.outcome?_insert]
    split
    · rename_i hsame
      rw [hsame.2]
      rfl
    · rfl
  rw [Reader.leave]
  simp only [ParseState.readerAt] at hfinish hkept ⊢
  rw [hfinish, hkept]
  rfl

/-- The reader ends as the parser does, behind the match if there is one. -/
def Mirrors (result : Outcome × ParseState) (read : Option (Verdict × Reader)) : Prop :=
  ∃ place, read = some (verdict result.1, result.2.readerAt place) ∧
    ∀ found, result.1 = .ok found → place = found.finish

/-- The reader ends as the parser does, behind the match or where the rule was called. -/
def MirrorsCall (start : Nat) (result : Outcome × ParseState)
    (read : Option (Verdict × Reader)) : Prop :=
  read = some (verdict result.1, result.2.readerAt (finishFrom start result.1))

variable {called : Outcome × ParseState} {read : Option (Verdict × Reader)}
  {goOn : Verdict × Reader → Option (Verdict × Reader)}

/-- A call that is made alike ends alike. -/
theorem MirrorsCall.mirrors (h : MirrorsCall position called read) : Mirrors called read := by
  refine ⟨_, h, ?_⟩
  intro found hfound
  rw [hfound]
  rfl

/-- A match that is passed on leaves the reader behind it. -/
theorem mirrors_found (id : NodeId) (position : Nat) (state : ParseState) :
    Mirrors (.ok ⟨id, position⟩, state) (some (.ok id, state.readerAt position)) := by
  refine ⟨position, rfl, ?_⟩
  rintro _ ⟨⟩
  rfl

/-- A match of a new node leaves the reader behind it. -/
theorem mirrors_succeed (node : Node) (position : Nat) (state : ParseState) :
    Mirrors (state.succeed node position) (some ((state.readerAt position).succeed node)) := by
  refine ⟨position, rfl, ?_⟩
  rintro _ ⟨⟩
  rfl

/-- The reader fails alike. -/
theorem mirrors_fail (grammar : Grammar) (what : Expectation) (state : ParseState)
    (h : position ≤ (Token.beforeEnding tokens).length) :
    Mirrors (state.fail what position
        ((context grammar tokens).peek ((Token.beforeEnding tokens).drop position)))
      (some ((state.readerAt position).fail (Token.close tokens) what)) :=
  ⟨position, congrArg some (fail_readerAt grammar what h), nofun⟩

/-- What is done behind a call is done alike if the call is. -/
theorem mirrors_orElse {next : Match → ParseState → Outcome × ParseState}
    {otherwise : ParseError → ParseState → Outcome × ParseState} :
    MirrorsCall position called read →
    (∀ found state, called = (.ok found, state) →
      Mirrors (next found state) (goOn (.ok found.node, state.readerAt found.finish))) →
    (∀ error state, called = (.error error, state) →
      Mirrors (otherwise error state) (goOn (.error error, state.readerAt position))) →
    Mirrors (match called with
        | (.error error, state) => otherwise error state
        | (.ok found, state) => next found state) (read >>= goOn) := by
  intro hcall hnext hotherwise
  obtain ⟨outcome, state⟩ := called
  obtain rfl : read = some (verdict outcome, state.readerAt (finishFrom position outcome)) := hcall
  cases outcome with
  | error error => exact hotherwise error state rfl
  | ok found => exact hnext found state rfl

/-- The failure of a call is passed on alike. -/
theorem mirrors_andThen {next : Match → ParseState → Outcome × ParseState} :
    MirrorsCall position called read →
    (∀ found state, called = (.ok found, state) →
      Mirrors (next found state) (goOn (.ok found.node, state.readerAt found.finish))) →
    (∀ error reader, goOn (.error error, reader) = some (.error error, reader)) →
    Mirrors (match called with
        | (.error error, state) => (.error error, state)
        | (.ok found, state) => next found state) (read >>= goOn) := by
  intro hcall hnext hgoOn
  refine mirrors_orElse hcall hnext fun error state _ => ?_
  rw [hgoOn]
  exact ⟨position, rfl, nofun⟩

/-- Postfix operators are applied alike. -/
theorem mirrors_postfixChain (grammar : Grammar)
    (hfuel : (Token.beforeEnding tokens).length < position + fuel)
    (hposition : position ≤ (Token.beforeEnding tokens).length) :
    Mirrors (postfixChain (context grammar tokens) operators id position
        ((Token.beforeEnding tokens).drop position) start)
      ((start.readerAt position).postfixChain (Token.close tokens) operators fuel id) := by
  induction fuel generalizing id position start with
  | zero => omega
  | succ fuel chained =>
    cases htokens : (Token.beforeEnding tokens).drop position with
    | nil =>
      rw [postfixChain, Reader.postfixChain,
        if_neg (by simp [contains_readerAt_of_nil operators hposition htokens])]
      exact mirrors_found id position start
    | cons token behind =>
      have hlt := lt_length_of_drop htokens
      obtain rfl := eq_drop_of_cons htokens
      rw [postfixChain, Reader.postfixChain, peek_readerAt_of_cons htokens,
        advance_readerAt htokens]
      split
      · cases token.operator?.bind Operator.asPostfix? with
        | none => exact mirrors_fail grammar _ start hlt
        | some op => exact chained (by omega) hlt
      · exact mirrors_found id position start

/-- The call of a rule at a token, in a state, is made alike. -/
def CallsAlike (grammar : Grammar) (tokens : List Token) (callee : Reader.Callee)
    (levels : List Level) (position : Nat) (start : ParseState) : Prop :=
  MirrorsCall position (run (context grammar tokens) levels position
      ((Token.beforeEnding tokens).drop position) start)
    (callee levels (start.readerAt position))

/-- All calls at tokens behind an index are made alike. -/
def CallsAlikeBehind (grammar : Grammar) (tokens : List Token) (callee : Reader.Callee)
    (origin : Nat) : Prop :=
  ∀ levels position start, levels <:+ grammar.loosestFirst → origin < position →
    position ≤ (Token.beforeEnding tokens).length →
    MemoSpans (Token.beforeEnding tokens) start.memo →
    CallsAlike grammar tokens callee levels position start

/-- The calls behind the first of the tokens are made alike. -/
theorem CallsAlikeBehind.next (ih : CallsAlikeBehind grammar tokens callee origin)
    (horigin : origin ≤ position)
    (htokens : (Token.beforeEnding tokens).drop position = token :: behind)
    (hlevels : levels <:+ grammar.loosestFirst)
    (hmemo : MemoSpans (Token.beforeEnding tokens) start.memo) :
    CallsAlike grammar tokens callee levels (position + 1) start :=
  ih levels (position + 1) start hlevels (Nat.lt_succ_of_le horigin) (lt_length_of_drop htokens)
    hmemo

/-- What a call leaves: matches that span tokens, its own among them. -/
theorem spans_of_run (hlevels : levels <:+ grammar.loosestFirst)
    (hposition : position ≤ (Token.beforeEnding tokens).length)
    (hmemo : MemoSpans (Token.beforeEnding tokens) start.memo)
    (hrun : run (context grammar tokens) levels position
      ((Token.beforeEnding tokens).drop position) start = (outcome, state)) :
    MemoSpans (Token.beforeEnding tokens) state.memo ∧ ∀ found, outcome = .ok found →
      position < found.finish ∧ found.finish ≤ (Token.beforeEnding tokens).length := by
  have hspans : MemoSpans _ (run (context grammar tokens) levels position _ start).2.memo ∧ _ :=
    spans_run grammar.valid_loosestFirst (Token.isEnding_firstEnding _) hlevels hposition hmemo
  rw [hrun] at hspans
  exact ⟨hspans.1, fun found hfound => ⟨(hspans.2 found hfound).1, (hspans.2 found hfound).2.bound⟩⟩

/-- Infix operators are applied from left to right alike. -/
theorem mirrors_leftChain (ih : CallsAlikeBehind grammar tokens callee origin)
    (hlevels : tighter <:+ grammar.loosestFirst)
    (hfuel : (Token.beforeEnding tokens).length < position + fuel) (horigin : origin ≤ position)
    (hposition : position ≤ (Token.beforeEnding tokens).length)
    (hmemo : MemoSpans (Token.beforeEnding tokens) start.memo) :
    Mirrors (leftChain (context grammar tokens) operators tighter id position
        ((Token.beforeEnding tokens).drop position) start)
      ((start.readerAt position).leftChain (Token.close tokens) callee operators tighter fuel
        id) := by
  induction fuel generalizing id position start with
  | zero => omega
  | succ fuel chained =>
    cases htokens : (Token.beforeEnding tokens).drop position with
    | nil =>
      rw [leftChain, Reader.leftChain,
        if_neg (by simp [contains_readerAt_of_nil operators hposition htokens])]
      exact mirrors_found id position start
    | cons token behind =>
      have hlt := lt_length_of_drop htokens
      obtain rfl := eq_drop_of_cons htokens
      rw [leftChain, Reader.leftChain, peek_readerAt_of_cons htokens, advance_readerAt htokens]
      split
      · refine mirrors_orElse (ih.next horigin htokens hlevels hmemo)
          (fun right state hcalled => ?_) fun error state _ => mirrors_found id position state
        obtain ⟨hstate, hright⟩ := spans_of_run hlevels hlt hmemo hcalled
        obtain ⟨hleast, hfinish⟩ := hright right rfl
        rw [tokensFrom_drop (Nat.le_of_lt hleast)]
        cases token.operator?.bind Operator.asBinary? with
        | none => exact mirrors_fail grammar _ state hfinish
        | some op => exact chained (by omega) (by omega) hfinish hstate
      · exact mirrors_found id position start

/-- An infix operator is applied to an operand of its level alike. -/
theorem mirrors_rightOperand (ih : CallsAlikeBehind grammar tokens callee origin)
    (hlevels : level :: tighter <:+ grammar.loosestFirst) (horigin : origin ≤ position)
    (hposition : position ≤ (Token.beforeEnding tokens).length)
    (hmemo : MemoSpans (Token.beforeEnding tokens) start.memo) :
    Mirrors (rightOperand (context grammar tokens) level tighter id position
        ((Token.beforeEnding tokens).drop position) start)
      ((start.readerAt position).rightOperand (Token.close tokens) callee level tighter id) := by
  cases htokens : (Token.beforeEnding tokens).drop position with
  | nil =>
    rw [rightOperand, Reader.rightOperand,
      if_neg (by simp [contains_readerAt_of_nil level.operators hposition htokens])]
    exact mirrors_found id position start
  | cons token behind =>
    have hlt := lt_length_of_drop htokens
    obtain rfl := eq_drop_of_cons htokens
    rw [rightOperand, Reader.rightOperand, peek_readerAt_of_cons htokens,
      advance_readerAt htokens]
    split
    · refine mirrors_orElse (ih.next horigin htokens hlevels hmemo) (fun right state hcalled => ?_)
        fun error state _ => mirrors_found id position state
      obtain ⟨hleast, hfinish⟩ := (spans_of_run hlevels hlt hmemo hcalled).2 right rfl
      rw [tokensFrom_drop (Nat.le_of_lt hleast)]
      cases token.operator?.bind Operator.asBinary? with
      | none => exact mirrors_fail grammar _ state hfinish
      | some op => exact mirrors_succeed _ right.finish state
    · exact mirrors_found id position start

/-- A prefix operator is applied alike, and so is an operand read in its place. -/
theorem mirrors_prefixed
    (ih : CallsAlikeBehind grammar tokens callee position)
    (hlevels : level :: tighter <:+ grammar.loosestFirst)
    (hposition : position ≤ (Token.beforeEnding tokens).length)
    (hmemo : MemoSpans (Token.beforeEnding tokens) start.memo)
    (hoperand : ∀ state : ParseState, MemoSpans (Token.beforeEnding tokens) state.memo →
      CallsAlike grammar tokens callee tighter position state) :
    Mirrors (prefixed (context grammar tokens) level tighter position
        ((Token.beforeEnding tokens).drop position) start)
      ((start.readerAt position).prefixed (Token.close tokens) callee level tighter) := by
  cases htokens : (Token.beforeEnding tokens).drop position with
  | nil =>
    rw [prefixed, Reader.prefixed,
      if_neg (by simp [contains_readerAt_of_nil level.operators hposition htokens]), ← htokens]
    exact (hoperand start hmemo).mirrors
  | cons token behind =>
    have hlt := lt_length_of_drop htokens
    rw [prefixed, Reader.prefixed, peek_readerAt_of_cons htokens, advance_readerAt htokens,
      ← htokens]
    obtain rfl := eq_drop_of_cons htokens
    split
    · refine mirrors_orElse (ih.next (Nat.le_refl _) htokens hlevels hmemo)
        (fun operand state hcalled => ?_) fun error state hcalled => ?_
      · obtain ⟨hleast, hfinish⟩ := (spans_of_run hlevels hlt hmemo hcalled).2 operand rfl
        rw [tokensFrom_drop (Nat.le_of_lt hleast)]
        cases level.operators.prefixOp? token with
        | none => exact mirrors_fail grammar _ state hfinish
        | some op => exact mirrors_succeed _ operand.finish state
      · exact (hoperand state (spans_of_run hlevels hlt hmemo hcalled).1).mirrors
    · exact (hoperand start hmemo).mirrors

/-- A closing parenthesis is taken, or missed, alike. It is never the end of the input. -/
theorem mirrors_closing (id : NodeId) (what : Expectation) (state : ParseState)
    (hposition : position ≤ (Token.beforeEnding tokens).length) :
    let next := (context grammar tokens).peek ((Token.beforeEnding tokens).drop position)
    let reader := state.readerAt position
    Mirrors (if next.kind = .rightParen then (.ok ⟨id, position + 1⟩, state)
        else state.fail what position next)
      (if (reader.peek (Token.close tokens)).kind = .rightParen then
        some (.ok id, reader.advance (Token.close tokens))
      else some (reader.fail (Token.close tokens) what)) := by
  simp only [peek_readerAt grammar hposition]
  split
  · rename_i hcloses
    cases hrest : (Token.beforeEnding tokens).drop position with
    | nil =>
      rw [hrest] at hcloses
      cases (kind_ending grammar tokens).symm.trans hcloses
    | cons closing rest =>
      rw [advance_readerAt hrest]
      exact mirrors_found id (position + 1) state
  · exact mirrors_fail grammar what state hposition

/-- A primary is read alike. -/
theorem mirrors_primary
    (ih : CallsAlikeBehind grammar tokens callee position)
    (hposition : position ≤ (Token.beforeEnding tokens).length)
    (hmemo : MemoSpans (Token.beforeEnding tokens) start.memo) :
    Mirrors (primary (context grammar tokens) position
        ((Token.beforeEnding tokens).drop position) start)
      ((start.readerAt position).primary (Token.close tokens) grammar.loosestFirst callee) := by
  cases htokens : (Token.beforeEnding tokens).drop position with
  | nil =>
    have hpeek : (start.readerAt position).peek (Token.close tokens) =
        (context grammar tokens).ending := by
      rw [peek_readerAt grammar hposition, htokens]
      rfl
    have hfail := mirrors_fail grammar .operand start hposition
    rw [htokens] at hfail
    rw [primary, Reader.primary, hpeek, kind_ending]
    exact hfail
  | cons token behind =>
    have hlt := lt_length_of_drop htokens
    have hfail (what : Expectation) : Mirrors (start.fail what position token)
        (some ((start.readerAt position).fail (Token.close tokens) what)) := by
      have hfails := mirrors_fail grammar what start hposition
      rwa [peek_drop htokens] at hfails
    obtain rfl := eq_drop_of_cons htokens
    rw [primary, Reader.primary, peek_readerAt_of_cons htokens, advance_readerAt htokens]
    cases token.kind with
    | leftParen =>
      refine mirrors_andThen (ih.next (Nat.le_refl _) htokens List.suffix_rfl hmemo)
        (fun inner state hcalled => ?_) fun _ _ => rfl
      obtain ⟨hleast, hfinish⟩ := (spans_of_run List.suffix_rfl hlt hmemo hcalled).2 inner rfl
      rw [tokensFrom_drop (Nat.le_of_lt hleast)]
      exact mirrors_closing inner.node _ state hfinish
    | integer | real =>
      cases token.literal? with
      | none => exact hfail .number
      | some value => exact mirrors_succeed _ (position + 1) start
    | letter =>
      cases token.text.toList with
      | nil => exact hfail .operand
      | cons name others => exact mirrors_succeed _ (position + 1) start
    | _ => exact hfail .operand

/-- The body of a rule is run alike if the calls it makes are. -/
theorem mirrors_body (ih : CallsAlikeBehind grammar tokens callee position)
    (hlevels : levels <:+ grammar.loosestFirst)
    (hfuel : (Token.beforeEnding tokens).length ≤ position + fuel)
    (hposition : position ≤ (Token.beforeEnding tokens).length)
    (hmemo : MemoSpans (Token.beforeEnding tokens) start.memo)
    (hoperand : ∀ level tighter, levels = level :: tighter → ∀ state : ParseState,
      MemoSpans (Token.beforeEnding tokens) state.memo →
      CallsAlike grammar tokens callee tighter position state) :
    Mirrors (expand (context grammar tokens) levels position
        ((Token.beforeEnding tokens).drop position) start)
      ((start.readerAt position).body (Token.close tokens) grammar.loosestFirst callee fuel
        levels) := by
  cases levels with
  | nil =>
    rw [expand, Reader.body]
    exact mirrors_primary ih hposition hmemo
  | cons level tighter =>
    have htighter : tighter <:+ grammar.loosestFirst :=
      (List.suffix_cons level tighter).trans hlevels
    have hfirst := hoperand level tighter rfl start hmemo
    have hbehind {found : Match} {state : ParseState}
        (hcalled : run (context grammar tokens) tighter position
          ((Token.beforeEnding tokens).drop position) start = (.ok found, state)) :
        MemoSpans (Token.beforeEnding tokens) state.memo ∧ position < found.finish ∧
          found.finish ≤ (Token.beforeEnding tokens).length ∧
          tokensFrom ((Token.beforeEnding tokens).drop position) position found.finish =
            (Token.beforeEnding tokens).drop found.finish := by
      obtain ⟨hstate, hfound⟩ := spans_of_run htighter hposition hmemo hcalled
      obtain ⟨hleast, hfinish⟩ := hfound found rfl
      exact ⟨hstate, hleast, hfinish, tokensFrom_drop (Nat.le_of_lt hleast)⟩
    rw [expand, Reader.body]
    cases level.fixity with
    | prefixOp => exact mirrors_prefixed ih hlevels hposition hmemo (hoperand level tighter rfl)
    | postfixOp =>
      refine mirrors_andThen hfirst (fun found state hcalled => ?_) fun _ _ => rfl
      obtain ⟨-, hleast, hfinish, htokens⟩ := hbehind hcalled
      rw [htokens]
      exact mirrors_postfixChain grammar (by omega) hfinish
    | infixOp side =>
      cases side with
      | left =>
        refine mirrors_andThen hfirst (fun found state hcalled => ?_) fun _ _ => rfl
        obtain ⟨hstate, hleast, hfinish, htokens⟩ := hbehind hcalled
        rw [htokens]
        exact mirrors_leftChain ih htighter (by omega) (Nat.le_of_lt hleast) hfinish hstate
      | right =>
        refine mirrors_andThen hfirst (fun found state hcalled => ?_) fun _ _ => rfl
        obtain ⟨hstate, hleast, hfinish, htokens⟩ := hbehind hcalled
        rw [htokens]
        exact mirrors_rightOperand ih hlevels (Nat.le_of_lt hleast) hfinish hstate

/-- How many rules there are at a token, from some levels on, and behind it. -/
def rulesFrom (grammar : Grammar) (tokens : List Token) (levels : List Level)
    (position : Nat) : Nat :=
  ((Token.beforeEnding tokens).length - position) * (grammar.levels.length + 1) + levels.length

/-- No rule has more levels than the table. -/
theorem length_le_of_suffix (hlevels : levels <:+ grammar.loosestFirst) :
    levels.length ≤ grammar.levels.length := by
  have hlength : grammar.loosestFirst.length = grammar.levels.length := List.length_reverse
  exact hlength ▸ hlevels.length_le

/-- Behind a token there are fewer rules. -/
theorem rulesFrom_lt {other : List Level} (hother : other <:+ grammar.loosestFirst) {later : Nat}
    (hlt : position < later) (hlater : later ≤ (Token.beforeEnding tokens).length) :
    rulesFrom grammar tokens other later < rulesFrom grammar tokens levels position := by
  have hlength := length_le_of_suffix hother
  have hmul : ((Token.beforeEnding tokens).length - later + 1) * (grammar.levels.length + 1) ≤
      ((Token.beforeEnding tokens).length - position) * (grammar.levels.length + 1) :=
    Nat.mul_le_mul_right _ (by omega)
  rw [Nat.succ_mul] at hmul
  rw [rulesFrom, rulesFrom]
  omega

/-- There are fewer rules than there are for all the tokens. -/
theorem rulesFrom_lt_mul (hlevels : levels <:+ grammar.loosestFirst) :
    rulesFrom grammar tokens levels position <
      (grammar.levels.length + 1) * (Token.close tokens).length := by
  have hlength := length_le_of_suffix hlevels
  have hlt := Token.length_beforeEnding_lt tokens
  have hmul : ((Token.beforeEnding tokens).length - position + 1) * (grammar.levels.length + 1) ≤
      (Token.close tokens).length * (grammar.levels.length + 1) :=
    Nat.mul_le_mul_right _ (by omega)
  rw [Nat.succ_mul] at hmul
  rw [rulesFrom, Nat.mul_comm (grammar.levels.length + 1)]
  omega

/-- There are no fewer rules than tokens from an index on. -/
theorem le_rulesFrom (grammar : Grammar) (tokens : List Token) (levels : List Level)
    (position : Nat) :
    (Token.beforeEnding tokens).length - position ≤ rulesFrom grammar tokens levels position :=
  Nat.le_add_right_of_le (Nat.le_mul_of_pos_right _ (Nat.succ_pos _))

/-- With more fuel than there are rules, every call is made alike: the reader ends, with the same
outcome and in the same state, behind the match or, if the rule fails, at the token where it was
called. -/
theorem mirrors_call (hlevels : levels <:+ grammar.loosestFirst)
    (hposition : position ≤ (Token.beforeEnding tokens).length)
    (hmemo : MemoSpans (Token.beforeEnding tokens) start.memo)
    (hfuel : rulesFrom grammar tokens levels position < fuel) :
    CallsAlike grammar tokens (Reader.call (Token.close tokens) grammar.loosestFirst fuel) levels
      position start := by
  -- The body has one unit less, and there are fewer rules from each of its calls on.
  induction fuel generalizing levels position start with
  | zero => omega
  | succ fuel ih =>
    have hbehind : CallsAlikeBehind grammar tokens
        (Reader.call (Token.close tokens) grammar.loosestFirst fuel) position := by
      intro other later state hother hlt hlater hstate
      exact ih hother hlater hstate
        (Nat.lt_of_lt_of_le (rulesFrom_lt hother hlt hlater) (Nat.le_of_lt_succ hfuel))
    rw [CallsAlike, run, Reader.call, enter_readerAt, peek_readerAt grammar hposition]
    cases hentry : start.enter (.ofLevels levels) position
        ((context grammar tokens).peek ((Token.beforeEnding tokens).drop position)) with
    | answered outcome ended => rfl
    | started entered =>
      have hentered := hmemo.enter hentry
      have hlength := le_rulesFrom grammar tokens levels position
      have hroom : (Token.beforeEnding tokens).length ≤ position + fuel := by omega
      obtain ⟨place, hread, hplace⟩ := mirrors_body hbehind hlevels hroom hposition hentered (by
          rintro level tighter rfl state hstate
          have htighter : tighter <:+ grammar.loosestFirst :=
            (List.suffix_cons level tighter).trans hlevels
          exact ih htighter hposition hstate (Nat.lt_of_succ_lt_succ hfuel))
      simp only [hread]
      exact congrArg some (Prod.ext rfl (leave_readerAt hplace))

end Parse

end Formula
