import Formula.Proofs.Parse.Range

/-!
# The calls of a run

The body of a rule calls rules, one after the other, and each call may start a rule whose body
calls again. Between the calls of a body the parser makes nodes and notes failures, and leaves
alone the memo, how many rules are active and whether the nesting limit was reached. So a run ends
with the failure for the limit exactly if one of the calls within it reached the limit.
-/

namespace Formula

namespace Parse

/-- The call of the rule of the first level at a token, in a state of the parse. -/
structure Call where
  levels : List Level
  position : Nat
  tokens : List Token
  state : ParseState

namespace Call

/-- The outcome of a call, and the state that it leaves. -/
def result (context : ParseContext) (call : Call) : Outcome × ParseState :=
  run context call.levels call.position call.tokens call.state

/-- The nesting limit is reached within a call. -/
def Stops (context : ParseContext) (call : Call) : Prop :=
  call.state.tooDeep = none ∧ ∃ error, (call.result context).2.tooDeep = some error

/-- A call, and those that are made behind it once its outcome is there. -/
def andThen (context : ParseContext) (call : Call) (goOn : Match → ParseState → List Call)
    (instead : ParseState → List Call) : List Call :=
  call :: match call.result context with
    | (.error _, state) => instead state
    | (.ok found, state) => goOn found state

end Call

/-- The calls for the right operands of infix operators that are applied from left to right. -/
def leftCalls (context : ParseContext) (operators : OperatorSet) (tighter : List Level)
    (left : NodeId) (position : Nat) (tokens : List Token) (state : ParseState) : List Call :=
  match tokens with
  | [] => []
  | token :: behind =>
    if operators.contains token then
      Call.andThen context ⟨tighter, position + 1, behind, state⟩
        (fun right state =>
          match token.operator?.bind Operator.asBinary? with
          | none => []
          | some op =>
            leftCalls context operators tighter state.arena.size right.finish
              (tokensFrom behind (position + 1) right.finish)
              { state with arena := state.arena.add (.binary op left right.node) })
        fun _ => []
    else []
termination_by tokens.length
decreasing_by
  simp only [length_tokensFrom, List.length_cons]
  omega

/-- The call for the right operand of an infix operator, if there is one. -/
def rightCalls (level : Level) (tighter : List Level) (position : Nat) (tokens : List Token)
    (state : ParseState) : List Call :=
  match tokens with
  | [] => []
  | token :: behind =>
    if level.operators.contains token then [⟨level :: tighter, position + 1, behind, state⟩]
    else []

/-- The call for the operand of a prefix operator and, without an operator or behind an operator
that has none, the one for an operand of the tighter levels. -/
def prefixedCalls (context : ParseContext) (level : Level) (tighter : List Level)
    (position : Nat) (tokens : List Token) (state : ParseState) : List Call :=
  match tokens with
  | [] => [⟨tighter, position, [], state⟩]
  | token :: behind =>
    if level.operators.contains token then
      Call.andThen context ⟨level :: tighter, position + 1, behind, state⟩ (fun _ _ => [])
        fun state => [⟨tighter, position, token :: behind, state⟩]
    else [⟨tighter, position, token :: behind, state⟩]

/-- The call for a formula in parentheses. -/
def primaryCalls (context : ParseContext) (position : Nat) (tokens : List Token)
    (state : ParseState) : List Call :=
  match tokens with
  | [] => []
  | token :: behind =>
    if token.kind = .leftParen then [⟨context.levels, position + 1, behind, state⟩] else []

/-- The calls that the body of a rule makes, in order. -/
def bodyCalls (context : ParseContext) (levels : List Level) (position : Nat)
    (tokens : List Token) (state : ParseState) : List Call :=
  match levels with
  | [] => primaryCalls context position tokens state
  | level :: tighter =>
    let operand : Call := ⟨tighter, position, tokens, state⟩
    match level.fixity with
    | .prefixOp => prefixedCalls context level tighter position tokens state
    | .postfixOp => [operand]
    | .infixOp .left =>
      operand.andThen context
        (fun left state => leftCalls context level.operators tighter left.node left.finish
          (tokensFrom tokens position left.finish) state)
        fun _ => []
    | .infixOp .right =>
      operand.andThen context
        (fun left state => rightCalls level tighter left.finish
          (tokensFrom tokens position left.finish) state)
        fun _ => []

/-- From a state to another one the parser makes calls and in between leaves alone the memo, how
many rules are active and whether the limit was reached. -/
inductive Threads (context : ParseContext) : ParseState → List Call → ParseState → Prop
  | nil {start finish : ParseState} (htooDeep : finish.tooDeep = start.tooDeep)
    (hdepth : finish.depth = start.depth) (hmemo : finish.memo = start.memo) :
    Threads context start [] finish
  | cons {start finish : ParseState} {call : Call} {calls : List Call}
    (htooDeep : call.state.tooDeep = start.tooDeep) (hdepth : call.state.depth = start.depth)
    (hmemo : call.state.memo = start.memo)
    (rest : Threads context (call.result context).2 calls finish) :
    Threads context start (call :: calls) finish

variable {context : ParseContext} {levels tighter : List Level} {level : Level}
  {tokens : List Token} {position : Nat} {start finish state : ParseState} {call : Call}
  {calls : List Call} {id : NodeId} {error : ParseError}

/-- From a state to itself there are no calls. -/
theorem Threads.refl (start : ParseState) : Threads context start [] start := .nil rfl rfl rfl

/-- New nodes are of no account. -/
theorem Threads.of_add {node : Node}
    (h : Threads context { start with arena := start.arena.add node } calls finish) :
    Threads context start calls finish := by
  cases h with
  | nil htooDeep hdepth hmemo => exact .nil htooDeep hdepth hmemo
  | cons htooDeep hdepth hmemo rest => exact .cons htooDeep hdepth hmemo rest

/-- What is done behind a call. -/
theorem threads_andThen (call : Call) {goOn : Match → ParseState → List Call}
    {instead : ParseState → List Call} {next : Match → ParseState → Outcome × ParseState}
    {otherwise : ParseError → ParseState → Outcome × ParseState}
    (hnext : ∀ found state, Threads context state (goOn found state) (next found state).2)
    (hotherwise : ∀ error state,
      Threads context state (instead state) (otherwise error state).2) :
    Threads context call.state (call.andThen context goOn instead)
      (match call.result context with
        | (.error error, state) => otherwise error state
        | (.ok found, state) => next found state).2 := by
  rw [Call.andThen]
  refine .cons rfl rfl rfl ?_
  cases call.result context with
  | mk outcome state =>
    cases outcome with
    | error error => exact hotherwise error state
    | ok found => exact hnext found state

/-- What is done behind a call without another one. -/
theorem threads_call (call : Call) {next : Match → ParseState → Outcome × ParseState}
    {otherwise : ParseError → ParseState → Outcome × ParseState}
    (hnext : ∀ found state, Threads context state [] (next found state).2)
    (hotherwise : ∀ error state, Threads context state [] (otherwise error state).2) :
    Threads context call.state [call]
      (match call.result context with
        | (.error error, state) => otherwise error state
        | (.ok found, state) => next found state).2 := by
  refine .cons rfl rfl rfl ?_
  obtain ⟨outcome, state⟩ := call.result context
  cases outcome with
  | error error => exact hotherwise error state
  | ok found => exact hnext found state

/-- Postfix operators are applied without calls. -/
theorem threads_postfixChain (operators : OperatorSet) :
    Threads context start [] (postfixChain context operators id position tokens start).2 := by
  induction tokens generalizing id position start with
  | nil => exact .refl start
  | cons token behind ih =>
    rw [postfixChain]
    split
    · split
      · exact .nil rfl rfl rfl
      · exact .of_add ih
    · exact .refl start

/-- A level that groups to the left calls tighter rules for its right operands. -/
theorem threads_leftChain (operators : OperatorSet) :
    Threads context start (leftCalls context operators tighter id position tokens start)
      (leftChain context operators tighter id position tokens start).2 := by
  induction hn : tokens.length using Nat.strongRecOn generalizing id position tokens start with
  | ind n ih =>
    cases tokens with
    | nil =>
      rw [leftCalls, leftChain]
      exact .refl start
    | cons token behind =>
      rw [leftCalls, leftChain]
      split
      · refine threads_andThen ⟨tighter, position + 1, behind, start⟩
          (fun right state => ?_) fun error state => .refl state
        cases token.operator?.bind Operator.asBinary? with
        | none => exact .nil rfl rfl rfl
        | some op =>
          refine .of_add (ih _ ?_ rfl)
          rw [← hn, length_tokensFrom, List.length_cons]
          omega
      · exact .refl start

/-- A level that groups to the right calls itself for its right operand. -/
theorem threads_rightOperand :
    Threads context start (rightCalls level tighter position tokens start)
      (rightOperand context level tighter id position tokens start).2 := by
  cases tokens with
  | nil =>
    rw [rightCalls, rightOperand]
    exact .refl start
  | cons token behind =>
    rw [rightCalls, rightOperand]
    split
    · refine threads_call ⟨level :: tighter, position + 1, behind, start⟩
        (fun right state => ?_) fun error state => .refl state
      split <;> exact .nil rfl rfl rfl
    · exact .refl start

/-- A prefix level calls itself behind an operator, and tighter rules otherwise. -/
theorem threads_prefixed :
    Threads context start (prefixedCalls context level tighter position tokens start)
      (prefixed context level tighter position tokens start).2 := by
  cases tokens with
  | nil =>
    rw [prefixedCalls, prefixed]
    exact .cons rfl rfl rfl (.refl _)
  | cons token behind =>
    rw [prefixedCalls, prefixed]
    split
    · refine threads_andThen ⟨level :: tighter, position + 1, behind, start⟩
        (fun operand state => ?_) fun error state => .cons rfl rfl rfl (.refl _)
      split <;> exact .nil rfl rfl rfl
    · exact .cons rfl rfl rfl (.refl _)

/-- A primary calls the loosest rule behind an opening parenthesis. -/
theorem threads_primary :
    Threads context start (primaryCalls context position tokens start)
      (primary context position tokens start).2 := by
  cases tokens with
  | nil =>
    rw [primaryCalls, primary]
    exact .nil rfl rfl rfl
  | cons token behind =>
    rw [primaryCalls, primary]
    cases token.kind with
    | leftParen =>
      refine threads_call ⟨context.levels, position + 1, behind, start⟩
        (fun inner state => ?_) fun error state => .refl state
      simp only
      split <;> exact .nil rfl rfl rfl
    | integer | real =>
      cases token.literal? <;> exact .nil rfl rfl rfl
    | letter =>
      simp only [reduceCtorEq, if_false]
      split <;> exact .nil rfl rfl rfl
    | _ => exact .nil rfl rfl rfl

/-- The body of a rule makes its calls. -/
theorem threads_expand :
    Threads context start (bodyCalls context levels position tokens start)
      (expand context levels position tokens start).2 := by
  cases levels with
  | nil =>
    rw [bodyCalls, expand]
    exact threads_primary
  | cons level tighter =>
    rw [bodyCalls, expand]
    cases level.fixity with
    | prefixOp => exact threads_prefixed
    | postfixOp =>
      exact threads_call ⟨tighter, position, tokens, start⟩
        (fun operand state => threads_postfixChain _) fun error state => .refl state
    | infixOp associativity =>
      cases associativity with
      | left =>
        exact threads_andThen ⟨tighter, position, tokens, start⟩
          (fun left state => threads_leftChain _) fun error state => .refl state
      | right =>
        exact threads_andThen ⟨tighter, position, tokens, start⟩
          (fun left state => threads_rightOperand) fun error state => .refl state

namespace Threads

/-- Once the limit was reached nothing changes that. -/
theorem stopped (h : Threads context start calls finish) (hstop : start.tooDeep = some error) :
    (∀ call ∈ calls, call.state.tooDeep = some error) ∧ finish.tooDeep = some error := by
  induction h with
  | nil htooDeep => exact ⟨List.forall_mem_nil _, htooDeep.trans hstop⟩
  | @cons start finish call calls htooDeep _ _ rest ih =>
    have hcall : call.state.tooDeep = some error := htooDeep.trans hstop
    have hresult : (call.result context).2.tooDeep = some error := by
      rw [Call.result, run_of_tooDeep hcall]
      exact hcall
    exact ⟨List.forall_mem_cons.mpr ⟨hcall, (ih hresult).1⟩, (ih hresult).2⟩

/-- Behind a call that reached the limit no call is made in a state in which it was not. -/
theorem pairwise (h : Threads context start calls finish) :
    calls.Pairwise fun earlier later => ∀ error,
      (earlier.result context).2.tooDeep = some error → later.state.tooDeep = some error := by
  induction h with
  | nil => exact .nil
  | cons _ _ _ rest ih =>
    exact .cons (fun later hmem error hstop => (rest.stopped hstop).1 later hmem) ih

/-- One of the calls at most reaches the limit. -/
theorem eq_of_stops (h : Threads context start calls finish) {first second : Call}
    (hfirst : first ∈ calls) (hsecond : second ∈ calls) (hstops : first.Stops context)
    (hother : second.Stops context) : first = second := by
  have hapart : calls.Pairwise fun a b => ¬ (a.Stops context ∧ b.Stops context) := by
    refine h.pairwise.imp ?_
    rintro a b hstopped ⟨⟨-, error, herror⟩, hrunning, -⟩
    rw [hstopped error herror] at hrunning
    cases hrunning
  have : Std.Symm fun a b : Call => ¬ (a.Stops context ∧ b.Stops context) :=
    ⟨fun _ _ hnot hboth => hnot hboth.symm⟩
  by_contra hne
  exact hapart.forall hfirst hsecond hne ⟨hstops, hother⟩

/-- The limit is reached exactly if one of the calls reaches it. -/
theorem tooDeep_iff (h : Threads context start calls finish) (hnone : start.tooDeep = none) :
    finish.tooDeep = some error ↔
      ∃ call ∈ calls, call.state.tooDeep = none ∧
        (call.result context).2.tooDeep = some error := by
  induction h with
  | nil htooDeep => simp [htooDeep, hnone]
  | @cons start finish call calls htooDeep _ _ rest ih =>
    rw [List.exists_mem_cons_iff, htooDeep]
    cases hresult : (call.result context).2.tooDeep with
    | none => simp [ih hresult]
    | some reached =>
      obtain ⟨hcalls, hfinish⟩ := rest.stopped hresult
      have hrest : ¬ ∃ other ∈ calls, other.state.tooDeep = none ∧
          (other.result context).2.tooDeep = some error := by
        rintro ⟨other, hmem, hother, -⟩
        rw [hcalls other hmem] at hother
        cases hother
      simp [hfinish, hnone, hrest]

/-- If every call leaves as many rules active as there were, so do all together. -/
theorem depth_eq (h : Threads context start calls finish)
    (hcalls : ∀ call ∈ calls, (call.result context).2.depth = call.state.depth) :
    finish.depth = start.depth ∧ ∀ call ∈ calls, call.state.depth = start.depth := by
  induction h with
  | nil _ hdepth _ => exact ⟨hdepth, List.forall_mem_nil _⟩
  | @cons start finish call calls _ hdepth _ rest ih =>
    obtain ⟨hcall, hothers⟩ := List.forall_mem_cons.mp hcalls
    obtain ⟨hfinish, hstates⟩ := ih hothers
    have hresult : (call.result context).2.depth = start.depth := hcall.trans hdepth
    exact ⟨hfinish.trans hresult, List.forall_mem_cons.mpr
      ⟨hdepth, fun other hmem => (hstates other hmem).trans hresult⟩⟩

/-- What every call leaves true of the memo is true of it at each of them. -/
theorem memo_of_call (h : Threads context start calls finish) (holds : Memo → Prop)
    (hstart : holds start.memo)
    (hcalls : ∀ call ∈ calls, holds call.state.memo → holds (call.result context).2.memo) :
    ∀ call ∈ calls, holds call.state.memo := by
  induction h with
  | nil => exact List.forall_mem_nil _
  | cons _ _ hmemo _ ih =>
    obtain ⟨hcall, hothers⟩ := List.forall_mem_cons.mp hcalls
    have hfirst := hmemo ▸ hstart
    exact List.forall_mem_cons.mpr ⟨hfirst, ih (hcall hfirst) hothers⟩

end Threads

namespace Call

/-- A call starts a rule if the limit was not reached before and the outcome is not known. -/
structure Starts (call : Call) : Prop where
  running : call.state.tooDeep = none
  unknown : call.state.memo.outcome? (.ofLevels call.levels) call.position = none

/-- The state in which the body of the rule begins. -/
def entered (call : Call) : ParseState :=
  { call.state with
    memo := call.state.memo.noteMiss (.ofLevels call.levels) call.position
    depth := call.state.depth + 1 }

/-- The calls that the body of the rule makes. -/
def inner (context : ParseContext) (call : Call) : List Call :=
  bodyCalls context call.levels call.position call.tokens call.entered

/-- A call that starts no rule leaves the limit and the number of active rules alone. -/
theorem result_of_answered (h : ¬ call.Starts) :
    (call.result context).2.tooDeep = call.state.tooDeep ∧
      (call.result context).2.depth = call.state.depth := by
  rw [result, run]
  cases htooDeep : call.state.tooDeep with
  | some error =>
    rw [ParseState.enter_of_tooDeep htooDeep]
    exact ⟨htooDeep, rfl⟩
  | none =>
    cases hknown : call.state.memo.outcome? (.ofLevels call.levels) call.position with
    | none => exact absurd ⟨htooDeep, hknown⟩ h
    | some outcome =>
      rw [ParseState.enter_known htooDeep hknown]
      exact ⟨htooDeep, rfl⟩

/-- A call that would start one rule too many reaches the limit. -/
theorem result_of_limited (h : call.Starts) (hdepth : ¬ call.state.depth < nestingLimit) :
    (call.result context).2.tooDeep = some ⟨.tooDeep, context.peek call.tokens⟩ ∧
      (call.result context).2.depth = call.state.depth := by
  rw [result, run, ParseState.enter_limited h.running h.unknown hdepth]
  exact ⟨rfl, rfl⟩

/-- A call that starts a rule does what the calls of the body do. -/
theorem exists_threads (context : ParseContext) (h : call.Starts)
    (hdepth : call.state.depth < nestingLimit) :
    ∃ finish, Threads context call.entered (call.inner context) finish ∧
      (call.result context).2.tooDeep = finish.tooDeep ∧
      (call.result context).2.depth = finish.depth - 1 := by
  refine ⟨(expand context call.levels call.position call.tokens call.entered).2, threads_expand, ?_⟩
  rw [result, run, ParseState.enter_started h.running h.unknown hdepth]
  exact ⟨rfl, rfl⟩

end Call

end Parse

end Formula
