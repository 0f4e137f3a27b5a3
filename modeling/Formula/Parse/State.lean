import Formula.Parse.Memo

/-!
# The state of a parse

While rules run, the parser keeps a memo, an arena, the failures it met with the
one furthest to the right, the number of rules that are active, and the failure
that the nesting limit caused, after which no rule starts any more.
-/

namespace Formula

/-- How many rules may be active at once. -/
def nestingLimit : Nat := 400

/-- A failure with the index of the token at which it was noted. -/
abbrev Failure := Nat × ParseError

/-- Of a kept failure and the next one the further to the right; of two at one
index the kept one. -/
def keepFurther (kept : Option Failure) (next : Failure) : Option Failure :=
  match kept with
  | none => some next
  | some furthest => if furthest.1 < next.1 then some next else some furthest

/-- The failures noted so far, newest first, and the furthest of them. -/
structure FailureLog where
  noted : List Failure := []
  furthest : Option Failure := none
  furthest_eq : furthest = noted.foldr (fun next kept => keepFurther kept next) none := by rfl

/-- The log after one more failure. -/
def FailureLog.note (log : FailureLog) (failure : Failure) : FailureLog where
  noted := failure :: log.noted
  furthest := keepFurther log.furthest failure
  furthest_eq := by rw [log.furthest_eq, List.foldr_cons]

/-- What a parser keeps while rules run. -/
structure ParseState where
  memo : Memo := {}
  arena : Arena := {}
  failures : FailureLog := {}
  /-- How many rules are active. -/
  depth : Nat := 0
  /-- The failure that the nesting limit caused. -/
  tooDeep : Option ParseError := none

namespace ParseState

/-- The failure with the greatest token index; of failures at one index the first. -/
def furthest (state : ParseState) : Option Failure := state.failures.furthest

/-- Notes a failure at a token index. -/
def noteFailure (state : ParseState) (index : Nat) (error : ParseError) : ParseState :=
  { state with failures := state.failures.note (index, error) }

/-- Fails at a token for want of something else. -/
def fail (state : ParseState) (what : Expectation) (index : Nat) (found : Token) :
    Outcome × ParseState :=
  let error : ParseError := ⟨.expected what, found⟩
  (.error error, state.noteFailure index error)

/-- Succeeds with a new node. -/
def succeed (state : ParseState) (node : Node) (finish : Nat) : Outcome × ParseState :=
  (.ok ⟨state.arena.size, finish⟩, { state with arena := state.arena.add node })

/-- What happens when a rule is called: it is answered at once, or it starts. -/
inductive Entry where
  | answered (outcome : Outcome) (state : ParseState)
  | started (state : ParseState)

/-- Calls a rule at a token. Once the nesting limit was reached every rule
fails; a known outcome is given again; and a rule that would exceed the limit
fails for all that follow. -/
def enter (state : ParseState) (rule : Rule) (position : Nat) (next : Token) : Entry :=
  match state.tooDeep with
  | some error => .answered (.error error) state
  | none =>
    match state.memo.outcome? rule position with
    | some outcome =>
      .answered outcome { state with memo := state.memo.noteHit rule position }
    | none =>
      let state := { state with memo := state.memo.noteMiss rule position }
      if state.depth < nestingLimit then .started { state with depth := state.depth + 1 }
      else
        let error : ParseError := ⟨.tooDeep, next⟩
        .answered (.error error) { state with tooDeep := some error }

/-- Ends a rule that was started, and keeps its outcome. -/
def leave (state : ParseState) (rule : Rule) (position : Nat) (outcome : Outcome) :
    ParseState :=
  { state with
    depth := state.depth - 1
    memo := state.memo.insert rule position outcome }

end ParseState

end Formula
