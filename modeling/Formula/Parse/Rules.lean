import Formula.Parse.State

/-!
# The rules of the parser

Each level of a grammar is a rule that takes its operands from the next tighter
level; below the tightest level stand numbers, variables and parentheses. A rule
starts at a token index, reads the tokens from there on, and ends with a node and
the index behind it or with a failure. An operator that is not followed by an
operand is not consumed.

Levels are given from the rule's own to the tightest, so that a list of levels
is a rule and its tail the rule for operands.
-/

namespace Formula

/-- What the rules read besides their own tokens. -/
structure ParseContext where
  /-- All levels of the grammar, loosest first. -/
  levels : List Level
  /-- The token that ends the input. -/
  ending : Token

namespace ParseContext

/-- The next token; behind the last one it is the end of the input. -/
def peek (context : ParseContext) (tokens : List Token) : Token :=
  tokens.headD context.ending

end ParseContext

/-- What an operator token of a prefix level stands for. -/
def OperatorSet.prefixOp? (operators : OperatorSet) (token : Token) : Option PrefixOp :=
  match operators with
  | .names => some (.apply token.text)
  | .symbols _ => token.operator?.bind Operator.asPrefix?

/-- The tokens from an index on, given those from an earlier index on. -/
def tokensFrom (tokens : List Token) (position finish : Nat) : List Token :=
  tokens.drop (finish - position)

/-- Fewer tokens are left from a later index on. -/
@[simp] theorem length_tokensFrom (tokens : List Token) (position finish : Nat) :
    (tokensFrom tokens position finish).length = tokens.length - (finish - position) := by
  simp [tokensFrom]

namespace Parse

/-- Applies postfix operators to an operand as long as there are any. -/
def postfixChain (context : ParseContext) (operators : OperatorSet) (operand : NodeId)
    (position : Nat) (tokens : List Token) (state : ParseState) : Outcome × ParseState :=
  match tokens with
  | [] => (.ok ⟨operand, position⟩, state)
  | token :: behind =>
    if operators.contains token then
      match token.operator?.bind Operator.asPostfix? with
      | none => state.fail .postfixOperator (position + 1) (context.peek behind)
      | some op =>
        postfixChain context operators state.arena.size (position + 1) behind
          { state with arena := state.arena.add (.postfixed operand op) }
    else (.ok ⟨operand, position⟩, state)

mutual

/-- Runs the rule of the first level at a token, or repeats what it did there
before. -/
def run (context : ParseContext) (levels : List Level) (position : Nat) (tokens : List Token)
    (state : ParseState) : Outcome × ParseState :=
  match state.enter (.ofLevels levels) position (context.peek tokens) with
  | .answered outcome state => (outcome, state)
  | .started state =>
    match expand context levels position tokens state with
    | (outcome, state) => (outcome, state.leave (.ofLevels levels) position outcome)
termination_by (tokens.length, levels.length, 2)

/-- Runs the body of a rule. -/
def expand (context : ParseContext) (levels : List Level) (position : Nat) (tokens : List Token)
    (state : ParseState) : Outcome × ParseState :=
  match levels with
  | [] => primary context position tokens state
  | level :: tighter =>
    match level.fixity with
    | .prefixOp => prefixed context level tighter position tokens state
    | .postfixOp =>
      match run context tighter position tokens state with
      | (.error error, state) => (.error error, state)
      | (.ok operand, state) =>
        postfixChain context level.operators operand.node operand.finish
          (tokensFrom tokens position operand.finish) state
    | .infixOp .left =>
      match run context tighter position tokens state with
      | (.error error, state) => (.error error, state)
      | (.ok left, state) =>
        leftChain context level.operators tighter left.node left.finish
          (tokensFrom tokens position left.finish) state
    | .infixOp .right =>
      match run context tighter position tokens state with
      | (.error error, state) => (.error error, state)
      | (.ok left, state) =>
        rightOperand context level tighter left.node left.finish
          (tokensFrom tokens position left.finish) state
termination_by (tokens.length, levels.length, 1)
decreasing_by all_goals (simp [Prod.lex_def]; try omega)

/-- An operator and an operand of the same level, or else an operand. -/
def prefixed (context : ParseContext) (level : Level) (tighter : List Level) (position : Nat)
    (tokens : List Token) (state : ParseState) : Outcome × ParseState :=
  match tokens with
  | [] => run context tighter position [] state
  | token :: behind =>
    if level.operators.contains token then
      match run context (level :: tighter) (position + 1) behind state with
      | (.error _, state) => run context tighter position (token :: behind) state
      | (.ok operand, state) =>
        match level.operators.prefixOp? token with
        | some op => state.succeed (.prefixed op operand.node) operand.finish
        | none =>
          state.fail .prefixOperator operand.finish
            (context.peek (tokensFrom behind (position + 1) operand.finish))
    else run context tighter position (token :: behind) state
termination_by (tokens.length, tighter.length, 3)

/-- Applies infix operators to a left operand, with an operand of the next level
on the right, as long as there are any. -/
def leftChain (context : ParseContext) (operators : OperatorSet) (tighter : List Level)
    (left : NodeId) (position : Nat) (tokens : List Token) (state : ParseState) :
    Outcome × ParseState :=
  match tokens with
  | [] => (.ok ⟨left, position⟩, state)
  | token :: behind =>
    if operators.contains token then
      match run context tighter (position + 1) behind state with
      | (.error _, state) => (.ok ⟨left, position⟩, state)
      | (.ok right, state) =>
        match token.operator?.bind Operator.asBinary? with
        | none =>
          state.fail .binaryOperator right.finish
            (context.peek (tokensFrom behind (position + 1) right.finish))
        | some op =>
          leftChain context operators tighter state.arena.size right.finish
            (tokensFrom behind (position + 1) right.finish)
            { state with arena := state.arena.add (.binary op left right.node) }
    else (.ok ⟨left, position⟩, state)
termination_by (tokens.length, tighter.length, 0)
decreasing_by all_goals (simp [Prod.lex_def]; try omega)

/-- Applies an infix operator to a left operand, with an operand of the same
level on the right, if there is one. -/
def rightOperand (context : ParseContext) (level : Level) (tighter : List Level)
    (left : NodeId) (position : Nat) (tokens : List Token) (state : ParseState) :
    Outcome × ParseState :=
  match tokens with
  | [] => (.ok ⟨left, position⟩, state)
  | token :: behind =>
    if level.operators.contains token then
      match run context (level :: tighter) (position + 1) behind state with
      | (.error _, state) => (.ok ⟨left, position⟩, state)
      | (.ok right, state) =>
        match token.operator?.bind Operator.asBinary? with
        | none =>
          state.fail .binaryOperator right.finish
            (context.peek (tokensFrom behind (position + 1) right.finish))
        | some op => state.succeed (.binary op left right.node) right.finish
    else (.ok ⟨left, position⟩, state)
termination_by (tokens.length, tighter.length, 0)

/-- A number, a variable, or a formula in parentheses. -/
def primary (context : ParseContext) (position : Nat) (tokens : List Token)
    (state : ParseState) : Outcome × ParseState :=
  match tokens with
  | [] => state.fail .operand position context.ending
  | token :: behind =>
    match token.kind with
    | .leftParen =>
      match run context context.levels (position + 1) behind state with
      | (.error error, state) => (.error error, state)
      | (.ok inner, state) =>
        let next := context.peek (tokensFrom behind (position + 1) inner.finish)
        if next.kind = .rightParen then (.ok ⟨inner.node, inner.finish + 1⟩, state)
        else state.fail (.closingParen token.location.column) inner.finish next
    | .integer | .real =>
      match token.literal? with
      | some value => state.succeed (.literal value) (position + 1)
      | none => state.fail .number position token
    | .letter =>
      match token.text.toList with
      | name :: _ => state.succeed (.var name) (position + 1)
      | [] => state.fail .operand position token
    | _ => state.fail .operand position token
termination_by (tokens.length, 0, 0)

end

end Parse

end Formula
