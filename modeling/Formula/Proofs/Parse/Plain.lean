import Formula.Parse.Transcript

/-!
# The rules without a memo

The plain parser has the same rules and remembers nothing. Every call evaluates
its rule again, no call is refused for nesting, and trees stand where the parser
with a memo has node numbers. A reading tells besides its outcome which failures
are noted on the way and how many rules are active at once.
-/

namespace Formula

/-- The tokens behind the first ones are those from the index on where these end. -/
@[simp] theorem tokensFrom_append (before behind : List Token) (position : Nat) :
    tokensFrom (before ++ behind) position (position + before.length) = behind := by
  simp [tokensFrom]

namespace Parse

/-- What a rule reads at a token. -/
structure Reading where
  /-- The tree with the index of the token behind it, or why there is none. -/
  outcome : Except ParseError (Expr × Nat)
  /-- The failures noted on the way, in order. -/
  failures : List Failure := []
  /-- How many rules are active at once at most. -/
  height : Nat := 0

namespace Reading

/-- A tree that is there already. -/
def found (e : Expr) (finish : Nat) : Reading := { outcome := .ok (e, finish) }

/-- A failure at a token for want of something else. -/
def fail (what : Expectation) (index : Nat) (token : Token) : Reading :=
  let error : ParseError := ⟨.expected what, token⟩
  { outcome := .error error, failures := [(index, error)] }

/-- A reading and what is read after it. -/
def before (first second : Reading) : Reading :=
  ⟨second.outcome, first.failures ++ second.failures, max first.height second.height⟩

/-- Goes on behind the tree that was read. -/
def andThen (first : Reading) (next : Expr → Nat → Reading) : Reading :=
  match first.outcome with
  | .error _ => first
  | .ok (e, finish) => first.before (next e finish)

/-- Goes on behind the tree that was read, or in another way if there is none. -/
def orElse (first : Reading) (next : Expr → Nat → Reading) (other : Reading) : Reading :=
  match first.outcome with
  | .error _ => first.before other
  | .ok (e, finish) => first.before (next e finish)

/-- The reading of a rule whose body read this. -/
def enclosed (body : Reading) : Reading := { body with height := body.height + 1 }

/-- The furthest failure noted, if any is further than the one kept before. -/
def furthest (reading : Reading) (kept : Option Failure) : Option Failure :=
  reading.failures.foldl keepFurther kept

variable {first second third : Reading} {next : Expr → Nat → Reading} {e : Expr} {finish : Nat}

/-- Of three readings any two may be taken together. -/
theorem before_assoc : (first.before second).before third = first.before (second.before third) := by
  simp [before, Nat.max_assoc]

/-- Nothing happens behind a tree that was read. -/
theorem before_found (h : first.outcome = .ok (e, finish)) :
    first.before (.found e finish) = first := by
  simp [before, found, ← h]

/-- Behind a tree the reading goes on. -/
theorem andThen_of_ok (h : first.outcome = .ok (e, finish)) :
    first.andThen next = first.before (next e finish) := by
  simp [andThen, h]

/-- A failure is passed on. -/
theorem andThen_of_error {error : ParseError} (h : first.outcome = .error error) :
    first.andThen next = first := by
  simp [andThen, h]

/-- Behind a tree the reading goes on and does not try the other way. -/
theorem orElse_of_ok (h : first.outcome = .ok (e, finish)) :
    first.orElse next second = first.before (next e finish) := by
  simp [orElse, h]

/-- Without a tree the reading goes on in the other way. -/
theorem orElse_of_error {error : ParseError} (h : first.outcome = .error error) :
    first.orElse next second = first.before second := by
  simp [orElse, h]

/-- To pass a failure on is to go on in a way that ends at once. -/
theorem andThen_eq_orElse (first : Reading) (next : Expr → Nat → Reading) :
    first.andThen next = first.orElse next { outcome := first.outcome } := by
  unfold andThen orElse
  split <;> simp [before]

end Reading

namespace Plain

/-- Applies postfix operators to an operand as long as there are any. -/
def postfixChain (context : ParseContext) (operators : OperatorSet) (operand : Expr)
    (position : Nat) (tokens : List Token) : Reading :=
  match tokens with
  | [] => .found operand position
  | token :: behind =>
    if operators.contains token then
      match token.operator?.bind Operator.asPostfix? with
      | none => .fail .postfixOperator (position + 1) (context.peek behind)
      | some op => postfixChain context operators (.postfixed operand op) (position + 1) behind
    else .found operand position

/-- How many steps are left at most: so many at the next token, and behind it four for each level
and four more at every token. It is a single number, so that closed readings can be evaluated. -/
def stepsLeft (context : ParseContext) (levels : List Level) (tokens : List Token) (steps : Nat) :
    Nat :=
  tokens.length * (4 * max context.levels.length levels.length + 4) + steps

/-- Fewer steps are left behind a token, and after a step at the same token. -/
theorem stepsLeft_lt {context : ParseContext} {levels inner : List Level}
    {tokens behind : List Token} {steps left : Nat}
    (hlevels : inner.length ≤ max context.levels.length levels.length)
    (h : behind.length < tokens.length ∧ left < 4 * max context.levels.length inner.length + 4 ∨
      behind.length ≤ tokens.length ∧ left < steps) :
    stepsLeft context inner behind left < stepsLeft context levels tokens steps := by
  have hwidth : 4 * max context.levels.length inner.length + 4 ≤
      4 * max context.levels.length levels.length + 4 := by omega
  unfold stepsLeft
  rcases h with ⟨htokens, hleft⟩ | ⟨htokens, hleft⟩
  · have hmul := Nat.mul_le_mul (Nat.succ_le_of_lt htokens) hwidth
    rw [Nat.succ_mul] at hmul
    omega
  · have hmul := Nat.mul_le_mul htokens hwidth
    omega

mutual

/-- Reads by the rule of the first level. -/
def read (context : ParseContext) (levels : List Level) (position : Nat) (tokens : List Token) :
    Reading :=
  (readBody context levels position tokens).enclosed
termination_by stepsLeft context levels tokens (4 * levels.length + 2)
decreasing_by
  all_goals apply stepsLeft_lt <;> grind [length_tokensFrom]

/-- Reads by the body of a rule. -/
def readBody (context : ParseContext) (levels : List Level) (position : Nat)
    (tokens : List Token) : Reading :=
  match levels with
  | [] => primary context position tokens
  | level :: tighter =>
    match level.fixity with
    | .prefixOp => prefixed context level tighter position tokens
    | .postfixOp =>
      (read context tighter position tokens).andThen fun operand finish =>
        postfixChain context level.operators operand finish (tokensFrom tokens position finish)
    | .infixOp .left =>
      (read context tighter position tokens).andThen fun left finish =>
        leftChain context level.operators tighter left finish (tokensFrom tokens position finish)
    | .infixOp .right =>
      (read context tighter position tokens).andThen fun left finish =>
        rightOperand context level tighter left finish (tokensFrom tokens position finish)
termination_by stepsLeft context levels tokens (4 * levels.length + 1)
decreasing_by
  all_goals apply stepsLeft_lt <;> grind [length_tokensFrom]

/-- An operator and an operand of the same level, or else an operand. -/
def prefixed (context : ParseContext) (level : Level) (tighter : List Level) (position : Nat)
    (tokens : List Token) : Reading :=
  match tokens with
  | [] => read context tighter position []
  | token :: behind =>
    if level.operators.contains token then
      (read context (level :: tighter) (position + 1) behind).orElse
        (fun operand finish =>
          match level.operators.prefixOp? token with
          | some op => .found (.prefixed op operand) finish
          | none =>
            .fail .prefixOperator finish
              (context.peek (tokensFrom behind (position + 1) finish)))
        (read context tighter position (token :: behind))
    else read context tighter position (token :: behind)
termination_by stepsLeft context (level :: tighter) tokens (4 * tighter.length + 3)
decreasing_by
  all_goals apply stepsLeft_lt <;> grind [length_tokensFrom]

/-- Applies infix operators to a left operand, with an operand of the next level
on the right, as long as there are any. -/
def leftChain (context : ParseContext) (operators : OperatorSet) (tighter : List Level)
    (left : Expr) (position : Nat) (tokens : List Token) : Reading :=
  match tokens with
  | [] => .found left position
  | token :: behind =>
    if operators.contains token then
      (read context tighter (position + 1) behind).orElse
        (fun right finish =>
          match token.operator?.bind Operator.asBinary? with
          | none =>
            .fail .binaryOperator finish
              (context.peek (tokensFrom behind (position + 1) finish))
          | some op =>
            leftChain context operators tighter (.binary op left right) finish
              (tokensFrom behind (position + 1) finish))
        (.found left position)
    else .found left position
termination_by stepsLeft context tighter tokens (4 * tighter.length)
decreasing_by
  all_goals apply stepsLeft_lt <;> grind [length_tokensFrom]

/-- Applies an infix operator to a left operand, with an operand of the same
level on the right, if there is one. -/
def rightOperand (context : ParseContext) (level : Level) (tighter : List Level)
    (left : Expr) (position : Nat) (tokens : List Token) : Reading :=
  match tokens with
  | [] => .found left position
  | token :: behind =>
    if level.operators.contains token then
      (read context (level :: tighter) (position + 1) behind).orElse
        (fun right finish =>
          match token.operator?.bind Operator.asBinary? with
          | none =>
            .fail .binaryOperator finish
              (context.peek (tokensFrom behind (position + 1) finish))
          | some op => .found (.binary op left right) finish)
        (.found left position)
    else .found left position
termination_by stepsLeft context (level :: tighter) tokens (4 * tighter.length)
decreasing_by
  all_goals apply stepsLeft_lt <;> grind [length_tokensFrom]

/-- A number, a variable, or a formula in parentheses. -/
def primary (context : ParseContext) (position : Nat) (tokens : List Token) : Reading :=
  match tokens with
  | [] => .fail .operand position context.ending
  | token :: behind =>
    match token.kind with
    | .leftParen =>
      (read context context.levels (position + 1) behind).andThen fun inner finish =>
        let next := context.peek (tokensFrom behind (position + 1) finish)
        if next.kind = .rightParen then .found inner (finish + 1)
        else .fail (.closingParen token.location.column) finish next
    | .integer | .real =>
      match token.literal? with
      | some value => .found (.literal value) (position + 1)
      | none => .fail .number position token
    | .letter =>
      match token.text.toList with
      | name :: _ => .found (.var name) (position + 1)
      | [] => .fail .operand position token
    | _ => .fail .operand position token
termination_by stepsLeft context [] tokens 0
decreasing_by
  all_goals apply stepsLeft_lt <;> grind [length_tokensFrom]

end

/-- Notes a failure if tokens are left behind the tree. -/
def checkEnding (tokens : List Token) (reading : Reading) : Reading :=
  reading.andThen fun e finish =>
    match tokensFrom tokens 0 finish with
    | [] => .found e finish
    | next :: _ => .fail .operatorOrEnding finish next

/-- The loosest rule read at the first token. It has to use up the tokens. -/
def readAll (grammar : Grammar) (tokens : List Token) : Reading :=
  checkEnding (Token.beforeEnding tokens)
    (read (context grammar tokens) grammar.loosestFirst 0 (Token.beforeEnding tokens))

/-- The tree of a token list under a grammar, or else the furthest failure. -/
def parseTokens (grammar : Grammar) (tokens : List Token) : Except ParseError Expr :=
  let reading := readAll grammar tokens
  match reading.outcome with
  | .error error => .error (((reading.furthest none).map Prod.snd).getD error)
  | .ok (e, _) => .ok e

end Plain

end Parse

end Formula
