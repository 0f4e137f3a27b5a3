import Formula.Proofs.Parse.Soundness
import Formula.Proofs.Parse.Simulation

/-!
# Places are of no account

The parser reads the kinds and the texts of tokens only. Tokens that are put in other
places are parsed alike, look-up by look-up: what changes are the places of the tokens
that failures name, and the columns of parentheses that are not closed.
-/

namespace Formula

variable {places : Nat → Location}

/-- A token in another place, which the column of the former one decides on. -/
def Token.moved (places : Nat → Location) (token : Token) : Token :=
  { token with location := places token.location.column }

/-- What is missed once the tokens are in other places. -/
def Expectation.moved (places : Nat → Location) : Expectation → Expectation
  | .closingParen column => .closingParen (places column).column
  | what => what

/-- The failure once the tokens are in other places. -/
def ParseError.moved (places : Nat → Location) (error : ParseError) : ParseError where
  cause :=
    match error.cause with
    | .expected what => .expected (what.moved places)
    | .tooDeep => .tooDeep
  found := error.found.moved places

/-- The failure at its index once the tokens are in other places. -/
def Failure.moved (places : Nat → Location) (failure : Failure) : Failure :=
  (failure.1, failure.2.moved places)

/-- What a parse did, told of tokens in other places. -/
def Transcript.moved (places : Nat → Location) (transcript : Transcript) : Transcript :=
  { transcript with
    result := transcript.result.mapError (ParseError.moved places)
    failures := transcript.failures.map (Failure.moved places) }

namespace Token

/-- A token has the same kind in another place. -/
@[simp] theorem kind_moved (token : Token) : (token.moved places).kind = token.kind := rfl

/-- A token has the same text in another place. -/
@[simp] theorem text_moved (token : Token) : (token.moved places).text = token.text := rfl

/-- A token is the same operator in another place. -/
@[simp] theorem operator?_moved (token : Token) :
    (token.moved places).operator? = token.operator? := rfl

/-- A token has the same value in another place. -/
@[simp] theorem literal?_moved (token : Token) :
    (token.moved places).literal? = token.literal? := rfl

/-- An end of the input is one in another place. -/
@[simp] theorem isEnding_moved (token : Token) :
    (token.moved places).isEnding = token.isEnding := rfl

end Token

namespace OperatorSet

/-- A level has the same operators in other places. -/
@[simp] theorem contains_moved (operators : OperatorSet) (token : Token) :
    operators.contains (token.moved places) = operators.contains token := by
  cases operators <;> rfl

/-- A prefix operator has the same meaning in another place. -/
@[simp] theorem prefixOp?_moved (operators : OperatorSet) (token : Token) :
    operators.prefixOp? (token.moved places) = operators.prefixOp? token := by
  cases operators <;> rfl

end OperatorSet

/-- The furthest failure stays the furthest one. -/
theorem keepFurther_moved (kept : Option Failure) (next : Failure) :
    keepFurther (kept.map (Failure.moved places)) (next.moved places) =
      (keepFurther kept next).map (Failure.moved places) := by
  cases kept with
  | none => rfl
  | some furthest => by_cases hlt : furthest.1 < next.1 <;> simp [keepFurther, Failure.moved, hlt]

/-- The furthest failure is moved with all that were noted. -/
theorem FailureLog.furthest_moved {log other : FailureLog}
    (h : other.noted = log.noted.map (Failure.moved places)) :
    other.furthest = log.furthest.map (Failure.moved places) := by
  rw [other.furthest_eq, log.furthest_eq, h]
  induction log.noted with
  | nil => rfl
  | cons next noted ih =>
    rw [List.map_cons, List.foldr_cons, List.foldr_cons, ih, keepFurther_moved]

/-- What the rules read once the end of the input is in another place. -/
def ParseContext.moved (places : Nat → Location) (context : ParseContext) : ParseContext :=
  { context with ending := context.ending.moved places }

/-- The table does not depend on the places. -/
@[simp] theorem ParseContext.levels_moved (context : ParseContext) :
    (context.moved places).levels = context.levels := rfl

/-- The next token is moved with the tokens. -/
@[simp] theorem ParseContext.peek_moved (context : ParseContext) (tokens : List Token) :
    (context.moved places).peek (tokens.map (Token.moved places)) =
      (context.peek tokens).moved places := by
  cases tokens <;> rfl

namespace Parse

/-- Two states keep the same, told of tokens in different places. -/
structure Moved (places : Nat → Location) (state other : ParseState) : Prop where
  known : ∀ rule position, other.memo.outcome? rule position =
    (state.memo.outcome? rule position).map (Except.mapError (ParseError.moved places))
  entries : other.memo.entries.size = state.memo.entries.size
  found : other.memo.found = state.memo.found
  missed : other.memo.missed = state.memo.missed
  arena : other.arena = state.arena
  noted : other.failures.noted = state.failures.noted.map (Failure.moved places)
  depth : other.depth = state.depth
  tooDeep : other.tooDeep = state.tooDeep.map (ParseError.moved places)

/-- Two runs end alike, told of tokens in different places. -/
structure MovedEnd (places : Nat → Location) (result other : Outcome × ParseState) : Prop where
  outcome : other.1 = result.1.mapError (ParseError.moved places)
  state : Moved places result.2 other.2

variable {context : ParseContext} {tokens : List Token} {levels tighter : List Level}
  {level : Level} {start other : ParseState} {position finish bound : Nat} {id : NodeId}
  {node : Node} {token : Token} {rule : Rule} {outcome : Outcome}

/-- The tokens from an index on are moved with the tokens. -/
@[simp] theorem tokensFrom_map (tokens : List Token) (position finish : Nat) :
    tokensFrom (tokens.map (Token.moved places)) position finish =
      (tokensFrom tokens position finish).map (Token.moved places) :=
  List.map_drop.symm

/-- The same node is stored by both. -/
theorem Moved.add (h : Moved places start other) (node : Node) :
    Moved places { start with arena := start.arena.add node }
      { other with arena := other.arena.add node } :=
  { h with arena := congrArg (Arena.add · node) h.arena }

/-- The same look-up is noted by both. -/
theorem Moved.noteHit (h : Moved places start other) (rule : Rule) (position : Nat) :
    Moved places { start with memo := start.memo.noteHit rule position }
      { other with memo := other.memo.noteHit rule position } :=
  { h with found := congrArg ((rule, position) :: ·) h.found }

/-- A look-up in vain is noted. The rule starts at some depth, or it exceeds the limit. -/
theorem Moved.noteMiss (h : Moved places start other) (rule : Rule) (position : Nat)
    {depth depth' : Nat} {limit limit' : Option ParseError} (hdepth : depth' = depth)
    (hlimit : limit' = limit.map (ParseError.moved places)) :
    Moved places
      { start with
        memo := start.memo.noteMiss rule position, depth := depth, tooDeep := limit }
      { other with
        memo := other.memo.noteMiss rule position, depth := depth', tooDeep := limit' } :=
  { h with
    missed := congrArg ((rule, position) :: ·) h.missed
    depth := hdepth
    tooDeep := hlimit }

/-- Both memos know the rule, or neither does. So they grow alike. -/
theorem Moved.leave (h : Moved places start other) (rule : Rule) (position : Nat)
    (outcome : Outcome) :
    Moved places (start.leave rule position outcome)
      (other.leave rule position (outcome.mapError (ParseError.moved places))) where
  known rule' position' := by
    simp only [ParseState.leave, Memo.outcome?_insert, h.known]
    split <;> rfl
  entries := by
    have hknown : (rule, position) ∈ other.memo.entries ↔
        (rule, position) ∈ start.memo.entries := by
      have hmap := congrArg Option.isSome (h.known rule position)
      rw [Option.isSome_map] at hmap
      rw [Std.HashMap.mem_iff_isSome_getElem?, Std.HashMap.mem_iff_isSome_getElem?]
      exact hmap ▸ Iff.rfl
    simp only [ParseState.leave, Memo.insert, Std.HashMap.size_insert, hknown, h.entries]
  found := h.found
  missed := h.missed
  arena := h.arena
  noted := h.noted
  depth := congrArg (· - 1) h.depth
  tooDeep := h.tooDeep

/-- Both rules that end alike are kept. -/
theorem MovedEnd.leave {result result' : Outcome × ParseState}
    (h : MovedEnd places result result') (rule : Rule) (position : Nat) :
    MovedEnd places (result.1, result.2.leave rule position result.1)
      (result'.1, result'.2.leave rule position result'.1) :=
  ⟨h.outcome, h.outcome ▸ h.state.leave rule position result.1⟩

/-- A match that is passed on is the same for both. -/
theorem moved_found (h : Moved places start other) (found : Match) :
    MovedEnd places (.ok found, start) (.ok found, other) := ⟨rfl, h⟩

/-- Both fail alike. -/
theorem moved_fail (h : Moved places start other) (what : Expectation) (index : Nat)
    (token : Token) :
    MovedEnd places (start.fail what index token)
      (other.fail (what.moved places) index (token.moved places)) :=
  ⟨rfl, { h with
    noted := congrArg (Failure.moved places (index, ⟨.expected what, token⟩) :: ·) h.noted }⟩

/-- Both end with the same match of a new node. -/
theorem moved_succeed (h : Moved places start other) (node : Node) (finish : Nat) :
    MovedEnd places (start.succeed node finish) (other.succeed node finish) := by
  rw [ParseState.succeed, ParseState.succeed, h.arena]
  exact ⟨rfl, h.arena ▸ h.add node⟩

/-- Going on behind calls that end alike. -/
theorem moved_orElse {called called' : Outcome × ParseState}
    {next next' : Match → ParseState → Outcome × ParseState}
    {instead instead' : ParseError → ParseState → Outcome × ParseState}
    (hnext : ∀ found middle middle', Moved places middle middle' →
      MovedEnd places (next found middle) (next' found middle'))
    (hinstead : ∀ error middle middle', Moved places middle middle' →
      MovedEnd places (instead error middle) (instead' (error.moved places) middle')) :
    MovedEnd places called called' → MovedEnd places
      (match called with
        | (.error error, middle) => instead error middle
        | (.ok found, middle) => next found middle)
      (match called' with
        | (.error error, middle) => instead' error middle
        | (.ok found, middle) => next' found middle) := by
  rintro ⟨houtcome, hstate⟩
  obtain ⟨outcome, middle⟩ := called
  obtain ⟨outcome', middle'⟩ := called'
  simp only at houtcome hstate
  subst houtcome
  cases outcome with
  | error error => exact hinstead error middle middle' hstate
  | ok found => exact hnext found middle middle' hstate

/-- Going on behind calls whose failures are passed on. -/
theorem moved_andThen {called called' : Outcome × ParseState}
    {next next' : Match → ParseState → Outcome × ParseState}
    (hnext : ∀ found middle middle', Moved places middle middle' →
      MovedEnd places (next found middle) (next' found middle')) :
    MovedEnd places called called' → MovedEnd places
      (match called with
        | (.error error, middle) => (.error error, middle)
        | (.ok found, middle) => next found middle)
      (match called' with
        | (.error error, middle) => (.error error, middle)
        | (.ok found, middle) => next' found middle) :=
  moved_orElse hnext fun _ _ _ hmiddle => ⟨rfl, hmiddle⟩

/-- Postfix operators are applied alike. -/
theorem moved_postfixChain (h : Moved places start other) (operators : OperatorSet) :
    MovedEnd places (postfixChain context operators id position tokens start)
      (postfixChain (context.moved places) operators id position
        (tokens.map (Token.moved places)) other) := by
  induction tokens generalizing id position start other with
  | nil => exact moved_found h _
  | cons token behind ih =>
    simp only [List.map_cons, postfixChain, OperatorSet.contains_moved, Token.operator?_moved,
      ParseContext.peek_moved]
    split
    · split
      · exact moved_fail h _ _ _
      · rw [h.arena]
        exact ih (h.arena ▸ h.add _)
    · exact moved_found h _

/-- All calls with fewer tokens end alike. -/
def MovedBelow (context : ParseContext) (places : Nat → Location) (bound : Nat) : Prop :=
  ∀ levels position tokens start other, tokens.length < bound → Moved places start other →
    MovedEnd places (run context levels position tokens start)
      (run (context.moved places) levels position (tokens.map (Token.moved places)) other)

/-- A level that groups to the left goes on alike. -/
theorem moved_leftChain (ih : MovedBelow context places bound) (hbound : tokens.length ≤ bound)
    (h : Moved places start other) (operators : OperatorSet) :
    MovedEnd places (leftChain context operators tighter id position tokens start)
      (leftChain (context.moved places) operators tighter id position
        (tokens.map (Token.moved places)) other) := by
  induction hn : tokens.length using Nat.strongRecOn
    generalizing id position tokens start other with
  | ind n chained =>
    match tokens with
    | [] =>
      rw [List.map_nil, leftChain, leftChain]
      exact moved_found h _
    | token :: behind =>
      rw [List.length_cons] at hn hbound
      rw [List.map_cons, leftChain, leftChain]
      simp only [OperatorSet.contains_moved, Token.operator?_moved, tokensFrom_map,
        ParseContext.peek_moved]
      split
      · refine moved_orElse ?_ ?_ (ih tighter (position + 1) behind start other (by omega) h)
        · intro right middle middle' hmiddle
          have hrest := length_tokensFrom behind (position + 1) right.finish
          cases token.operator?.bind Operator.asBinary? with
          | none => exact moved_fail hmiddle _ _ _
          | some op =>
            simp only [hmiddle.arena]
            exact chained _ (by omega) (by omega) (hmiddle.arena ▸ hmiddle.add _) rfl
        · exact fun _ _ _ hmiddle => moved_found hmiddle _
      · exact moved_found h _

/-- A level that groups to the right goes on alike. -/
theorem moved_rightOperand (ih : MovedBelow context places bound) (hbound : tokens.length ≤ bound)
    (h : Moved places start other) :
    MovedEnd places (rightOperand context level tighter id position tokens start)
      (rightOperand (context.moved places) level tighter id position
        (tokens.map (Token.moved places)) other) := by
  match tokens with
  | [] =>
    rw [List.map_nil, rightOperand, rightOperand]
    exact moved_found h _
  | token :: behind =>
    rw [List.length_cons] at hbound
    rw [List.map_cons, rightOperand, rightOperand]
    simp only [OperatorSet.contains_moved, Token.operator?_moved, tokensFrom_map,
      ParseContext.peek_moved]
    split
    · refine moved_orElse ?_ ?_
        (ih (level :: tighter) (position + 1) behind start other (by omega) h)
      · intro right middle middle' hmiddle
        cases token.operator?.bind Operator.asBinary? with
        | none => exact moved_fail hmiddle _ _ _
        | some op => exact moved_succeed hmiddle _ _
      · exact fun _ _ _ hmiddle => moved_found hmiddle _
    · exact moved_found h _

/-- A prefix level ends alike. -/
theorem moved_prefixed (ih : MovedBelow context places tokens.length)
    (h : Moved places start other)
    (hoperand : ∀ start other, Moved places start other →
      MovedEnd places (run context tighter position tokens start)
        (run (context.moved places) tighter position (tokens.map (Token.moved places)) other)) :
    MovedEnd places (prefixed context level tighter position tokens start)
      (prefixed (context.moved places) level tighter position
        (tokens.map (Token.moved places)) other) := by
  match tokens with
  | [] =>
    rw [List.map_nil, prefixed, prefixed]
    exact hoperand start other h
  | token :: behind =>
    rw [List.map_cons] at hoperand ⊢
    rw [prefixed, prefixed]
    simp only [OperatorSet.contains_moved, OperatorSet.prefixOp?_moved, tokensFrom_map,
      ParseContext.peek_moved]
    split
    · refine moved_orElse ?_ ?_
        (ih (level :: tighter) (position + 1) behind start other (by simp) h)
      · intro operand middle middle' hmiddle
        cases level.operators.prefixOp? token with
        | none => exact moved_fail hmiddle _ _ _
        | some op => exact moved_succeed hmiddle _ _
      · exact fun _ middle middle' hmiddle => hoperand middle middle' hmiddle
    · exact hoperand start other h

/-- A primary ends alike. -/
theorem moved_primary (ih : MovedBelow context places tokens.length)
    (h : Moved places start other) :
    MovedEnd places (primary context position tokens start)
      (primary (context.moved places) position (tokens.map (Token.moved places)) other) := by
  match tokens with
  | [] =>
    rw [List.map_nil, primary, primary]
    exact moved_fail h _ _ _
  | token :: behind =>
    rw [List.map_cons, primary, primary]
    simp only [Token.kind_moved, Token.text_moved, Token.literal?_moved, tokensFrom_map,
      ParseContext.peek_moved, ParseContext.levels_moved]
    cases token.kind with
    | leftParen =>
      refine moved_andThen ?_ (ih context.levels (position + 1) behind start other (by simp) h)
      intro inner middle middle' hmiddle
      split
      · exact moved_found hmiddle _
      · exact moved_fail hmiddle _ _ _
    | integer | real =>
      cases token.literal? with
      | none => exact moved_fail h _ _ _
      | some value => exact moved_succeed h _ _
    | letter =>
      cases token.text.toList with
      | nil => exact moved_fail h _ _ _
      | cons name others => exact moved_succeed h _ _
    | _ => exact moved_fail h _ _ _

/-- The bodies of a rule end alike if the calls they make do. -/
theorem moved_expand (ih : MovedBelow context places tokens.length)
    (h : Moved places start other)
    (hoperand : ∀ level tighter, levels = level :: tighter → ∀ start other,
      Moved places start other → MovedEnd places (run context tighter position tokens start)
        (run (context.moved places) tighter position (tokens.map (Token.moved places)) other)) :
    MovedEnd places (expand context levels position tokens start)
      (expand (context.moved places) levels position (tokens.map (Token.moved places)) other) := by
  match levels with
  | [] =>
    rw [expand, expand]
    exact moved_primary ih h
  | level :: tighter =>
    have hfirst := hoperand level tighter rfl start other h
    rw [expand, expand]
    simp only [tokensFrom_map]
    split
    · exact moved_prefixed ih h (hoperand level tighter rfl)
    · exact moved_andThen (fun _ _ _ hmiddle => moved_postfixChain hmiddle _) hfirst
    · exact moved_andThen (fun _ _ _ hmiddle => moved_leftChain ih (by simp) hmiddle _) hfirst
    · exact moved_andThen (fun _ _ _ hmiddle => moved_rightOperand ih (by simp) hmiddle) hfirst

/-- A rule does the same on tokens in other places. -/
theorem moved_run (h : Moved places start other) :
    MovedEnd places (run context levels position tokens start)
      (run (context.moved places) levels position (tokens.map (Token.moved places)) other) := by
  induction levels, tokens using rule_induction generalizing position start other with
  | step levels tokens ih =>
    have hbelow : MovedBelow context places tokens.length :=
      fun levels' _ tokens' _ _ hless h' => ih levels' tokens' (.inl hless) h'
    rw [run, run, ParseContext.peek_moved]
    cases htooDeep : start.tooDeep with
    | some error =>
      have htooDeep' : other.tooDeep = some (error.moved places) := by rw [h.tooDeep, htooDeep]; rfl
      rw [ParseState.enter_of_tooDeep htooDeep, ParseState.enter_of_tooDeep htooDeep']
      exact ⟨rfl, h⟩
    | none =>
      have htooDeep' : other.tooDeep = none := by rw [h.tooDeep, htooDeep]; rfl
      have hknown' := h.known (.ofLevels levels) position
      cases hknown : start.memo.outcome? (.ofLevels levels) position with
      | some outcome =>
        rw [hknown] at hknown'
        rw [ParseState.enter_known htooDeep hknown, ParseState.enter_known htooDeep' hknown']
        exact ⟨rfl, h.noteHit _ _⟩
      | none =>
        rw [hknown] at hknown'
        by_cases hdepth : start.depth < nestingLimit
        · rw [ParseState.enter_started htooDeep hknown hdepth,
            ParseState.enter_started htooDeep' hknown' (h.depth ▸ hdepth)]
          have hentered := h.noteMiss (.ofLevels levels) position (congrArg (· + 1) h.depth)
            h.tooDeep
          have hbody : MovedEnd places (expand context levels position tokens _)
              (expand (context.moved places) levels position _ _) :=
            moved_expand hbelow hentered (by
              rintro level tighter rfl start' other' h'
              exact ih tighter tokens (.inr ⟨rfl, Nat.lt_succ_self _⟩) h')
          exact hbody.leave _ _
        · rw [ParseState.enter_limited htooDeep hknown hdepth,
            ParseState.enter_limited htooDeep' hknown' (h.depth ▸ hdepth)]
          exact ⟨rfl, h.noteMiss (.ofLevels levels) position h.depth rfl⟩

/-- The check for tokens left over is made alike. -/
theorem moved_checkEnding {called called' : Outcome × ParseState}
    (h : MovedEnd places called called') :
    MovedEnd places (checkEnding tokens called)
      (checkEnding (tokens.map (Token.moved places)) called') := by
  unfold checkEnding
  refine moved_orElse ?_ (fun _ _ _ hmiddle => ⟨rfl, hmiddle⟩) h
  intro root middle middle' hmiddle
  simp only [hmiddle.tooDeep, Option.isSome_map, tokensFrom_map]
  split
  · exact moved_found hmiddle _
  · cases tokensFrom tokens 0 root.finish with
    | nil => exact moved_found hmiddle _
    | cons next behind => exact moved_fail hmiddle _ _ _

/-- Results of runs that end alike are the same up to places. -/
theorem conclude_moved {called called' : Outcome × ParseState}
    (h : MovedEnd places called called') :
    conclude (context.moved places) called' =
      (conclude context called).mapError (ParseError.moved places) := by
  obtain ⟨outcome, state⟩ := called
  obtain ⟨outcome', state'⟩ := called'
  obtain ⟨houtcome, hstate⟩ := h
  simp only at houtcome hstate
  subst houtcome
  have hfurthest : state'.furthest = state.furthest.map (Failure.moved places) :=
    FailureLog.furthest_moved hstate.noted
  simp only [conclude, hstate.tooDeep, hstate.arena, hfurthest]
  cases state.tooDeep with
  | some error => rfl
  | none =>
    cases outcome with
    | error error => cases state.furthest <;> rfl
    | ok root =>
      simp only [Except.mapError, Option.map_none]
      cases state.arena.expr? root.node <;> rfl

/-- In the beginning nothing is kept. -/
theorem moved_start (places : Nat → Location) : Moved places {} {} where
  known rule position := by simp [Memo.outcome?]
  entries := rfl
  found := rfl
  missed := rfl
  arena := rfl
  noted := rfl
  depth := rfl
  tooDeep := rfl

end Parse

end Formula
