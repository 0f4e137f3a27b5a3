import Formula.Proofs.Parse.Accounting

/-!
# What the nesting limit leaves room for

A rule that is run takes one of the places that the limit has for active rules. So a parse
that was not stopped and repeated no outcome had places for all rules that the plain parser
has active at once. An outcome that is repeated takes no place, but only failures are
repeated: a tree had a place for each step in it that is made by a call inside a call. The
steps of the loops are free: those into the operand of a postfix operator, and those into
the left operand of an operator that the table chains from the left.
-/

namespace Formula

/-- Whether the level chains an operator from the left. -/
def Level.chains (level : Level) (op : BinaryOp) : Bool :=
  level.fixity == .infixOp .left &&
    match level.operators with
    | .names => false
    | .symbols list => list.any (·.asBinary? == some op)

/-- Whether some level chains an operator from the left. -/
def Level.anyChains (levels : List Level) (op : BinaryOp) : Bool := levels.any (·.chains op)

/-- The height of a tree in which the steps of loops are not counted. -/
def Expr.nesting (chained : BinaryOp → Bool) : Expr → Nat
  | .literal _ => 1
  | .var _ => 1
  | .prefixed _ operand => 1 + operand.nesting chained
  | .postfixed operand _ => operand.nesting chained
  | .binary op left right =>
    if chained op then max (left.nesting chained) (1 + right.nesting chained)
    else 1 + max (left.nesting chained) (right.nesting chained)

/-- A binary operator adds one step at most. -/
theorem Expr.nesting_binary_le (chained : BinaryOp → Bool) (op : BinaryOp) (left right : Expr) :
    (Expr.binary op left right).nesting chained ≤
      1 + max (left.nesting chained) (right.nesting chained) := by
  simp only [nesting]
  split <;> omega

/-- An operator token of a level that is chained from the left is chained. -/
theorem Level.chains_of_contains {level : Level} {token : Token} {op : BinaryOp}
    (hfixity : level.fixity = .infixOp .left) (hcontains : level.operators.contains token = true)
    (hop : token.operator?.bind Operator.asBinary? = some op) : level.chains op := by
  obtain ⟨sign, hsign, hbinary⟩ := Option.bind_eq_some_iff.mp hop
  cases hset : level.operators with
  | names =>
    have hkind := Token.kind_of_operator? hsign
    simp [hset, OperatorSet.contains, hkind] at hcontains
  | symbols list =>
    rw [hset, OperatorSet.contains, hsign, Option.any_some, List.contains_iff_mem] at hcontains
    simp only [chains, hfixity, hset, beq_self_eq_true, Bool.true_and, List.any_eq_true, beq_iff_eq]
    exact ⟨sign, hcontains, hbinary⟩

namespace Parse

variable {context : ParseContext} {whole tokens behind : List Token} {levels tighter : List Level}
  {level : Level} {start state : ParseState} {first second : Reading}
  {result : Outcome × ParseState} {e : Expr} {id : NodeId} {position finish depth bound : Nat}
  {hits : List (Rule × Nat)} {chained : BinaryOp → Bool}

/-! What was found in the memo stays noted. -/

/-- What goes on from a state forgets no outcome that was repeated. -/
def KeepsFound (goOn : ParseState → Outcome × ParseState) : Prop :=
  ∀ state, state.memo.found <:+ (goOn state).2.memo.found

/-- What ends at once forgets nothing. -/
theorem keepsFound_end (outcome : Outcome) : KeepsFound fun state => (outcome, state) :=
  fun _ => List.suffix_rfl

/-- What goes on behind a call forgets nothing that the call found. -/
theorem found_suffix_of_called {goOn : Match → ParseState → Outcome × ParseState}
    {instead : ParseError → ParseState → Outcome × ParseState}
    (hgoOn : ∀ found, KeepsFound (goOn found)) (hinstead : ∀ failure, KeepsFound (instead failure))
    (called : Outcome × ParseState) :
    called.2.memo.found <:+ (match called with
      | (.error failure, state) => instead failure state
      | (.ok found, state) => goOn found state : Outcome × ParseState).2.memo.found := by
  obtain ⟨outcome, middle⟩ := called
  cases outcome with
  | error failure => exact hinstead failure middle
  | ok found => exact hgoOn found middle

/-- Postfix operators are applied without a look-up. -/
theorem keepsFound_postfixChain (operators : OperatorSet) :
    KeepsFound (postfixChain context operators id position tokens) := by
  intro state
  induction tokens generalizing id position state with
  | nil => exact List.suffix_rfl
  | cons token behind ih =>
    rw [postfixChain]
    split
    · split
      · exact List.suffix_rfl
      · exact ih { state with arena := state.arena.add _ }
    · exact List.suffix_rfl

/-- No call with fewer tokens forgets anything. -/
def KeepsFoundBelow (context : ParseContext) (bound : Nat) : Prop :=
  ∀ levels position tokens, tokens.length < bound →
    KeepsFound (run context levels position tokens)

/-- A level that groups to the left forgets nothing if its calls forget nothing. -/
theorem keepsFound_leftChain (operators : OperatorSet) (ih : KeepsFoundBelow context bound)
    (hbound : tokens.length ≤ bound) :
    KeepsFound (leftChain context operators tighter id position tokens) := by
  intro state
  induction hn : tokens.length using Nat.strongRecOn generalizing id position tokens state with
  | ind n chained =>
    match tokens with
    | [] =>
      rw [leftChain]
    | token :: behind =>
      simp only [List.length_cons] at hn hbound
      rw [leftChain]
      split
      · refine (ih tighter (position + 1) behind hbound state).trans
          (found_suffix_of_called (fun right middle => ?_) (fun _ => keepsFound_end _) _)
        split
        · exact List.suffix_rfl
        · rename_i op _
          have hlength := length_tokensFrom behind (position + 1) right.finish
          exact chained (tokensFrom behind (position + 1) right.finish).length (by omega)
            (by omega) { middle with arena := middle.arena.add (.binary op id right.node) } rfl
      · exact List.suffix_rfl

/-- A level that groups to the right forgets nothing if its calls forget nothing. -/
theorem keepsFound_rightOperand (ih : KeepsFoundBelow context bound)
    (hbound : tokens.length ≤ bound) :
    KeepsFound (rightOperand context level tighter id position tokens) := by
  intro state
  match tokens with
  | [] => rw [rightOperand]
  | token :: behind =>
    rw [rightOperand]
    split
    · refine (ih (level :: tighter) (position + 1) behind hbound state).trans
        (found_suffix_of_called (fun right middle => ?_) (fun _ => keepsFound_end _) _)
      split <;> exact List.suffix_rfl
    · exact List.suffix_rfl

/-- A prefix level forgets nothing if its calls forget nothing. -/
theorem keepsFound_prefixed (ih : KeepsFoundBelow context tokens.length)
    (hoperand : KeepsFound (run context tighter position tokens)) :
    KeepsFound (prefixed context level tighter position tokens) := by
  intro state
  match tokens with
  | [] =>
    rw [prefixed]
    exact hoperand state
  | token :: behind =>
    rw [prefixed]
    split
    · refine (ih (level :: tighter) (position + 1) behind (Nat.lt_succ_self _) state).trans
        (found_suffix_of_called (fun operand middle => ?_) (fun _ => hoperand) _)
      split <;> exact List.suffix_rfl
    · exact hoperand state

/-- A primary forgets nothing if its calls forget nothing. -/
theorem keepsFound_primary (ih : KeepsFoundBelow context tokens.length) :
    KeepsFound (primary context position tokens) := by
  intro state
  match tokens with
  | [] =>
    rw [primary]
    exact List.suffix_rfl
  | token :: behind =>
    rw [primary]
    split
    · refine (ih context.levels (position + 1) behind (Nat.lt_succ_self _) state).trans
        (found_suffix_of_called (fun inner middle => ?_) (fun _ => keepsFound_end _) _)
      simp only
      split <;> exact List.suffix_rfl
    · split <;> exact List.suffix_rfl
    · split <;> exact List.suffix_rfl
    · split <;> exact List.suffix_rfl
    · exact List.suffix_rfl

/-- The body of a rule forgets nothing if its calls forget nothing. -/
theorem keepsFound_expand (ih : KeepsFoundBelow context tokens.length)
    (hoperand : ∀ level tighter, levels = level :: tighter →
      KeepsFound (run context tighter position tokens)) :
    KeepsFound (expand context levels position tokens) := by
  intro state
  match levels with
  | [] =>
    rw [expand]
    exact keepsFound_primary ih state
  | level :: tighter =>
    have hfirst := hoperand level tighter rfl
    rw [expand]
    split
    · exact keepsFound_prefixed ih hfirst state
    · exact (hfirst state).trans (found_suffix_of_called (fun _ => keepsFound_postfixChain _)
        (fun _ => keepsFound_end _) _)
    · exact (hfirst state).trans (found_suffix_of_called
        (fun left => keepsFound_leftChain _ ih (by simp)) (fun _ => keepsFound_end _) _)
    · exact (hfirst state).trans (found_suffix_of_called
        (fun left => keepsFound_rightOperand ih (by simp)) (fun _ => keepsFound_end _) _)

/-- No rule forgets an outcome that was repeated. -/
theorem keepsFound_run (context : ParseContext) (levels : List Level) (position : Nat)
    (tokens : List Token) : KeepsFound (run context levels position tokens) := by
  induction levels, tokens using rule_induction generalizing position with
  | step levels tokens ih =>
    have hexpand : KeepsFound (expand context levels position tokens) := by
      refine keepsFound_expand (fun levels' position' tokens' hless =>
        ih levels' tokens' (.inl hless) position') ?_
      rintro level tighter rfl
      exact ih tighter tokens (.inr ⟨rfl, Nat.lt_succ_self _⟩) position
    intro state
    cases hstopped : state.tooDeep with
    | some error => rw [run_of_tooDeep hstopped]
    | none =>
      rw [run]
      cases hknown : state.memo.outcome? (.ofLevels levels) position with
      | some outcome =>
        rw [ParseState.enter_known hstopped hknown]
        exact List.suffix_cons _ _
      | none =>
        by_cases hdepth : state.depth < nestingLimit
        · rw [ParseState.enter_started hstopped hknown hdepth]
          exact hexpand { state with
            memo := state.memo.noteMiss (.ofLevels levels) position, depth := state.depth + 1 }
        · rw [ParseState.enter_limited hstopped hknown hdepth]
          exact List.suffix_rfl

/-- A level that groups to the left forgets nothing. -/
theorem keepsFound_chain (operators : OperatorSet) :
    KeepsFound (leftChain context operators tighter id position tokens) :=
  keepsFound_leftChain operators (fun _ _ _ _ => keepsFound_run _ _ _ _) (Nat.le_refl _)

/-- A level that groups to the right forgets nothing. -/
theorem keepsFound_right : KeepsFound (rightOperand context level tighter id position tokens) :=
  keepsFound_rightOperand (fun _ _ _ _ => keepsFound_run _ _ _ _) (Nat.le_refl _)

/-! A run that is not stopped had places for what it read. -/

/-- Only failures are repeated. -/
def RepeatsFailures (context : ParseContext) (whole : List Token) (hits : List (Rule × Nat)) :
    Prop :=
  ∀ levels position, levels <:+ context.levels → (Rule.ofLevels levels, position) ∈ hits →
    ∃ error, (Plain.read context levels position (whole.drop position)).outcome = .error error

/-- A run was not stopped, and what it found in the memo is known. -/
structure Unstopped (hits : List (Rule × Nat)) (result : Outcome × ParseState) : Prop where
  tooDeep : result.2.tooDeep = none
  found : result.2.memo.found ⊆ hits

/-- With so many rules active there is room for a reading if nothing is repeated, and for
its tree in any case. The body of a rule has the place of the rule besides. -/
structure Fits (chained : BinaryOp → Bool) (hits : List (Rule × Nat)) (depth own : Nat)
    (reading : Reading) : Prop where
  height : hits = [] → depth + reading.height ≤ nestingLimit
  nesting : ∀ e finish, reading.outcome = .ok (e, finish) →
    depth + e.nesting chained ≤ nestingLimit + own

/-- A run from a state is one that had room for the reading, unless it was stopped. -/
def Affords (context : ParseContext) (whole : List Token) (chained : BinaryOp → Bool)
    (hits : List (Rule × Nat)) (start : ParseState) (own : Nat) (reading : Reading)
    (result : Outcome × ParseState) : Prop :=
  start.tooDeep = none → Faithful context whole start → Unstopped hits result →
    Fits chained hits start.depth own reading

/-- A call that something goes on behind was not stopped if this was not. -/
theorem Unstopped.called {goOn : Match → ParseState → Outcome × ParseState}
    {instead : ParseError → ParseState → Outcome × ParseState} {called : Outcome × ParseState}
    (h : Unstopped hits (match called with
      | (.error failure, state) => instead failure state
      | (.ok found, state) => goOn found state))
    (hgoOn : ∀ found, KeepsStop (goOn found) ∧ KeepsFound (goOn found))
    (hinstead : ∀ failure, KeepsStop (instead failure) ∧ KeepsFound (instead failure)) :
    Unstopped hits called where
  tooDeep := by
    cases hstopped : called.2.tooDeep with
    | none => rfl
    | some error =>
      have hend := tooDeep_of_called (fun found => (hgoOn found).1) (fun failure =>
        (hinstead failure).1) called error hstopped
      cases h.tooDeep.symm.trans hend
  found := List.Subset.trans (found_suffix_of_called (fun found => (hgoOn found).2)
    (fun failure => (hinstead failure).2) called).subset h.found

/-- There is room for two readings one after the other if there is for each of them. -/
theorem Fits.before {own other : Nat} (hfirst : Fits chained hits depth other first)
    (hsecond : Fits chained hits depth own second) :
    Fits chained hits depth own (first.before second) where
  height hnone := by
    have hleft := hfirst.height hnone
    have hright := hsecond.height hnone
    simp only [Reading.before]
    omega
  nesting := hsecond.nesting

/-- A run that was not stopped did what was read, and had room for it. -/
theorem Affords.follows {own : Nat} (h : Affords context whole chained hits start own first result)
    (hsimulates : start.tooDeep = none → Faithful context whole start →
      Simulates context whole start first result)
    (hnone : start.tooDeep = none) (hfaithful : Faithful context whole start)
    (hend : Unstopped hits result) :
    result.2.tooDeep = none ∧ Follows context whole start first result.1 result.2 ∧
      Fits chained hits start.depth own first := by
  rcases hsimulates hnone hfaithful with ⟨-, hfollows⟩ | ⟨⟨_, hsome⟩, -⟩
  · exact ⟨hend.tooDeep, hfollows, h hnone hfaithful hend⟩
  · rw [hend.tooDeep] at hsome
    cases hsome

/-- What is read behind a call has room if the call has. -/
theorem Affords.orElse {called : Outcome × ParseState} {own : Nat}
    {goOn : Match → ParseState → Outcome × ParseState}
    {instead : ParseError → ParseState → Outcome × ParseState} {next : Expr → Nat → Reading}
    {other : Reading}
    (hsimulates : start.tooDeep = none → Faithful context whole start →
      Simulates context whole start first called)
    (hfirst : Affords context whole chained hits start 0 first called)
    (hgoOn : ∀ found, KeepsStop (goOn found) ∧ KeepsFound (goOn found))
    (hinstead : ∀ failure, KeepsStop (instead failure) ∧ KeepsFound (instead failure))
    (hok : ∀ e found state, first.outcome = .ok (e, found.finish) →
      start.depth + e.nesting chained ≤ nestingLimit → state.depth = start.depth →
      Affords context whole chained hits state own (next e found.finish) (goOn found state))
    (herror : ∀ error state, first.outcome = .error error → state.depth = start.depth →
      Affords context whole chained hits state own other (instead error state)) :
    Affords context whole chained hits start own (first.orElse next other)
      (match called with
        | (.error error, state) => instead error state
        | (.ok found, state) => goOn found state) := by
  intro hnone hfaithful hend
  obtain ⟨hnone', hfollows, hfits⟩ := hfirst.follows hsimulates hnone hfaithful
    (hend.called hgoOn hinstead)
  obtain ⟨outcome, middle⟩ := called
  have hdepth : middle.depth = start.depth := hfollows.depth
  have hagrees := hfollows.agrees
  cases hread : first.outcome with
  | error error =>
    rw [hread] at hagrees
    cases outcome with
    | ok found => exact hagrees.elim
    | error actual =>
      obtain rfl : actual = error := hagrees
      rw [Reading.orElse_of_error hread]
      exact hfits.before (hdepth ▸ herror actual middle hread hdepth hnone' hfollows.faithful hend)
  | ok pair =>
    obtain ⟨e, finish⟩ := pair
    rw [hread] at hagrees
    cases outcome with
    | error actual => exact hagrees.elim
    | ok found =>
      obtain ⟨-, rfl⟩ := hagrees
      rw [Reading.orElse_of_ok hread]
      have hroom := hfits.nesting e _ hread
      exact hfits.before
        (hdepth ▸ hok e found middle hread hroom hdepth hnone' hfollows.faithful hend)

/-- What is read behind a call whose failure is passed on has room if the call has. -/
theorem Affords.andThen {called : Outcome × ParseState} {own : Nat}
    {goOn : Match → ParseState → Outcome × ParseState} {next : Expr → Nat → Reading}
    (hdepth : start.depth ≤ nestingLimit)
    (hsimulates : start.tooDeep = none → Faithful context whole start →
      Simulates context whole start first called)
    (hfirst : Affords context whole chained hits start 0 first called)
    (hgoOn : ∀ found, KeepsStop (goOn found) ∧ KeepsFound (goOn found))
    (hok : ∀ e found state, first.outcome = .ok (e, found.finish) →
      start.depth + e.nesting chained ≤ nestingLimit → state.depth = start.depth →
      Affords context whole chained hits state own (next e found.finish) (goOn found state)) :
    Affords context whole chained hits start own (first.andThen next)
      (match called with
        | (.error error, state) => (.error error, state)
        | (.ok found, state) => goOn found state) := by
  rw [Reading.andThen_eq_orElse]
  refine hfirst.orElse hsimulates hgoOn
    (fun failure => ⟨keepsStop_end (.error failure), keepsFound_end _⟩) hok
    fun error state herror hsame _ _ _ => ?_
  exact ⟨fun _ => hsame ▸ hdepth, by simp [herror]⟩

/-- A tree that is there already takes no further place. -/
theorem affords_found {own : Nat} (h : start.depth ≤ nestingLimit)
    (hroom : start.depth + e.nesting chained ≤ nestingLimit + own) :
    Affords context whole chained hits start own (.found e finish) result := by
  intro _ _ _
  refine ⟨fun _ => h, ?_⟩
  rintro _ _ ⟨⟩
  exact hroom

/-- A failure takes no place. -/
theorem affords_fail {own : Nat} (h : start.depth ≤ nestingLimit) (what : Expectation)
    (index : Nat) (token : Token) :
    Affords context whole chained hits start own (.fail what index token) result := by
  intro _ _ _
  exact ⟨fun _ => h, by simp [Reading.fail]⟩

/-- The body of a rule has the place of the rule besides what it calls. -/
theorem Affords.leave
    (h : Affords context whole chained hits
      { start with
        memo := start.memo.noteMiss (.ofLevels levels) position, depth := start.depth + 1 } 1
      (Plain.readBody context levels position (whole.drop position)) result) :
    Affords context whole chained hits start 0
      (Plain.read context levels position (whole.drop position))
      (result.1, result.2.leave (.ofLevels levels) position result.1) := by
  intro hnone hfaithful hend
  obtain ⟨hheight, hnesting⟩ := h hnone hfaithful ⟨hend.tooDeep, hend.found⟩
  rw [Plain.read]
  constructor
  · intro hnothing
    have hbody := hheight hnothing
    simp only [Reading.enclosed] at hbody ⊢
    omega
  · intro e finish hread
    have hbody := hnesting e finish hread
    simp only at hbody
    omega

/-- A call that goes on in place of a rule's body has room. -/
theorem Affords.widen (h : Affords context whole chained hits start 0 first result) :
    Affords context whole chained hits start 1 first result :=
  fun hnone hfaithful hend =>
    have hfits := h hnone hfaithful hend
    ⟨hfits.height, fun e finish hread => Nat.le_succ_of_le (hfits.nesting e finish hread)⟩

/-- New nodes take no place. -/
theorem Affords.of_add {own : Nat} (node : Node)
    (h : Affords context whole chained hits { start with arena := start.arena.add node } own first
      result) : Affords context whole chained hits start own first result :=
  fun hnone hfaithful hend => h hnone (hfaithful.add node) hend

/-- All calls with fewer tokens have room for what they read. -/
def AffordedBelow (context : ParseContext) (whole : List Token) (chained : BinaryOp → Bool)
    (hits : List (Rule × Nat)) (bound : Nat) : Prop :=
  ∀ levels position start, levels <:+ context.levels → (whole.drop position).length < bound →
    Affords context whole chained hits start 0
      (Plain.read context levels position (whole.drop position))
      (run context levels position (whole.drop position) start)

/-- Postfix operators take no place, as they are applied in a loop. -/
theorem affords_postfixChain (operators : OperatorSet) (hdepth : start.depth ≤ nestingLimit)
    (hroom : start.depth + e.nesting chained ≤ nestingLimit + 1) :
    Affords context whole chained hits start 1
      (Plain.postfixChain context operators e position tokens) result := by
  induction tokens generalizing e position with
  | nil => exact affords_found hdepth hroom
  | cons token behind ih =>
    rw [Plain.postfixChain]
    split
    · split
      · exact affords_fail hdepth _ _ _
      · exact ih hroom
    · exact affords_found hdepth hroom

section

variable (hall : ∀ l ∈ context.levels, l.Valid) (hending : context.ending.isEnding)
  {token : Token}
include hall hending

/-- The left operands of a level that groups to the left take no place, as they are read in a
loop. -/
theorem affords_leftChain (ih : AffordedBelow context whole chained hits bound)
    (hchained : ∀ op : BinaryOp, level.chains op → chained op)
    (hfixity : level.fixity = .infixOp .left) (hlevels : tighter <:+ context.levels)
    (hbound : (whole.drop position).length ≤ bound) (hdepth : start.depth ≤ nestingLimit)
    (hroom : start.depth + e.nesting chained ≤ nestingLimit + 1) :
    Affords context whole chained hits start 1
      (Plain.leftChain context level.operators tighter e position (whole.drop position))
      (leftChain context level.operators tighter id position (whole.drop position) start) := by
  induction hn : (whole.drop position).length using Nat.strongRecOn
    generalizing id e position start with
  | ind n chain =>
    cases htokens : whole.drop position with
    | nil =>
      rw [Plain.leftChain]
      exact affords_found hdepth hroom
    | cons token behind =>
      obtain rfl := eq_drop_of_cons htokens
      rw [Plain.leftChain, leftChain]
      by_cases hcontains : level.operators.contains token = true
      · simp only [hcontains, if_true]
        have hlength : (whole.drop (position + 1)).length < (whole.drop position).length := by
          simp [htokens]
        refine Affords.orElse (simulates_run hall hending (position + 1) hlevels)
          (ih tighter (position + 1) start hlevels (by omega)) (fun right => ⟨?_, ?_⟩)
          (fun _ => ⟨keepsStop_end _, keepsFound_end _⟩) ?_ ?_
        · intro state error hstopped
          cases hop : token.operator?.bind Operator.asBinary? with
          | none => exact hstopped
          | some op => exact keepsStop_leftChain _ _ error hstopped
        · intro state
          cases hop : token.operator?.bind Operator.asBinary? with
          | none => exact List.suffix_rfl
          | some op =>
            exact keepsFound_chain level.operators
              { state with arena := state.arena.add (.binary op id right.node) }
        · intro r right middle hok hright hsame
          have hlt := lt_of_read hall hending hlevels hok
          cases hop : token.operator?.bind Operator.asBinary? with
          | none => exact affords_fail (by omega) _ _ _
          | some op =>
            have hop' : chained op := hchained op (level.chains_of_contains hfixity hcontains hop)
            have hrest : (whole.drop right.finish).length < (whole.drop position).length := by
              simp only [List.length_drop] at hlength ⊢
              omega
            -- The step into the left operand is one of the loop and takes no place.
            have hnesting : (Expr.binary op e r).nesting chained =
                max (e.nesting chained) (1 + r.nesting chained) := if_pos hop'
            simp only [tokensFrom_drop (Nat.le_of_lt hlt)]
            exact Affords.of_add (.binary op id right.node)
              (chain _ (by omega) (by omega) (by simp only; omega) (by simp only; omega) rfl)
        · intro _ middle _ hsame
          exact affords_found (by omega) (by omega)
      · simp only [hcontains, Bool.false_eq_true, if_false]
        exact affords_found hdepth hroom

/-- A level that groups to the right has room for what its call has room for. -/
theorem affords_rightOperand (ih : AffordedBelow context whole chained hits bound)
    (hlevels : level :: tighter <:+ context.levels) (hbound : (whole.drop position).length ≤ bound)
    (hdepth : start.depth ≤ nestingLimit)
    (hroom : start.depth + e.nesting chained ≤ nestingLimit) :
    Affords context whole chained hits start 1
      (Plain.rightOperand context level tighter e position (whole.drop position))
      (rightOperand context level tighter id position (whole.drop position) start) := by
  cases htokens : whole.drop position with
  | nil =>
    rw [Plain.rightOperand]
    exact affords_found hdepth (by omega)
  | cons token behind =>
    obtain rfl := eq_drop_of_cons htokens
    rw [Plain.rightOperand, rightOperand]
    by_cases hcontains : level.operators.contains token = true
    · simp only [hcontains, if_true]
      have hlength : (whole.drop (position + 1)).length < (whole.drop position).length := by
        simp [htokens]
      refine Affords.orElse (simulates_run hall hending (position + 1) hlevels)
        (ih (level :: tighter) (position + 1) start hlevels (by omega)) (fun right => ⟨?_, ?_⟩)
        (fun _ => ⟨keepsStop_end _, keepsFound_end _⟩) ?_ ?_
      · intro state error hstopped
        cases hop : token.operator?.bind Operator.asBinary? <;> exact hstopped
      · intro state
        cases hop : token.operator?.bind Operator.asBinary? <;> exact List.suffix_rfl
      · intro r right middle hok hright hsame
        cases hop : token.operator?.bind Operator.asBinary? with
        | none => exact affords_fail (by omega) _ _ _
        | some op =>
          have hnesting := Expr.nesting_binary_le chained op e r
          exact affords_found (by omega) (by omega)
      · intro _ middle _ hsame
        exact affords_found (by omega) (by omega)
    · simp only [hcontains, Bool.false_eq_true, if_false]
      exact affords_found hdepth (by omega)

/-- A prefix level has room for what its calls have room for. -/
theorem affords_prefixed
    (ih : AffordedBelow context whole chained hits (whole.drop position).length)
    (hlevels : level :: tighter <:+ context.levels) (hdepth : start.depth ≤ nestingLimit)
    (hoperand : ∀ start, Affords context whole chained hits start 0
      (Plain.read context tighter position (whole.drop position))
      (run context tighter position (whole.drop position) start)) :
    Affords context whole chained hits start 1
      (Plain.prefixed context level tighter position (whole.drop position))
      (prefixed context level tighter position (whole.drop position) start) := by
  cases htokens : whole.drop position with
  | nil =>
    rw [Plain.prefixed, prefixed, ← htokens]
    exact (hoperand start).widen
  | cons token behind =>
    rw [Plain.prefixed, prefixed, ← htokens]
    by_cases hcontains : level.operators.contains token = true
    · obtain rfl := eq_drop_of_cons htokens
      simp only [hcontains, if_true]
      refine Affords.orElse (simulates_run hall hending (position + 1) hlevels)
        (ih (level :: tighter) (position + 1) start hlevels (by simp [htokens]))
        (fun operand => ⟨?_, ?_⟩) (fun _ => ⟨keepsStop_run, keepsFound_run _ _ _ _⟩) ?_ ?_
      · intro state error hstopped
        cases hop : level.operators.prefixOp? token <;> exact hstopped
      · intro state
        cases hop : level.operators.prefixOp? token <;> exact List.suffix_rfl
      · intro r operand middle hok hright hsame
        cases hop : level.operators.prefixOp? token with
        | none => exact affords_fail (by omega) _ _ _
        | some op => exact affords_found (by omega) (by simp only [Expr.nesting]; omega)
      · intro _ middle _ hsame
        exact (hoperand middle).widen
    · simp only [hcontains, Bool.false_eq_true, if_false]
      exact (hoperand start).widen

/-- A primary has room for what its call has room for. -/
theorem affords_primary
    (ih : AffordedBelow context whole chained hits (whole.drop position).length)
    (hdepth : start.depth ≤ nestingLimit) :
    Affords context whole chained hits start 1
      (Plain.primary context position (whole.drop position))
      (primary context position (whole.drop position) start) := by
  cases htokens : whole.drop position with
  | nil =>
    rw [Plain.primary]
    exact affords_fail hdepth _ _ _
  | cons token behind =>
    obtain rfl := eq_drop_of_cons htokens
    rw [Plain.primary, primary]
    cases hkind : token.kind with
    | leftParen =>
      refine Affords.andThen hdepth
        (simulates_run hall hending (position + 1) List.suffix_rfl)
        (ih context.levels (position + 1) start List.suffix_rfl (by simp [htokens]))
        (fun inner => ⟨?_, ?_⟩) ?_
      · intro state error hstopped
        simp only
        split <;> exact hstopped
      · intro state
        simp only
        split <;> exact List.suffix_rfl
      · intro r inner middle hok hroom hsame
        simp only
        split
        · exact affords_found (by omega) (by omega)
        · exact affords_fail (by omega) _ _ _
    | integer =>
      cases hvalue : token.literal? with
      | none => exact affords_fail hdepth _ _ _
      | some value => exact affords_found hdepth (Nat.add_le_add_right hdepth 1)
    | real =>
      cases hvalue : token.literal? with
      | none => exact affords_fail hdepth _ _ _
      | some value => exact affords_found hdepth (Nat.add_le_add_right hdepth 1)
    | letter =>
      cases htext : token.text.toList with
      | nil => exact affords_fail hdepth _ _ _
      | cons name others => exact affords_found hdepth (Nat.add_le_add_right hdepth 1)
    | _ => exact affords_fail hdepth _ _ _

/-- The body of a rule has room for what its calls have room for. -/
theorem affords_expand
    (ih : AffordedBelow context whole chained hits (whole.drop position).length)
    (hchained : ∀ level ∈ context.levels, ∀ op : BinaryOp, level.chains op → chained op)
    (hlevels : levels <:+ context.levels) (hdepth : start.depth ≤ nestingLimit)
    (hoperand : ∀ level tighter, levels = level :: tighter → ∀ start,
      Affords context whole chained hits start 0
        (Plain.read context tighter position (whole.drop position))
        (run context tighter position (whole.drop position) start)) :
    Affords context whole chained hits start 1
      (Plain.readBody context levels position (whole.drop position))
      (expand context levels position (whole.drop position) start) := by
  match levels with
  | [] =>
    rw [Plain.readBody, expand]
    exact affords_primary hall hending ih hdepth
  | level :: tighter =>
    have htail : tighter <:+ context.levels := (List.suffix_cons level tighter).trans hlevels
    have hfirst := hoperand level tighter rfl start
    have hsimulates (hnone : start.tooDeep = none) (hfaithful : Faithful context whole start) :=
      simulates_run hall hending position htail hnone hfaithful
    rw [Plain.readBody, expand]
    cases hfixity : level.fixity with
    | prefixOp =>
      exact affords_prefixed hall hending ih hlevels hdepth (hoperand level tighter rfl)
    | postfixOp =>
      refine hfirst.andThen hdepth hsimulates
        (fun operand => ⟨keepsStop_postfixChain _, keepsFound_postfixChain _⟩) ?_
      intro e operand middle hok hroom hsame
      exact affords_postfixChain _ (by omega) (by omega)
    | infixOp side =>
      cases side with
      | left =>
        refine hfirst.andThen hdepth hsimulates
          (fun left => ⟨keepsStop_leftChain _, keepsFound_chain _⟩) ?_
        intro e left middle hok hroom hsame
        have hlt := lt_of_read hall hending htail hok
        simp only [tokensFrom_drop (Nat.le_of_lt hlt)]
        exact affords_leftChain hall hending ih (hchained level (hlevels.mem List.mem_cons_self))
          hfixity htail (by simp; omega) (by omega) (by omega)
      | right =>
        refine hfirst.andThen hdepth hsimulates
          (fun left => ⟨keepsStop_rightOperand, keepsFound_right⟩) ?_
        intro e left middle hok hroom hsame
        have hlt := lt_of_read hall hending htail hok
        simp only [tokensFrom_drop (Nat.le_of_lt hlt)]
        exact affords_rightOperand hall hending ih hlevels (by simp; omega) (by omega) (by omega)

/-- A call that was not stopped had room for what it read, if only failures are repeated. -/
theorem affords_run (hfails : RepeatsFailures context whole hits)
    (hchained : ∀ level ∈ context.levels, ∀ op : BinaryOp, level.chains op → chained op)
    (position : Nat) (hlevels : levels <:+ context.levels) :
    Affords context whole chained hits start 0
      (Plain.read context levels position (whole.drop position))
      (run context levels position (whole.drop position) start) := by
  induction levels, hdrop : whole.drop position using rule_induction
    generalizing position start with
  | step levels tokens ih =>
    subst hdrop
    have hbelow : AffordedBelow context whole chained hits (whole.drop position).length :=
      fun levels' position' start' hlevels' hless =>
        ih levels' _ (.inl hless) position' hlevels' rfl
    have hoperand : ∀ level tighter, levels = level :: tighter → ∀ start,
        Affords context whole chained hits start 0
          (Plain.read context tighter position (whole.drop position))
          (run context tighter position (whole.drop position) start) := by
      rintro level tighter rfl start'
      exact ih tighter _ (.inr ⟨rfl, Nat.lt_succ_self _⟩) position
        ((List.suffix_cons level tighter).trans hlevels) rfl
    intro hnone hfaithful
    rw [run]
    cases hknown : start.memo.outcome? (.ofLevels levels) position with
    | some outcome =>
      rw [ParseState.enter_known hnone hknown]
      intro hend
      have hmem : (Rule.ofLevels levels, position) ∈ hits := hend.found List.mem_cons_self
      obtain ⟨error, herror⟩ := hfails levels position hlevels hmem
      exact ⟨fun hnothing => by simp [hnothing] at hmem, by simp [herror]⟩
    | none =>
      by_cases hdepth : start.depth < nestingLimit
      · rw [ParseState.enter_started hnone hknown hdepth]
        exact Affords.leave (affords_expand hall hending hbelow hchained hlevels hdepth hoperand)
          hnone hfaithful
      · rw [ParseState.enter_limited hnone hknown hdepth]
        intro hend
        cases hend.tooDeep

end

/-! A parse that is not stopped had room for all that the plain parser reads. -/

variable {grammar : Grammar}

/-- What is repeated is a failure of the plain parser too. -/
theorem HitsFail.repeatsFailures (h : HitsFail state.memo)
    (hfaithful : Faithful context whole state) :
    RepeatsFailures context whole state.memo.found := by
  intro levels position hlevels hmem
  obtain ⟨error, hknown⟩ := h _ hmem
  obtain ⟨hagrees, -⟩ := hfaithful levels position _ hlevels hknown
  revert hagrees
  cases (Plain.read context levels position (whole.drop position)).outcome with
  | ok found => exact fun hagrees => hagrees.elim
  | error failure => exact fun _ => ⟨failure, rfl⟩

/-- A parse repeats failures only. -/
theorem hitsFail_runAll (grammar : Grammar) (tokens : List Token) :
    HitsFail (runAll grammar tokens).2.memo := by
  obtain ⟨outcome, state, hperforms, hmemo, -⟩ := exists_performs grammar tokens
  rw [hmemo]
  exact hperforms.allocates_all.size_and_hits.2

/-- A parse that was not stopped had room for what the plain parser reads. -/
theorem fits_readAll (h : ¬ NestsTooDeep grammar tokens) :
    Fits (Level.anyChains grammar.levels) (runAll grammar tokens).2.memo.found 0 0
      (Plain.readAll grammar tokens) := by
  rcases parseTokens_cases grammar tokens with ⟨hnone, hfollows, -⟩ | ⟨hdeep, -⟩
  · obtain ⟨log, hended⟩ := exists_checkEnding (Token.beforeEnding tokens)
      (run (context grammar tokens) grammar.loosestFirst 0 (Token.beforeEnding tokens) {})
    rw [runAll, hended] at hnone
    have hfails := (hitsFail_runAll grammar tokens).repeatsFailures hfollows.faithful
    have hchained : ∀ level ∈ (context grammar tokens).levels, ∀ op : BinaryOp,
        level.chains op → Level.anyChains grammar.levels op := by
      intro level hmem op hop
      exact List.any_eq_true.mpr ⟨level, List.mem_reverse.mp hmem, hop⟩
    have hread : Fits (Level.anyChains grammar.levels) (runAll grammar tokens).2.memo.found 0 0
        (Plain.read (context grammar tokens) grammar.loosestFirst 0
          (Token.beforeEnding tokens)) :=
      affords_run grammar.valid_loosestFirst (Token.isEnding_firstEnding _) hfails hchained 0
        List.suffix_rfl rfl (faithful_start _ _)
        ⟨hnone, fun hit hmem => by rwa [runAll, hended]⟩
    rw [Plain.readAll, Plain.checkEnding]
    cases hok : (Plain.read (context grammar tokens) grammar.loosestFirst 0
      (Token.beforeEnding tokens)).outcome with
    | error error =>
      rw [Reading.andThen_of_error hok]
      exact hread
    | ok pair =>
      obtain ⟨e, finish⟩ := pair
      rw [Reading.andThen_of_ok hok]
      have hroom := hread.nesting e finish hok
      refine hread.before ⟨fun _ => ?_, ?_⟩
      · split <;> exact Nat.zero_le _
      · split
        · rintro _ _ ⟨⟩
          exact hroom
        · intro _ _ hfailed
          cases hfailed
  · exact absurd hdeep h

/-- Under a separated table the limit stops a parse just where the plain parser has more
rules active at once. -/
theorem nestsTooDeep_iff (hseparated : grammar.Separated) (tokens : List Token) :
    NestsTooDeep grammar tokens ↔ nestingLimit < (Plain.readAll grammar tokens).height := by
  constructor
  · intro hdeep
    rcases parseTokens_cases grammar tokens with ⟨-, -, hnone, -⟩ | ⟨-, hlimit⟩
    · exact absurd hdeep hnone
    · exact hlimit
  · intro hlimit
    by_contra hnone
    have hheight := (fits_readAll hnone).height (found_eq_nil hseparated tokens)
    omega

/-- A tree that is returned had room. -/
theorem nesting_le_of_parseTokens (h : parseTokens grammar tokens = .ok e) :
    e.nesting (Level.anyChains grammar.levels) ≤ nestingLimit := by
  have hnone : ¬ NestsTooDeep grammar tokens := by
    rintro ⟨found, hdeep⟩
    rw [h] at hdeep
    cases hdeep
  have hread : ∃ finish, (Plain.readAll grammar tokens).outcome = .ok (e, finish) := by
    rcases parseTokens_cases grammar tokens with ⟨-, -, -, hsame⟩ | ⟨hdeep, -⟩
    · rw [hsame, Plain.parseTokens] at h
      split at h
      · cases h
      · rename_i finish hread
        cases h
        exact ⟨finish, hread⟩
    · exact absurd hdeep hnone
  obtain ⟨finish, hread⟩ := hread
  simpa using (fits_readAll hnone).nesting e finish hread

end Parse

end Formula
