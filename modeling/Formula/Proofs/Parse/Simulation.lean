import Formula.Proofs.Parse.Furthest
import Formula.Proofs.Parse.Soundness

/-!
# The parser with a memo follows the plain one

Every memo entry holds what the plain parser reads for its rule and its token,
and the failures that it would note again are covered by the furthest one so far.
So a run that does not reach the nesting limit agrees with the reading in its
outcome and in its furthest failure, and a run reaches the limit only if the
reading has too many rules active at once.
-/

namespace Formula

namespace Arena

variable {arena later : Arena} {id : NodeId} {e : Expr} {node : Node}

/-- Every node that stands for a tree stands for it in the later arena too. -/
def Extends (arena later : Arena) : Prop :=
  ∀ id e, arena.expr? id = some e → later.expr? id = some e

/-- Every tree is in its own arena. -/
theorem Extends.refl : arena.Extends arena := fun _ _ h => h

/-- What is kept twice is kept. -/
theorem Extends.trans {last : Arena} (h : arena.Extends later) (hlast : later.Extends last) :
    arena.Extends last :=
  fun id e he => hlast id e (h id e he)

/-- A node stays at its number. -/
theorem getElem?_add_of_some (h : arena.nodes[id]? = some node) (other : Node) :
    (arena.add other).nodes[id]? = some node := by
  have hlt : id < arena.nodes.size := (Array.getElem?_eq_some_iff.mp h).1
  rw [add, Array.getElem?_push_lt hlt, ← h, Array.getElem?_eq_getElem hlt]

/-- A number that stands for a tree is the number of a node. -/
theorem lt_size_of_expr? (h : arena.expr? id = some e) : id < arena.size := by
  rw [expr?] at h
  cases hnode : arena.nodes[id]? with
  | none => simp [hnode] at h
  | some node => exact (Array.getElem?_eq_some_iff.mp hnode).1

/-- A new node leaves all trees in place. -/
theorem extends_add (arena : Arena) (node : Node) : arena.Extends (arena.add node) := by
  intro id
  induction id using Nat.strongRecOn with
  | ind id ih =>
    intro e h
    rw [expr?] at h ⊢
    cases hnode : arena.nodes[id]? with
    | none => simp [hnode] at h
    | some old =>
      rw [getElem?_add_of_some hnode]
      rw [hnode] at h
      cases old with
      | literal value => exact h
      | var name => exact h
      | prefixed op operand =>
        by_cases hlt : operand < id
        · simp only [hlt, if_true, Option.map_eq_some_iff] at h ⊢
          obtain ⟨inner, hinner, rfl⟩ := h
          exact ⟨inner, ih operand hlt inner hinner, rfl⟩
        · simp [hlt] at h
      | postfixed operand op =>
        by_cases hlt : operand < id
        · simp only [hlt, if_true, Option.map_eq_some_iff] at h ⊢
          obtain ⟨inner, hinner, rfl⟩ := h
          exact ⟨inner, ih operand hlt inner hinner, rfl⟩
        · simp [hlt] at h
      | binary op left right =>
        by_cases hlt : left < id ∧ right < id
        · simp only [hlt, and_self, dif_pos] at h ⊢
          cases hl : arena.expr? left with
          | none => simp [hl] at h
          | some l =>
            cases hr : arena.expr? right with
            | none => simp [hl, hr] at h
            | some r =>
              rw [ih left hlt.1 l hl, ih right hlt.2 r hr]
              simpa [hl, hr] using h
        · simp [hlt] at h

/-- A new node gets the next number. -/
theorem getElem?_add_size (arena : Arena) (node : Node) :
    (arena.add node).nodes[arena.size]? = some node := by
  simp [add, size]

/-- A new node for a literal stands for it. -/
theorem expr?_add_literal (arena : Arena) (value : Literal) :
    (arena.add (.literal value)).expr? arena.size = some (.literal value) := by
  rw [expr?, getElem?_add_size]

/-- A new node for a variable stands for it. -/
theorem expr?_add_var (arena : Arena) (name : Char) :
    (arena.add (.var name)).expr? arena.size = some (.var name) := by
  rw [expr?, getElem?_add_size]

/-- A new node for a prefix operator stands for its tree above that of the operand. -/
theorem expr?_add_prefixed (h : arena.expr? id = some e) (op : PrefixOp) :
    (arena.add (.prefixed op id)).expr? arena.size = some (.prefixed op e) := by
  rw [expr?, getElem?_add_size]
  simp [lt_size_of_expr? h, arena.extends_add _ id e h]

/-- A new node for a postfix operator stands for its tree above that of the operand. -/
theorem expr?_add_postfixed (h : arena.expr? id = some e) (op : PostfixOp) :
    (arena.add (.postfixed id op)).expr? arena.size = some (.postfixed e op) := by
  rw [expr?, getElem?_add_size]
  simp [lt_size_of_expr? h, arena.extends_add _ id e h]

/-- A new node for a binary operator stands for its tree above those of the operands. -/
theorem expr?_add_binary {other : NodeId} {r : Expr} (h : arena.expr? id = some e)
    (hr : arena.expr? other = some r) (op : BinaryOp) :
    (arena.add (.binary op id other)).expr? arena.size = some (.binary op e r) := by
  rw [expr?, getElem?_add_size]
  simp [lt_size_of_expr? h, lt_size_of_expr? hr, arena.extends_add _ id e h,
    arena.extends_add _ other r hr]

end Arena

namespace ParseState

variable {state : ParseState} {rule : Rule} {position : Nat} {next : Token}

/-- A known outcome is given again. -/
theorem enter_known {outcome : Outcome} (hnone : state.tooDeep = none)
    (hknown : state.memo.outcome? rule position = some outcome) :
    state.enter rule position next =
      .answered outcome { state with memo := state.memo.noteHit rule position } := by
  simp [enter, hnone, hknown]

/-- A rule without a known outcome starts. -/
theorem enter_started (hnone : state.tooDeep = none)
    (hunknown : state.memo.outcome? rule position = none) (hdepth : state.depth < nestingLimit) :
    state.enter rule position next =
      .started { state with
        memo := state.memo.noteMiss rule position, depth := state.depth + 1 } := by
  simp [enter, hnone, hunknown, hdepth]

/-- A rule that would exceed the limit fails for all that follow. -/
theorem enter_limited (hnone : state.tooDeep = none)
    (hunknown : state.memo.outcome? rule position = none) (hdepth : ¬ state.depth < nestingLimit) :
    state.enter rule position next =
      .answered (.error ⟨.tooDeep, next⟩) { state with
        memo := state.memo.noteMiss rule position, tooDeep := some ⟨.tooDeep, next⟩ } := by
  simp [enter, hnone, hunknown, hdepth]

/-- Once the limit was reached every rule fails. -/
theorem enter_of_tooDeep {error : ParseError} (h : state.tooDeep = some error) :
    state.enter rule position next = .answered (.error error) state := by
  simp [enter, h]

/-- What is known behind a rule is the outcome of the rule, or it was known before. -/
theorem outcome?_leave {other : Rule} {place : Nat} {outcome known : Outcome}
    (h : (state.leave rule position outcome).memo.outcome? other place = some known) :
    (rule = other ∧ position = place ∧ outcome = known) ∨
      state.memo.outcome? other place = some known := by
  rw [leave, Memo.outcome?_insert] at h
  split at h
  · rename_i hsame
    exact .inl ⟨hsame.1, hsame.2, Option.some.inj h⟩
  · exact .inr h

end ParseState

namespace Parse

variable {context : ParseContext} {whole tokens behind : List Token} {levels tighter : List Level}
  {level : Level} {start state : ParseState} {outcome : Outcome} {first second : Reading}
  {result : Outcome × ParseState} {e : Expr} {id : NodeId} {position finish : Nat}

/-- An outcome agrees with what was read if its node stands for the tree. -/
def Agrees (arena : Arena) : Outcome → Except ParseError (Expr × Nat) → Prop
  | .ok found, .ok (e, finish) => arena.expr? found.node = some e ∧ found.finish = finish
  | .error error, .error expected => error = expected
  | _, _ => False

/-- An outcome agrees in a later arena too. -/
theorem Agrees.extend {arena later : Arena} {read : Except ParseError (Expr × Nat)}
    (h : Agrees arena outcome read) (hlater : arena.Extends later) : Agrees later outcome read := by
  cases outcome with
  | error error => cases read <;> exact h
  | ok found =>
    cases read with
    | error error => exact h
    | ok pair => exact ⟨hlater _ _ h.1, h.2⟩

/-- What the memo keeps is what the plain parser reads, and the failures that come
with it are covered. -/
def Faithful (context : ParseContext) (whole : List Token) (state : ParseState) : Prop :=
  ∀ levels position outcome, levels <:+ context.levels →
    state.memo.outcome? (.ofLevels levels) position = some outcome →
    Agrees state.arena outcome (Plain.read context levels position (whole.drop position)).outcome ∧
      Covers state.furthest (Plain.read context levels position (whole.drop position)).failures

/-- A run from one state to another one did what the reading tells. -/
structure Follows (context : ParseContext) (whole : List Token) (start : ParseState)
    (reading : Reading) (outcome : Outcome) (state : ParseState) : Prop where
  agrees : Agrees state.arena outcome reading.outcome
  furthest : state.furthest = reading.furthest start.furthest
  arena : start.arena.Extends state.arena
  depth : state.depth = start.depth
  faithful : Faithful context whole state

/-- A run either did what the reading tells, or it was stopped by the limit, and
then the reading has more rules active at once than are left. -/
def Simulates (context : ParseContext) (whole : List Token) (start : ParseState)
    (reading : Reading) (result : Outcome × ParseState) : Prop :=
  (result.2.tooDeep = none ∧ Follows context whole start reading result.1 result.2) ∨
    ((∃ found, result.2.tooDeep = some ⟨.tooDeep, found⟩) ∧
      nestingLimit < start.depth + reading.height)

/-- What follows a run that was stopped is stopped, and what follows another run
goes on from its state. -/
theorem Simulates.before {middle : ParseState}
    (hfirst : Simulates context whole start first (outcome, middle))
    (hstopped : ∀ error, middle.tooDeep = some error → result.2.tooDeep = some error)
    (hsecond : middle.tooDeep = none → Follows context whole start first outcome middle →
      Simulates context whole middle second result) :
    Simulates context whole start (first.before second) result := by
  rcases hfirst with ⟨hnone, hfollows⟩ | ⟨⟨found, hsome⟩, hlimit⟩
  · have hdepth := hfollows.depth
    rcases hsecond hnone hfollows with ⟨hnone', hnext⟩ | ⟨hsome', hlimit'⟩
    · refine .inl ⟨hnone', hnext.agrees, ?_, hfollows.arena.trans hnext.arena, ?_, hnext.faithful⟩
      · rw [hnext.furthest, hfollows.furthest]
        simp [Reading.furthest, Reading.before]
      · rw [hnext.depth, hdepth]
    · refine .inr ⟨hsome', ?_⟩
      simp only at hdepth
      simp only [Reading.before]
      omega
  · refine .inr ⟨⟨found, hstopped _ hsome⟩, ?_⟩
    simp only [Reading.before]
    omega

/-- What goes on from a state where the limit was reached leaves this failure there. -/
def KeepsStop (goOn : ParseState → Outcome × ParseState) : Prop :=
  ∀ state error, state.tooDeep = some error → (goOn state).2.tooDeep = some error

/-- What ends at once leaves the limit reached. -/
theorem keepsStop_end (outcome : Outcome) : KeepsStop fun state => (outcome, state) :=
  fun _ _ hstopped => hstopped

/-- What goes on behind a call that was stopped is stopped. -/
theorem tooDeep_of_called {goOn : Match → ParseState → Outcome × ParseState}
    {instead : ParseError → ParseState → Outcome × ParseState}
    (hgoOn : ∀ found, KeepsStop (goOn found)) (hinstead : ∀ failure, KeepsStop (instead failure))
    (called : Outcome × ParseState) (error : ParseError) :
    called.2.tooDeep = some error → (match called with
      | (.error failure, state) => instead failure state
      | (.ok found, state) => goOn found state : Outcome × ParseState).2.tooDeep = some error := by
  intro hstopped
  obtain ⟨outcome, middle⟩ := called
  cases outcome with
  | error failure => exact hinstead failure middle error hstopped
  | ok found => exact hgoOn found middle error hstopped

/-- Going on behind a call. What goes on has the state that the call left. -/
theorem Simulates.orElse {called : Outcome × ParseState}
    {goOn : Match → ParseState → Outcome × ParseState}
    {instead : ParseError → ParseState → Outcome × ParseState} {next : Expr → Nat → Reading}
    {other : Reading} (hfirst : Simulates context whole start first called)
    (hgoOn : ∀ found, KeepsStop (goOn found)) (hinstead : ∀ failure, KeepsStop (instead failure))
    (hok : ∀ e found state, first.outcome = .ok (e, found.finish) →
      state.arena.expr? found.node = some e → start.arena.Extends state.arena →
      state.tooDeep = none → Faithful context whole state →
      Simulates context whole state (next e found.finish) (goOn found state))
    (herror : ∀ error state, first.outcome = .error error → start.arena.Extends state.arena →
      state.tooDeep = none → Faithful context whole state →
      Simulates context whole state other (instead error state)) :
    Simulates context whole start (first.orElse next other)
      (match called with
        | (.error error, state) => instead error state
        | (.ok found, state) => goOn found state) := by
  have hstopped := tooDeep_of_called hgoOn hinstead called
  obtain ⟨outcome, middle⟩ := called
  cases hread : first.outcome with
  | error error =>
    rw [Reading.orElse_of_error hread]
    apply hfirst.before hstopped
    intro hnone hfollows
    have hagrees := hfollows.agrees
    rw [hread] at hagrees
    cases outcome with
    | error actual =>
      obtain rfl : actual = error := hagrees
      exact herror actual middle hread hfollows.arena hnone hfollows.faithful
    | ok found => exact hagrees.elim
  | ok pair =>
    obtain ⟨e, finish⟩ := pair
    rw [Reading.orElse_of_ok hread]
    apply hfirst.before hstopped
    intro hnone hfollows
    have hagrees := hfollows.agrees
    rw [hread] at hagrees
    cases outcome with
    | error actual => exact hagrees.elim
    | ok found =>
      obtain ⟨hnode, rfl⟩ := hagrees
      exact hok e found middle hread hnode hfollows.arena hnone hfollows.faithful

/-- Going on behind a call whose failure is passed on. -/
theorem Simulates.andThen {called : Outcome × ParseState}
    {goOn : Match → ParseState → Outcome × ParseState} {next : Expr → Nat → Reading}
    (hfirst : Simulates context whole start first called)
    (hgoOn : ∀ found, KeepsStop (goOn found))
    (hok : ∀ e found state, first.outcome = .ok (e, found.finish) →
      state.arena.expr? found.node = some e → start.arena.Extends state.arena →
      state.tooDeep = none → Faithful context whole state →
      Simulates context whole state (next e found.finish) (goOn found state)) :
    Simulates context whole start (first.andThen next)
      (match called with
        | (.error error, state) => (.error error, state)
        | (.ok found, state) => goOn found state) := by
  rw [Reading.andThen_eq_orElse]
  refine hfirst.orElse hgoOn (fun failure => keepsStop_end (.error failure)) hok
    fun error state herror _ hnone hfaithful => ?_
  rw [herror]
  exact .inl ⟨hnone, rfl, rfl, .refl, rfl, hfaithful⟩

/-- New nodes in front of a run are of no account. -/
theorem Simulates.of_add (node : Node)
    (h : Simulates context whole { start with arena := start.arena.add node } first result) :
    Simulates context whole start first result := by
  rcases h with ⟨hnone, hfollows⟩ | hstopped
  · exact .inl ⟨hnone, hfollows.agrees, hfollows.furthest,
      (start.arena.extends_add node).trans hfollows.arena, hfollows.depth, hfollows.faithful⟩
  · exact .inr hstopped

/-- A new node leaves the memo faithful. -/
theorem Faithful.add (h : Faithful context whole state) (node : Node) :
    Faithful context whole { state with arena := state.arena.add node } :=
  fun levels position outcome hlevels houtcome =>
    (h levels position outcome hlevels houtcome).imp_left
      (·.extend (state.arena.extends_add node))

/-- A match that is passed on does what the reading of its tree tells. -/
theorem simulates_found (hnone : start.tooDeep = none) (hfaithful : Faithful context whole start)
    (hnode : start.arena.expr? id = some e) :
    Simulates context whole start (.found e finish) (.ok ⟨id, finish⟩, start) :=
  .inl ⟨hnone, ⟨hnode, rfl⟩, rfl, .refl, rfl, hfaithful⟩

/-- A match of a new node does what the reading of its tree tells. -/
theorem simulates_succeed {node : Node} (hnone : start.tooDeep = none)
    (hfaithful : Faithful context whole start)
    (hnode : (start.arena.add node).expr? start.arena.size = some e) :
    Simulates context whole start (.found e finish) (start.succeed node finish) :=
  .inl ⟨hnone, ⟨hnode, rfl⟩, rfl, start.arena.extends_add node, rfl, hfaithful.add node⟩

/-- A failure does what the reading tells. -/
theorem simulates_fail (hnone : start.tooDeep = none) (hfaithful : Faithful context whole start)
    (what : Expectation) (index : Nat) (token : Token) :
    Simulates context whole start (.fail what index token) (start.fail what index token) := by
  refine .inl ⟨hnone, rfl, rfl, .refl, rfl, fun levels position outcome hlevels houtcome => ?_⟩
  exact (hfaithful levels position outcome hlevels houtcome).imp_right (·.keepFurther _)

/-- Two levels of a table with the same number are the same. -/
theorem eq_of_ofLevels_eq {all other : List Level} (h : levels <:+ all) (hother : other <:+ all)
    (hrule : Rule.ofLevels levels = Rule.ofLevels other) : levels = other := by
  have hlength : levels.length = other.length := by
    cases levels <;> cases other <;> simp_all [Rule.ofLevels]
  exact (List.suffix_of_suffix_length_le h hother (Nat.le_of_eq hlength)).eq_of_length hlength

/-- A rule that ends after its body did what was read does what the plain rule reads. -/
theorem Simulates.leave (hlevels : levels <:+ context.levels)
    (h : Simulates context whole
      { start with
        memo := start.memo.noteMiss (.ofLevels levels) position, depth := start.depth + 1 }
      (Plain.readBody context levels position (whole.drop position)) result) :
    Simulates context whole start (Plain.read context levels position (whole.drop position))
      (result.1, result.2.leave (.ofLevels levels) position result.1) := by
  obtain ⟨outcome, state⟩ := result
  rw [Plain.read]
  rcases h with ⟨hnone, hfollows⟩ | ⟨hsome, hlimit⟩
  · have hdepth : state.depth = start.depth + 1 := hfollows.depth
    refine .inl ⟨hnone, hfollows.agrees, hfollows.furthest, hfollows.arena, ?_, ?_⟩
    · simp only [ParseState.leave, hdepth]
      omega
    · intro levels' position' outcome' hlevels' houtcome'
      rcases ParseState.outcome?_leave houtcome' with ⟨hsame, rfl, rfl⟩ | hbefore
      · obtain rfl := eq_of_ofLevels_eq hlevels hlevels' hsame
        rw [Plain.read]
        refine ⟨hfollows.agrees, ?_⟩
        have hcovers := covers_foldl start.furthest
          (Plain.readBody context levels position (whole.drop position)).failures
        exact (show state.furthest = _ from hfollows.furthest) ▸ hcovers
      · exact hfollows.faithful levels' position' outcome' hlevels' hbefore
  · refine .inr ⟨hsome, ?_⟩
    simp only [Reading.enclosed] at hlimit ⊢
    omega

/-- Once the limit was reached no rule runs. -/
theorem run_of_tooDeep {error : ParseError} (h : state.tooDeep = some error) :
    run context levels position tokens state = (.error error, state) := by
  rw [run, ParseState.enter_of_tooDeep h]

/-- No rule goes on where the limit was reached. -/
theorem keepsStop_run : KeepsStop (run context levels position tokens) := by
  intro state error h
  rwa [run_of_tooDeep h]

/-- Applying postfix operators does not touch the limit. -/
theorem keepsStop_postfixChain (operators : OperatorSet) :
    KeepsStop (postfixChain context operators id position tokens) := by
  intro state error h
  induction tokens generalizing id position state with
  | nil => exact h
  | cons token behind ih =>
    rw [postfixChain]
    split
    · split
      · exact h
      · exact ih _ h
    · exact h

/-- Once the limit was reached a chain of infix operators ends. -/
theorem keepsStop_leftChain (operators : OperatorSet) :
    KeepsStop (leftChain context operators tighter id position tokens) := by
  intro state error h
  cases tokens with
  | nil => rwa [leftChain]
  | cons token behind =>
    rw [leftChain]
    split
    · rwa [run_of_tooDeep h]
    · exact h

/-- No level that groups to the right goes on where the limit was reached. -/
theorem keepsStop_rightOperand :
    KeepsStop (rightOperand context level tighter id position tokens) := by
  intro state error h
  cases tokens with
  | nil => rwa [rightOperand]
  | cons token behind =>
    rw [rightOperand]
    split
    · rwa [run_of_tooDeep h]
    · exact h

/-- Postfix operators are applied alike. -/
theorem simulates_postfixChain (operators : OperatorSet) (hnone : start.tooDeep = none)
    (hfaithful : Faithful context whole start) (hnode : start.arena.expr? id = some e) :
    Simulates context whole start (Plain.postfixChain context operators e position tokens)
      (postfixChain context operators id position tokens start) := by
  induction tokens generalizing id e position start with
  | nil => exact simulates_found hnone hfaithful hnode
  | cons token behind ih =>
    rw [Plain.postfixChain, postfixChain]
    by_cases hcontains : operators.contains token = true
    · simp only [hcontains, if_true]
      cases hop : token.operator?.bind Operator.asPostfix? with
      | none => exact simulates_fail hnone hfaithful _ _ _
      | some op =>
        have hadded := Arena.expr?_add_postfixed hnode op
        exact Simulates.of_add _ (ih hnone (hfaithful.add _) hadded)
    · simp only [hcontains, Bool.false_eq_true, if_false]
      exact simulates_found hnone hfaithful hnode

/-- All calls with fewer tokens do what the plain parser reads. -/
def SimulatedBelow (context : ParseContext) (whole : List Token) (bound : Nat) : Prop :=
  ∀ levels position start, levels <:+ context.levels → (whole.drop position).length < bound →
    start.tooDeep = none → Faithful context whole start →
    Simulates context whole start (Plain.read context levels position (whole.drop position))
      (run context levels position (whole.drop position) start)

variable {token : Token} {bound : Nat}

/-- The tokens behind the first one. -/
theorem eq_drop_of_cons (h : whole.drop position = token :: behind) :
    behind = whole.drop (position + 1) := by
  rw [← List.drop_drop, h, List.drop_one, List.tail_cons]

/-- The tokens behind a match are those from its end on. -/
theorem tokensFrom_drop (h : position ≤ finish) :
    tokensFrom (whole.drop position) position finish = whole.drop finish := by
  rw [tokensFrom, List.drop_drop]
  congr 1
  omega

/-- An infix operator is applied alike to an operand of its level. -/
theorem simulates_rightOperand (ih : SimulatedBelow context whole bound)
    (hlevels : level :: tighter <:+ context.levels) (hbound : (whole.drop position).length ≤ bound)
    (hnone : start.tooDeep = none) (hfaithful : Faithful context whole start)
    (hnode : start.arena.expr? id = some e) :
    Simulates context whole start
      (Plain.rightOperand context level tighter e position (whole.drop position))
      (rightOperand context level tighter id position (whole.drop position) start) := by
  cases htokens : whole.drop position with
  | nil =>
    rw [Plain.rightOperand, rightOperand]
    exact simulates_found hnone hfaithful hnode
  | cons token behind =>
    obtain rfl := eq_drop_of_cons htokens
    rw [Plain.rightOperand, rightOperand]
    by_cases hcontains : level.operators.contains token = true
    · simp only [hcontains, if_true]
      have hlength : (whole.drop (position + 1)).length < (whole.drop position).length := by
        simp [htokens]
      have hright := ih (level :: tighter) (position + 1) start hlevels (by omega) hnone hfaithful
      apply hright.orElse
      · intro right state error hstopped
        cases hop : token.operator?.bind Operator.asBinary? <;> exact hstopped
      · exact fun _ => keepsStop_end _
      · intro r right middle hok hr hextends hnone' hfaithful'
        cases hop : token.operator?.bind Operator.asBinary? with
        | none => exact simulates_fail hnone' hfaithful' _ _ _
        | some op =>
          exact simulates_succeed hnone' hfaithful'
            (Arena.expr?_add_binary (hextends _ _ hnode) hr op)
      · intro _ middle _ hextends hnone' hfaithful'
        exact simulates_found hnone' hfaithful' (hextends _ _ hnode)
    · simp only [hcontains, Bool.false_eq_true, if_false]
      exact simulates_found hnone hfaithful hnode

/-- A prefix operator is applied alike, or the operand is read alike in its place. -/
theorem simulates_prefixed (ih : SimulatedBelow context whole (whole.drop position).length)
    (hlevels : level :: tighter <:+ context.levels) (hnone : start.tooDeep = none)
    (hfaithful : Faithful context whole start)
    (hoperand : ∀ start, start.tooDeep = none → Faithful context whole start →
      Simulates context whole start (Plain.read context tighter position (whole.drop position))
        (run context tighter position (whole.drop position) start)) :
    Simulates context whole start
      (Plain.prefixed context level tighter position (whole.drop position))
      (prefixed context level tighter position (whole.drop position) start) := by
  cases htokens : whole.drop position with
  | nil =>
    rw [Plain.prefixed, prefixed, ← htokens]
    exact hoperand start hnone hfaithful
  | cons token behind =>
    rw [Plain.prefixed, prefixed, ← htokens]
    by_cases hcontains : level.operators.contains token = true
    · obtain rfl := eq_drop_of_cons htokens
      simp only [hcontains, if_true]
      have hinner := ih (level :: tighter) (position + 1) start hlevels (by simp [htokens]) hnone
        hfaithful
      apply hinner.orElse
      · intro operand state error hstopped
        cases hop : level.operators.prefixOp? token <;> exact hstopped
      · exact fun _ => keepsStop_run
      · intro r operand middle hok hr hextends hnone' hfaithful'
        cases hop : level.operators.prefixOp? token with
        | none => exact simulates_fail hnone' hfaithful' _ _ _
        | some op => exact simulates_succeed hnone' hfaithful' (Arena.expr?_add_prefixed hr op)
      · intro _ middle _ hextends hnone' hfaithful'
        exact hoperand middle hnone' hfaithful'
    · simp only [hcontains, Bool.false_eq_true, if_false]
      exact hoperand start hnone hfaithful

/-- Primaries are read alike. -/
theorem simulates_primary (ih : SimulatedBelow context whole (whole.drop position).length)
    (hnone : start.tooDeep = none) (hfaithful : Faithful context whole start) :
    Simulates context whole start (Plain.primary context position (whole.drop position))
      (primary context position (whole.drop position) start) := by
  cases htokens : whole.drop position with
  | nil =>
    rw [Plain.primary, primary]
    exact simulates_fail hnone hfaithful _ _ _
  | cons token behind =>
    obtain rfl := eq_drop_of_cons htokens
    rw [Plain.primary, primary]
    cases hkind : token.kind with
    | leftParen =>
      have hinner := ih context.levels (position + 1) start List.suffix_rfl (by simp [htokens])
        hnone hfaithful
      apply hinner.andThen
      · intro body state error hstopped
        simp only
        split <;> exact hstopped
      · intro r body middle hok hr hextends hnone' hfaithful'
        simp only
        split
        · exact simulates_found hnone' hfaithful' hr
        · exact simulates_fail hnone' hfaithful' _ _ _
    | integer =>
      cases hvalue : token.literal? with
      | none => exact simulates_fail hnone hfaithful _ _ _
      | some value => exact simulates_succeed hnone hfaithful (Arena.expr?_add_literal _ value)
    | real =>
      cases hvalue : token.literal? with
      | none => exact simulates_fail hnone hfaithful _ _ _
      | some value => exact simulates_succeed hnone hfaithful (Arena.expr?_add_literal _ value)
    | letter =>
      cases htext : token.text.toList with
      | nil => exact simulates_fail hnone hfaithful _ _ _
      | cons name others => exact simulates_succeed hnone hfaithful (Arena.expr?_add_var _ name)
    | _ => exact simulates_fail hnone hfaithful _ _ _

section

variable (hall : ∀ l ∈ context.levels, l.Valid) (hending : context.ending.isEnding)
include hall hending

/-- What levels read ends behind its first token. -/
theorem lt_of_read (hlevels : levels <:+ context.levels)
    (h : (Plain.read context levels position tokens).outcome = .ok (e, finish)) :
    position < finish := by
  have hsound := Plain.sound_read hall hending (fun l hl => hall l (hlevels.mem hl)) position tokens
  obtain ⟨eaten, rest, -, rfl, ⟨derivation⟩⟩ := hsound.tree e finish h
  have hpos := List.length_pos_iff.mpr derivation.tokens_ne_nil
  simp only [List.nil_append] at hpos
  omega

/-- Infix operators are applied alike from left to right. -/
theorem simulates_leftChain (operators : OperatorSet) (ih : SimulatedBelow context whole bound)
    (hlevels : tighter <:+ context.levels) (hbound : (whole.drop position).length ≤ bound)
    (hnone : start.tooDeep = none) (hfaithful : Faithful context whole start)
    (hnode : start.arena.expr? id = some e) :
    Simulates context whole start
      (Plain.leftChain context operators tighter e position (whole.drop position))
      (leftChain context operators tighter id position (whole.drop position) start) := by
  induction hn : (whole.drop position).length using Nat.strongRecOn
    generalizing id e position start with
  | ind n chained =>
    cases htokens : whole.drop position with
    | nil =>
      rw [Plain.leftChain, leftChain]
      exact simulates_found hnone hfaithful hnode
    | cons token behind =>
      obtain rfl := eq_drop_of_cons htokens
      rw [Plain.leftChain, leftChain]
      by_cases hcontains : operators.contains token = true
      · simp only [hcontains, if_true]
        have hlength : (whole.drop (position + 1)).length < (whole.drop position).length := by
          simp [htokens]
        have hright := ih tighter (position + 1) start hlevels (by omega) hnone hfaithful
        apply hright.orElse
        · intro right state error hstopped
          cases hop : token.operator?.bind Operator.asBinary? with
          | none => exact hstopped
          | some op => exact keepsStop_leftChain operators _ error hstopped
        · exact fun _ => keepsStop_end _
        · intro r right middle hok hr hextends hnone' hfaithful'
          have hlt := lt_of_read hall hending hlevels hok
          cases hop : token.operator?.bind Operator.asBinary? with
          | none => exact simulates_fail hnone' hfaithful' _ _ _
          | some op =>
            have hrest : (whole.drop right.finish).length < (whole.drop position).length := by
              simp only [List.length_drop] at hlength ⊢
              omega
            have hadded := Arena.expr?_add_binary (hextends _ _ hnode) hr op
            simp only [tokensFrom_drop (Nat.le_of_lt hlt)]
            exact Simulates.of_add (.binary op id right.node)
              (chained _ (by omega) (by omega) hnone' (hfaithful'.add _) hadded rfl)
        · intro _ middle _ hextends hnone' hfaithful'
          exact simulates_found hnone' hfaithful' (hextends _ _ hnode)
      · simp only [hcontains, Bool.false_eq_true, if_false]
        exact simulates_found hnone hfaithful hnode

/-- The body of a rule does what the plain body reads if the calls it makes do. -/
theorem simulates_expand (ih : SimulatedBelow context whole (whole.drop position).length)
    (hlevels : levels <:+ context.levels) (hnone : start.tooDeep = none)
    (hfaithful : Faithful context whole start)
    (hoperand : ∀ level tighter, levels = level :: tighter → ∀ start, start.tooDeep = none →
      Faithful context whole start →
      Simulates context whole start (Plain.read context tighter position (whole.drop position))
        (run context tighter position (whole.drop position) start)) :
    Simulates context whole start (Plain.readBody context levels position (whole.drop position))
      (expand context levels position (whole.drop position) start) := by
  match levels with
  | [] =>
    rw [Plain.readBody, expand]
    exact simulates_primary ih hnone hfaithful
  | level :: tighter =>
    have htail : tighter <:+ context.levels := (List.suffix_cons level tighter).trans hlevels
    have hfirst := hoperand level tighter rfl start hnone hfaithful
    rw [Plain.readBody, expand]
    cases hfixity : level.fixity with
    | prefixOp =>
      exact simulates_prefixed ih hlevels hnone hfaithful
        (hoperand level tighter rfl)
    | postfixOp =>
      apply hfirst.andThen (fun operand => keepsStop_postfixChain _)
      intro e operand middle hok hr hextends hnone' hfaithful'
      exact simulates_postfixChain _ hnone' hfaithful' hr
    | infixOp side =>
      cases side with
      | left =>
        apply hfirst.andThen (fun left => keepsStop_leftChain _)
        intro e left middle hok hr hextends hnone' hfaithful'
        have hlt := lt_of_read hall hending htail hok
        simp only [tokensFrom_drop (Nat.le_of_lt hlt)]
        exact simulates_leftChain hall hending _ ih htail (by simp; omega) hnone' hfaithful' hr
      | right =>
        apply hfirst.andThen (fun left => keepsStop_rightOperand)
        intro e left middle hok hr hextends hnone' hfaithful'
        have hlt := lt_of_read hall hending htail hok
        simp only [tokensFrom_drop (Nat.le_of_lt hlt)]
        exact simulates_rightOperand ih hlevels (by simp; omega) hnone' hfaithful' hr

/-- A rule called through the memo does what the plain rule reads. -/
theorem simulates_run (position : Nat) (hlevels : levels <:+ context.levels)
    (hnone : start.tooDeep = none) (hfaithful : Faithful context whole start) :
    Simulates context whole start (Plain.read context levels position (whole.drop position))
      (run context levels position (whole.drop position) start) := by
  induction levels, hdrop : whole.drop position using rule_induction
    generalizing position start with
  | step levels tokens ih =>
    subst hdrop
    have hbelow : SimulatedBelow context whole (whole.drop position).length :=
      fun levels' position' start' hlevels' hless hnone' hfaithful' =>
        ih levels' _ (.inl hless) position' hlevels' hnone' hfaithful' rfl
    have hoperand : ∀ level tighter, levels = level :: tighter → ∀ start, start.tooDeep = none →
        Faithful context whole start →
        Simulates context whole start (Plain.read context tighter position (whole.drop position))
          (run context tighter position (whole.drop position) start) := by
      rintro level tighter rfl start' hnone' hfaithful'
      exact ih tighter _ (.inr ⟨rfl, Nat.lt_succ_self _⟩) position
        ((List.suffix_cons level tighter).trans hlevels) hnone' hfaithful' rfl
    rw [run]
    cases hknown : start.memo.outcome? (.ofLevels levels) position with
    | some outcome =>
      rw [ParseState.enter_known hnone hknown]
      obtain ⟨hagrees, hcovers⟩ := hfaithful levels position outcome hlevels hknown
      exact .inl ⟨hnone, hagrees, hcovers.foldl_eq.symm, .refl, rfl, hfaithful⟩
    | none =>
      by_cases hdepth : start.depth < nestingLimit
      · rw [ParseState.enter_started hnone hknown hdepth]
        let started : ParseState := { start with
          memo := start.memo.noteMiss (.ofLevels levels) position, depth := start.depth + 1 }
        have hstarted : started.tooDeep = none := hnone
        have hexpand := simulates_expand hall hending hbelow hlevels hstarted hfaithful hoperand
        exact hexpand.leave hlevels
      · rw [ParseState.enter_limited hnone hknown hdepth]
        refine .inr ⟨⟨_, rfl⟩, ?_⟩
        rw [Plain.read]
        simp only [Reading.enclosed]
        omega

end

end Parse

end Formula
