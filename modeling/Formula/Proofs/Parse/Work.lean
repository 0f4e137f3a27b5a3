import Formula.Proofs.Parse.Simulation

/-!
# The work of a run

A run is a tree of calls. What it looks up and keeps in the memo and which nodes it makes
follows from the shape of this tree, whatever the failures are that are noted on the way.
The relation below lists how the calls of a rule, of its body, and of what a level does
behind an operand are put together. It leaves out what no count depends on, and so admits
more than the parser does; every run is among what it admits.
-/

namespace Formula

namespace Parse

/-- A piece of the work of a run. -/
inductive Task where
  /-- The call of the rule of the first level at a token. -/
  | call (levels : List Level) (position : Nat)
  /-- The body of this rule. -/
  | body (levels : List Level) (position : Nat)
  /-- What a level does behind an operand. -/
  | onward (level : Level) (tighter : List Level) (operand : Match)

/-- The least index at which a task can end with a match. -/
def Task.least : Task → Nat
  | .call _ position => position + 1
  | .body _ position => position + 1
  | .onward _ _ operand => operand.finish

variable {context : ParseContext} {whole : List Token}

/-- A task that begins in a state ends with an outcome in another one. -/
inductive Performs (context : ParseContext) (whole : List Token) :
    Task → ParseState → Outcome → ParseState → Prop
  /-- No rule is called once the limit was reached. -/
  | stopped {levels : List Level} {position : Nat} {start : ParseState} {error : ParseError}
    (hsome : start.tooDeep = some error) :
    Performs context whole (.call levels position) start (.error error) start
  /-- A known outcome is given again. -/
  | known {levels : List Level} {position : Nat} {start : ParseState} {outcome : Outcome}
    (hnone : start.tooDeep = none)
    (hknown : start.memo.outcome? (.ofLevels levels) position = some outcome) :
    Performs context whole (.call levels position) start outcome
      { start with memo := start.memo.noteHit (.ofLevels levels) position }
  /-- A rule would exceed the limit. -/
  | limited {levels : List Level} {position : Nat} {start : ParseState} {error : ParseError}
    (hlevels : levels <:+ context.levels) (hposition : position ≤ whole.length)
    (hnone : start.tooDeep = none)
    (hunknown : start.memo.outcome? (.ofLevels levels) position = none) :
    Performs context whole (.call levels position) start (.error error)
      { start with
        memo := start.memo.noteMiss (.ofLevels levels) position, tooDeep := some error }
  /-- A rule is run. -/
  | started {levels : List Level} {position depth : Nat} {start finish : ParseState}
    {outcome : Outcome} (hlevels : levels <:+ context.levels) (hposition : position ≤ whole.length)
    (hnone : start.tooDeep = none)
    (hunknown : start.memo.outcome? (.ofLevels levels) position = none)
    (hleast : ∀ found, outcome = .ok found → position < found.finish)
    (body : Performs context whole (.body levels position)
      { start with memo := start.memo.noteMiss (.ofLevels levels) position, depth := depth }
      outcome finish) :
    Performs context whole (.call levels position) start outcome
      (finish.leave (.ofLevels levels) position outcome)
  /-- There is no primary at the token. -/
  | failed {position : Nat} {start : ParseState} {error : ParseError} {log : FailureLog} :
    Performs context whole (.body [] position) start (.error error) { start with failures := log }
  /-- A number or a variable. -/
  | leaf {position : Nat} {start : ParseState} {token : Token} {node : Node}
    (htoken : whole[position]? = some token)
    (hkind : token.kind = .integer ∨ token.kind = .real ∨ token.kind = .letter) :
    Performs context whole (.body [] position) start (.ok ⟨start.arena.size, position + 1⟩)
      { start with arena := start.arena.add node }
  /-- A formula in parentheses. -/
  | paren {position : Nat} {start finish : ParseState} {opening closing : Token} {inner : Match}
    (hopening : whole[position]? = some opening) (hopens : opening.kind = .leftParen)
    (body : Performs context whole (.call context.levels (position + 1)) start (.ok inner) finish)
    (hlt : position + 1 < inner.finish)
    (hclosing : whole[inner.finish]? = some closing) (hcloses : closing.kind = .rightParen) :
    Performs context whole (.body [] position) start (.ok ⟨inner.node, inner.finish + 1⟩) finish
  /-- A parenthesis without a formula behind it, or one that is not closed. -/
  | unclosed {position : Nat} {start middle : ParseState} {opening : Token} {outcome : Outcome}
    {error : ParseError} {log : FailureLog}
    (hopening : whole[position]? = some opening) (hopens : opening.kind = .leftParen)
    (body : Performs context whole (.call context.levels (position + 1)) start outcome middle) :
    Performs context whole (.body [] position) start (.error error)
      { middle with failures := log }
  /-- A prefix operator with its operand. -/
  | prefixed {level : Level} {tighter : List Level} {position : Nat} {start middle : ParseState}
    {token : Token} {operand : Match} {node : Node}
    (hfixity : level.fixity = .prefixOp) (htoken : whole[position]? = some token)
    (hcontains : level.operators.contains token)
    (inner : Performs context whole (.call (level :: tighter) (position + 1)) start (.ok operand)
      middle) (hlt : position + 1 < operand.finish) :
    Performs context whole (.body (level :: tighter) position) start
      (.ok ⟨middle.arena.size, operand.finish⟩) { middle with arena := middle.arena.add node }
  /-- An operand in place of a prefix operator that has none. -/
  | fallback {level : Level} {tighter : List Level} {position : Nat}
    {start middle finish : ParseState} {token : Token} {error : ParseError} {outcome : Outcome}
    (hlevels : level :: tighter <:+ context.levels)
    (hfixity : level.fixity = .prefixOp) (htoken : whole[position]? = some token)
    (hcontains : level.operators.contains token)
    (attempt : Performs context whole (.call (level :: tighter) (position + 1)) start
      (.error error) middle)
    (operand : Performs context whole (.call tighter position) middle outcome finish) :
    Performs context whole (.body (level :: tighter) position) start outcome finish
  /-- What the tighter levels read. -/
  | passed {level : Level} {tighter : List Level} {position : Nat} {start finish : ParseState}
    {outcome : Outcome}
    (operand : Performs context whole (.call tighter position) start outcome finish) :
    Performs context whole (.body (level :: tighter) position) start outcome finish
  /-- An operand and what is behind it. -/
  | operand {level : Level} {tighter : List Level} {position : Nat}
    {start middle finish : ParseState} {found : Match} {outcome : Outcome}
    (first : Performs context whole (.call tighter position) start (.ok found) middle)
    (hlt : position < found.finish)
    (rest : Performs context whole (.onward level tighter found) middle outcome finish) :
    Performs context whole (.body (level :: tighter) position) start outcome finish
  /-- Nothing more of the level. -/
  | ends {level : Level} {tighter : List Level} {start : ParseState} {found : Match} :
    Performs context whole (.onward level tighter found) start (.ok found) start
  /-- A postfix operator, and what is behind it. -/
  | postfixed {level : Level} {tighter : List Level} {start finish : ParseState} {found : Match}
    {token : Token} {op : PostfixOp} {node : Node} {outcome : Outcome}
    (hlevels : level :: tighter <:+ context.levels)
    (hfixity : level.fixity ≠ .prefixOp) (htoken : whole[found.finish]? = some token)
    (hcontains : level.operators.contains token)
    (hop : token.operator?.bind Operator.asPostfix? = some op)
    (rest : Performs context whole (.onward level tighter ⟨start.arena.size, found.finish + 1⟩)
      { start with arena := start.arena.add node } outcome finish) :
    Performs context whole (.onward level tighter found) start outcome finish
  /-- An infix operator with an operand of the tighter levels, and what is behind it. -/
  | left {level : Level} {tighter : List Level} {start middle finish : ParseState}
    {found right : Match} {token : Token} {op : BinaryOp} {node : Node} {outcome : Outcome}
    (hlevels : level :: tighter <:+ context.levels)
    (hfixity : level.fixity ≠ .prefixOp) (htoken : whole[found.finish]? = some token)
    (hcontains : level.operators.contains token)
    (hop : token.operator?.bind Operator.asBinary? = some op)
    (second : Performs context whole (.call tighter (found.finish + 1)) start (.ok right) middle)
    (hlt : found.finish + 1 < right.finish)
    (rest : Performs context whole (.onward level tighter ⟨middle.arena.size, right.finish⟩)
      { middle with arena := middle.arena.add node } outcome finish) :
    Performs context whole (.onward level tighter found) start outcome finish
  /-- An infix operator with an operand of its own level. -/
  | right {level : Level} {tighter : List Level} {start middle : ParseState}
    {found right : Match} {token : Token} {op : BinaryOp} {node : Node}
    (hlevels : level :: tighter <:+ context.levels)
    (hfixity : level.fixity ≠ .prefixOp) (htoken : whole[found.finish]? = some token)
    (hcontains : level.operators.contains token)
    (hop : token.operator?.bind Operator.asBinary? = some op)
    (second : Performs context whole (.call (level :: tighter) (found.finish + 1)) start
      (.ok right) middle) (hlt : found.finish + 1 < right.finish) :
    Performs context whole (.onward level tighter found) start
      (.ok ⟨middle.arena.size, right.finish⟩) { middle with arena := middle.arena.add node }
  /-- An infix operator without a second operand is not consumed. -/
  | givenBack {level : Level} {tighter levels : List Level} {start middle : ParseState}
    {found : Match} {token : Token} {op : BinaryOp} {error : ParseError}
    (hlevels : level :: tighter <:+ context.levels) (hsuffix : levels <:+ level :: tighter)
    (hfixity : level.fixity ≠ .prefixOp) (htoken : whole[found.finish]? = some token)
    (hcontains : level.operators.contains token)
    (hop : token.operator?.bind Operator.asBinary? = some op)
    (second : Performs context whole (.call levels (found.finish + 1)) start (.error error)
      middle) :
    Performs context whole (.onward level tighter found) start (.ok found) middle

/-- Every match that is known ends behind its first token. -/
def Forward (state : ParseState) : Prop :=
  ∀ rule position found, state.memo.outcome? rule position = some (.ok found) →
    position < found.finish

/-- A task is performed, and its match ends where it can. -/
structure Traced (context : ParseContext) (whole : List Token) (task : Task) (start : ParseState)
    (result : Outcome × ParseState) : Prop where
  performs : Performs context whole task start result.1 result.2
  forward : Forward result.2
  least : ∀ found, result.1 = .ok found → task.least ≤ found.finish

variable {levels tighter : List Level} {level : Level} {position bound : Nat}
  {start middle : ParseState} {token : Token} {behind : List Token} {id : NodeId}
  {outcome : Outcome} {found : Match} {error : ParseError}

/-- The first token from an index on is the one at the index. -/
theorem getElem?_of_drop (h : whole.drop position = token :: behind) :
    whole[position]? = some token := by
  rw [← List.head?_drop, h, List.head?_cons]

/-- What is kept of a rule that was run is no exception. -/
theorem Forward.leave (hforward : Forward start) (rule : Rule)
    (h : ∀ found, outcome = .ok found → position < found.finish) :
    Forward (start.leave rule position outcome) := by
  intro other place found hfound
  rcases ParseState.outcome?_leave hfound with ⟨-, rfl, hok⟩ | hbefore
  · exact h found hok
  · exact hforward other place found hbefore

/-- A rule is performed if its body is. -/
theorem traced_run (hlevels : levels <:+ context.levels) (hposition : position ≤ whole.length)
    (hforward : Forward start)
    (hbody : ∀ entered, Forward entered → Traced context whole (.body levels position) entered
      (expand context levels position (whole.drop position) entered)) :
    Traced context whole (.call levels position) start
      (run context levels position (whole.drop position) start) := by
  rw [run]
  cases htooDeep : start.tooDeep with
  | some error =>
    rw [ParseState.enter_of_tooDeep htooDeep]
    exact ⟨.stopped htooDeep, hforward, by simp⟩
  | none =>
    cases hknown : start.memo.outcome? (.ofLevels levels) position with
    | some outcome =>
      rw [ParseState.enter_known htooDeep hknown]
      refine ⟨.known htooDeep hknown, hforward, ?_⟩
      rintro found rfl
      exact hforward _ _ _ hknown
    | none =>
      by_cases hdepth : start.depth < nestingLimit
      · rw [ParseState.enter_started htooDeep hknown hdepth]
        obtain ⟨hperforms, hkept, hleast⟩ := hbody { start with
          memo := start.memo.noteMiss (.ofLevels levels) position,
          depth := start.depth + 1 } hforward
        exact ⟨.started hlevels hposition htooDeep hknown hleast hperforms, hkept.leave _ hleast,
          hleast⟩
      · rw [ParseState.enter_limited htooDeep hknown hdepth]
        exact ⟨.limited hlevels hposition htooDeep hknown, hforward, by simp⟩

/-- A level that does not go on ends with its operand. -/
theorem traced_ends (hforward : Forward start) (found : Match) :
    Traced context whole (.onward level tighter found) start (.ok found, start) := by
  refine ⟨.ends, hforward, ?_⟩
  rintro _ ⟨⟩
  exact Nat.le_refl _

/-- Postfix operators are applied as long as there are any. -/
theorem traced_postfixChain (hvalid : level.Valid) (hfixity : level.fixity = .postfixOp)
    (hlevels : level :: tighter <:+ context.levels) (hforward : Forward start) :
    Traced context whole (.onward level tighter ⟨id, position⟩) start
      (postfixChain context level.operators id position (whole.drop position) start) := by
  induction hn : (whole.drop position).length using Nat.strongRecOn
    generalizing id position start with
  | ind n chained =>
    cases htokens : whole.drop position with
    | nil => exact traced_ends hforward _
    | cons token behind =>
      obtain rfl := eq_drop_of_cons htokens
      rw [postfixChain]
      by_cases hcontains : level.operators.contains token = true
      · obtain ⟨op, hop⟩ := hvalid.postfix_of_contains hfixity hcontains
        simp only [hcontains, if_true, hop]
        have hless : (whole.drop (position + 1)).length < n := by
          rw [← hn, htokens]
          exact Nat.lt_succ_self _
        have hrest : Traced context whole (.onward level tighter ⟨start.arena.size, position + 1⟩)
            { start with arena := start.arena.add (.postfixed id op) }
            (postfixChain context level.operators start.arena.size (position + 1)
              (whole.drop (position + 1))
              { start with arena := start.arena.add (.postfixed id op) }) :=
          chained _ hless hforward rfl
        obtain ⟨hperforms, hkept, hleast⟩ := hrest
        refine ⟨.postfixed hlevels (by simp [hfixity]) (getElem?_of_drop htokens) hcontains hop
          hperforms, hkept, ?_⟩
        intro found hfound
        exact Nat.le_of_succ_le (hleast found hfound)
      · simp only [hcontains, Bool.false_eq_true, if_false]
        exact traced_ends hforward _

/-- All calls with fewer tokens are performed. -/
def TracedBelow (context : ParseContext) (whole : List Token) (bound : Nat) : Prop :=
  ∀ levels position start, levels <:+ context.levels → position ≤ whole.length →
    (whole.drop position).length < bound → Forward start →
    Traced context whole (.call levels position) start
      (run context levels position (whole.drop position) start)

/-- Whatever is called behind the first of the tokens is performed. -/
theorem TracedBelow.next (ih : TracedBelow context whole bound)
    (hbound : (whole.drop position).length ≤ bound)
    (htokens : whole.drop position = token :: behind) (hlevels : levels <:+ context.levels)
    (hforward : Forward start) :
    Traced context whole (.call levels (position + 1)) start
      (run context levels (position + 1) (whole.drop (position + 1)) start) := by
  have hlt := (List.getElem?_eq_some_iff.mp (getElem?_of_drop htokens)).1
  rw [List.length_drop] at hbound
  exact ih levels (position + 1) start hlevels hlt (by rw [List.length_drop]; omega) hforward

/-- Infix operators are applied from left to right as long as there are any. -/
theorem traced_leftChain (hvalid : level.Valid) (hfixity : level.fixity = .infixOp .left)
    (hlevels : level :: tighter <:+ context.levels) (ih : TracedBelow context whole bound)
    (hbound : (whole.drop position).length ≤ bound) (hforward : Forward start) :
    Traced context whole (.onward level tighter ⟨id, position⟩) start
      (leftChain context level.operators tighter id position (whole.drop position) start) := by
  induction hn : (whole.drop position).length using Nat.strongRecOn
    generalizing id position start with
  | ind n chained =>
    cases htokens : whole.drop position with
    | nil =>
      rw [leftChain]
      exact traced_ends hforward _
    | cons token behind =>
      obtain rfl := eq_drop_of_cons htokens
      rw [leftChain]
      by_cases hcontains : level.operators.contains token = true
      · obtain ⟨op, hop⟩ := hvalid.binary_of_contains hfixity hcontains
        have htoken := getElem?_of_drop htokens
        have hbehind : level.fixity ≠ .prefixOp := by simp [hfixity]
        obtain ⟨hperforms, hkept, hleast⟩ := ih.next hbound htokens
          ((List.suffix_cons level tighter).trans hlevels) hforward
        simp only [hcontains, if_true, hop]
        generalize run context tighter (position + 1) (whole.drop (position + 1)) start = called
          at hperforms hkept hleast
        obtain ⟨outcome, middle⟩ := called
        cases outcome with
        | error error =>
          exact ⟨.givenBack hlevels (List.suffix_cons level tighter) hbehind htoken hcontains hop
            hperforms, hkept, by rintro _ ⟨⟩; exact Nat.le_refl _⟩
        | ok right =>
          have hlt : position + 1 < right.finish := hleast right rfl
          have hless : (whole.drop right.finish).length < n := by
            have hlength := congrArg List.length htokens
            rw [List.length_cons, List.length_drop] at hlength
            rw [List.length_drop] at hn ⊢
            omega
          have hrest : Traced context whole
              (.onward level tighter ⟨middle.arena.size, right.finish⟩)
              { middle with arena := middle.arena.add (.binary op id right.node) }
              (leftChain context level.operators tighter middle.arena.size right.finish
                (whole.drop right.finish)
                { middle with arena := middle.arena.add (.binary op id right.node) }) :=
            chained _ hless (by omega) hkept rfl
          obtain ⟨hgoes, hends, hlast⟩ := hrest
          simp only [tokensFrom_drop (Nat.le_of_lt hlt)]
          refine ⟨.left hlevels hbehind htoken hcontains hop hperforms hlt hgoes, hends, ?_⟩
          intro found hfound
          have hfinish : right.finish ≤ found.finish := hlast found hfound
          simp only [Task.least]
          omega
      · simp only [hcontains, Bool.false_eq_true, if_false]
        exact traced_ends hforward _

/-- An infix operator is applied to an operand of its level, if there is one. -/
theorem traced_rightOperand (hvalid : level.Valid) (hfixity : level.fixity = .infixOp .right)
    (hlevels : level :: tighter <:+ context.levels) (ih : TracedBelow context whole bound)
    (hbound : (whole.drop position).length ≤ bound) (hforward : Forward start) :
    Traced context whole (.onward level tighter ⟨id, position⟩) start
      (rightOperand context level tighter id position (whole.drop position) start) := by
  cases htokens : whole.drop position with
  | nil =>
    rw [rightOperand]
    exact traced_ends hforward _
  | cons token behind =>
    obtain rfl := eq_drop_of_cons htokens
    rw [rightOperand]
    by_cases hcontains : level.operators.contains token = true
    · obtain ⟨op, hop⟩ := hvalid.binary_of_contains hfixity hcontains
      have htoken := getElem?_of_drop htokens
      have hbehind : level.fixity ≠ .prefixOp := by simp [hfixity]
      obtain ⟨hperforms, hkept, hleast⟩ := ih.next hbound htokens hlevels hforward
      simp only [hcontains, if_true, hop]
      generalize run context (level :: tighter) (position + 1) (whole.drop (position + 1)) start
        = called at hperforms hkept hleast
      obtain ⟨outcome, middle⟩ := called
      cases outcome with
      | error error =>
        exact ⟨.givenBack hlevels List.suffix_rfl hbehind htoken hcontains hop hperforms, hkept,
          by rintro _ ⟨⟩; exact Nat.le_refl _⟩
      | ok right =>
        have hlt : position + 1 < right.finish := hleast right rfl
        refine ⟨.right hlevels hbehind htoken hcontains hop hperforms hlt, hkept, ?_⟩
        rintro _ ⟨⟩
        exact Nat.le_of_lt (Nat.lt_of_succ_lt hlt)
    · simp only [hcontains, Bool.false_eq_true, if_false]
      exact traced_ends hforward _

/-- A prefix operator is applied to an operand of its level, or else an operand of the
tighter levels is read. -/
theorem traced_prefixed (hvalid : level.Valid) (hfixity : level.fixity = .prefixOp)
    (hlevels : level :: tighter <:+ context.levels)
    (ih : TracedBelow context whole (whole.drop position).length) (hforward : Forward start)
    (hoperand : ∀ state, Forward state → Traced context whole (.call tighter position) state
      (run context tighter position (whole.drop position) state)) :
    Traced context whole (.body (level :: tighter) position) start
      (prefixed context level tighter position (whole.drop position) start) := by
  have hpassed : Traced context whole (.body (level :: tighter) position) start
      (run context tighter position (whole.drop position) start) := by
    obtain ⟨hperforms, hkept, hleast⟩ := hoperand start hforward
    exact ⟨.passed hperforms, hkept, hleast⟩
  cases htokens : whole.drop position with
  | nil =>
    rw [prefixed, ← htokens]
    exact hpassed
  | cons token behind =>
    rw [prefixed, ← htokens]
    by_cases hcontains : level.operators.contains token = true
    · obtain ⟨op, hop, -⟩ := hvalid.prefixOp?_of_contains hfixity hcontains
      have htoken := getElem?_of_drop htokens
      obtain rfl := eq_drop_of_cons htokens
      obtain ⟨hperforms, hkept, hleast⟩ := ih.next (Nat.le_refl _) htokens hlevels hforward
      simp only [hcontains, if_true, hop]
      generalize run context (level :: tighter) (position + 1) (whole.drop (position + 1)) start
        = called at hperforms hkept hleast
      obtain ⟨outcome, middle⟩ := called
      cases outcome with
      | error error =>
        obtain ⟨hinstead, hends, hlast⟩ := hoperand middle hkept
        exact ⟨.fallback hlevels hfixity htoken hcontains hperforms hinstead, hends, hlast⟩
      | ok operand =>
        have hlt : position + 1 < operand.finish := hleast operand rfl
        refine ⟨.prefixed hfixity htoken hcontains hperforms hlt, hkept, ?_⟩
        rintro _ ⟨⟩
        exact Nat.le_of_lt hlt
    · simp only [hcontains, Bool.false_eq_true, if_false]
      exact hpassed

/-- A primary is a number, a variable, or a formula in parentheses. -/
theorem traced_primary (hending : context.ending.isEnding)
    (ih : TracedBelow context whole (whole.drop position).length) (hforward : Forward start) :
    Traced context whole (.body [] position) start
      (primary context position (whole.drop position) start) := by
  have hfail (what : Expectation) (index : Nat) (token : Token) :
      Traced context whole (.body [] position) start (start.fail what index token) :=
    ⟨.failed, hforward, by simp [ParseState.fail]⟩
  cases htokens : whole.drop position with
  | nil =>
    rw [primary]
    exact hfail _ _ _
  | cons token behind =>
    have htoken := getElem?_of_drop htokens
    obtain rfl := eq_drop_of_cons htokens
    have hleaf (node : Node)
        (hkind : token.kind = .integer ∨ token.kind = .real ∨ token.kind = .letter) :
        Traced context whole (.body [] position) start (start.succeed node (position + 1)) := by
      refine ⟨.leaf htoken hkind, hforward, ?_⟩
      rintro _ ⟨⟩
      exact Nat.le_refl _
    rw [primary]
    cases hkind : token.kind with
    | leftParen =>
      obtain ⟨hperforms, hkept, hleast⟩ :=
        ih.next (Nat.le_refl _) htokens List.suffix_rfl hforward
      generalize run context context.levels (position + 1) (whole.drop (position + 1)) start
        = called at hperforms hkept hleast
      obtain ⟨outcome, middle⟩ := called
      cases outcome with
      | error error => exact ⟨.unclosed htoken hkind hperforms, hkept, by simp⟩
      | ok inner =>
        have hlt : position + 1 < inner.finish := hleast inner rfl
        simp only [tokensFrom_drop (Nat.le_of_lt hlt)]
        split
        · rename_i hcloses
          -- The closing parenthesis is not the end of the input.
          cases hclosing : whole.drop inner.finish with
          | nil => simp_all [ParseContext.peek, Token.isEnding]
          | cons closing rest =>
            rw [hclosing] at hcloses
            refine ⟨.paren htoken hkind hperforms hlt (getElem?_of_drop hclosing) hcloses, hkept,
              ?_⟩
            rintro _ ⟨⟩
            exact Nat.succ_le_succ (Nat.le_of_lt (Nat.lt_of_succ_lt hlt))
        · exact ⟨.unclosed htoken hkind hperforms, hkept, by simp [ParseState.fail]⟩
    | integer =>
      cases hvalue : token.literal? with
      | none => exact hfail _ _ _
      | some value => exact hleaf _ (.inl hkind)
    | real =>
      cases hvalue : token.literal? with
      | none => exact hfail _ _ _
      | some value => exact hleaf _ (.inr (.inl hkind))
    | letter =>
      cases htext : token.text.toList with
      | nil => exact hfail _ _ _
      | cons name others => exact hleaf _ (.inr (.inr hkind))
    | _ => exact hfail _ _ _

/-- What a level does behind its operand is performed after the operand. -/
theorem traced_behind {called : Outcome × ParseState}
    {goOn : Match → ParseState → Outcome × ParseState}
    (hfirst : Traced context whole (.call tighter position) start called)
    (hgoOn : ∀ found middle, position < found.finish → Forward middle →
      Traced context whole (.onward level tighter found) middle (goOn found middle)) :
    Traced context whole (.body (level :: tighter) position) start
      (match called with
        | (.error error, middle) => (.error error, middle)
        | (.ok found, middle) => goOn found middle) := by
  obtain ⟨hperforms, hkept, hleast⟩ := hfirst
  obtain ⟨outcome, middle⟩ := called
  cases outcome with
  | error error => exact ⟨.passed hperforms, hkept, by simp⟩
  | ok found =>
    have hlt : position < found.finish := hleast found rfl
    obtain ⟨hgoes, hends, hlast⟩ := hgoOn found middle hlt hkept
    exact ⟨.operand hperforms hlt hgoes, hends,
      fun last hlast' => Nat.le_trans hlt (hlast last hlast')⟩

/-- The body of a rule is performed if the calls it makes are. -/
theorem traced_expand (hall : ∀ l ∈ context.levels, l.Valid) (hending : context.ending.isEnding)
    (hlevels : levels <:+ context.levels)
    (ih : TracedBelow context whole (whole.drop position).length) (hforward : Forward start)
    (hoperand : ∀ level tighter, levels = level :: tighter → ∀ state, Forward state →
      Traced context whole (.call tighter position) state
        (run context tighter position (whole.drop position) state)) :
    Traced context whole (.body levels position) start
      (expand context levels position (whole.drop position) start) := by
  cases levels with
  | nil =>
    rw [expand]
    exact traced_primary hending ih hforward
  | cons level tighter =>
    have hvalid : level.Valid := hall level (hlevels.mem List.mem_cons_self)
    have hbound {found : Match} (hlt : position < found.finish) :
        (whole.drop found.finish).length ≤ (whole.drop position).length := by
      rw [List.length_drop, List.length_drop]
      omega
    have hfirst := hoperand level tighter rfl start hforward
    rw [expand]
    split
    · rename_i hfixity
      exact traced_prefixed hvalid hfixity hlevels ih hforward (hoperand level tighter rfl)
    · rename_i hfixity
      refine traced_behind hfirst fun found middle hlt hkept => ?_
      rw [tokensFrom_drop (Nat.le_of_lt hlt)]
      exact traced_postfixChain hvalid hfixity hlevels hkept
    · rename_i hfixity
      refine traced_behind hfirst fun found middle hlt hkept => ?_
      rw [tokensFrom_drop (Nat.le_of_lt hlt)]
      exact traced_leftChain hvalid hfixity hlevels ih (hbound hlt) hkept
    · rename_i hfixity
      refine traced_behind hfirst fun found middle hlt hkept => ?_
      rw [tokensFrom_drop (Nat.le_of_lt hlt)]
      exact traced_rightOperand hvalid hfixity hlevels ih (hbound hlt) hkept

/-- Every call is performed. -/
theorem traced_call (hall : ∀ l ∈ context.levels, l.Valid) (hending : context.ending.isEnding)
    (hlevels : levels <:+ context.levels) (hposition : position ≤ whole.length)
    (hforward : Forward start) :
    Traced context whole (.call levels position) start
      (run context levels position (whole.drop position) start) := by
  induction levels, hdrop : whole.drop position using rule_induction
    generalizing position start with
  | step levels tokens ih =>
    subst hdrop
    have hbelow : TracedBelow context whole (whole.drop position).length :=
      fun levels' position' start' hlevels' hposition' hless hforward' =>
        ih levels' _ (.inl hless) hlevels' hposition' hforward' rfl
    apply traced_run hlevels hposition hforward
    intro entered hentered
    apply traced_expand hall hending hlevels hbelow hentered
    rintro level tighter rfl state hstate
    exact ih tighter _ (.inr ⟨rfl, Nat.lt_succ_self _⟩)
      ((List.suffix_cons level tighter).trans hlevels) hposition hstate rfl

end Parse

end Formula
