import Formula.Proofs.Parse.Lookups

/-!
# Each token makes one node at most

A match is dropped only if a parenthesis in front of it is not closed. The primary at this
parenthesis then is known to fail, and no rule gets past it any more, so that the tokens
behind it are never read a second time. Hence no match is given again, and every token that
is no parenthesis makes one node at most. Where the nesting limit was reached, an infix
operator that was given back takes the part of the parenthesis.
-/

namespace Formula

/-- A factorial stands for nothing between two operands. -/
theorem Token.binary_of_postfix {token : Token} {op : PostfixOp}
    (h : token.operator?.bind Operator.asPostfix? = some op) :
    token.operator?.bind Operator.asBinary? = none := by
  obtain ⟨symbol, hsymbol, hop⟩ := Option.bind_eq_some_iff.mp h
  cases symbol <;> simp_all [Operator.asPostfix?, Operator.asBinary?]

namespace Parse

variable {context : ParseContext} {whole : List Token} {levels tighter : List Level}
  {level : Level} {position later bound : Nat} {task : Task} {start middle finish : ParseState}
  {outcome : Outcome} {found : Match} {error : ParseError} {token : Token} {rule : Rule}
  {reach : Rule × Nat → Prop} {first last : Memo} {state : ParseState} {node : Node}

/-- How many tokens from an index on are no parentheses. -/
def load (whole : List Token) (position : Nat) : Nat :=
  (whole.drop position).countP (!·.isParen)

/-- A parenthesis adds nothing to the load. -/
theorem load_of_paren (htoken : whole[position]? = some token) (hparen : token.isParen) :
    load whole position = load whole (position + 1) := by
  obtain ⟨hlt, rfl⟩ := List.getElem?_eq_some_iff.mp htoken
  rw [load, List.drop_eq_getElem_cons hlt, List.countP_cons_of_neg (by simp [hparen]), load]

/-- A token that is no parenthesis adds one to the load. -/
theorem load_of_not_paren (htoken : whole[position]? = some token)
    (hparen : token.isParen = false) :
    load whole position = load whole (position + 1) + 1 := by
  obtain ⟨hlt, rfl⟩ := List.getElem?_eq_some_iff.mp htoken
  rw [load, List.drop_eq_getElem_cons hlt, List.countP_cons_of_pos (by simp [hparen]), load]

/-- The load is no greater from a later index on. -/
theorem load_le (h : position ≤ later) : load whole later ≤ load whole position :=
  (List.drop_suffix_drop_left whole h).sublist.countP_le

/-- A parenthesis that is known not to begin a primary. -/
def Dead (whole : List Token) (memo : Memo) (position : Nat) : Prop :=
  (∃ token, whole[position]? = some token ∧ token.kind = .leftParen) ∧
    ∃ error, memo.outcome? .primary position = some (.error error)

/-- A token that no rule gets past any more: a parenthesis that is known not to begin a
primary, or an infix operator once the limit was reached. -/
def Blocked (whole : List Token) (state : ParseState) (position : Nat) : Prop :=
  Dead whole state.memo position ∨ state.tooDeep ≠ none ∧ ∃ token op,
    whole[position]? = some token ∧ token.operator?.bind Operator.asBinary? = some op

/-- A match that is known from an index on lies behind a dead parenthesis there. -/
def Clear (whole : List Token) (memo : Memo) (position : Nat) : Prop :=
  ∀ rule start found, position ≤ start → memo.outcome? rule start = some (.ok found) →
    ∃ dead, position ≤ dead ∧ dead < start ∧ Dead whole memo dead

/-- There is room for a node for each token from an index on; the tokens behind a blocked
one need none. -/
def Roomy (whole : List Token) (bound : Nat) (state : ParseState) (position : Nat) : Prop :=
  state.arena.size + load whole position ≤ bound ∨
    ∃ blocked, position ≤ blocked ∧ Blocked whole state blocked ∧
      state.arena.size + load whole position ≤ bound + load whole blocked

/-- All outcomes that were given again are failures. -/
def HitsFail (memo : Memo) : Prop :=
  ∀ hit ∈ memo.found, ∃ error, memo.outcome? hit.1 hit.2 = some (.error error)

/-- A dead parenthesis stays dead. -/
theorem Dead.keeps (hkeeps : Memo.Keeps reach first last) (h : Dead whole first position) :
    Dead whole last position :=
  ⟨h.1, h.2.imp fun _ => hkeeps.stays _ _ _⟩

/-- As long as nothing is given again, all that was given again stays a failure. -/
theorem HitsFail.keeps (hkeeps : Memo.Keeps reach first last) (h : HitsFail first)
    (hfound : last.found = first.found) : HitsFail last := by
  intro hit hmem
  rw [hfound] at hmem
  exact (h hit hmem).imp fun _ => hkeeps.stays _ _ _

/-- A token is not blocked if it is no opening parenthesis and, once the limit was reached, no
infix operator. -/
theorem not_blocked (htoken : whole[position]? = some token) (hparen : token.kind ≠ .leftParen)
    (hop : state.tooDeep = none ∨ token.operator?.bind Operator.asBinary? = none) :
    ¬ Blocked whole state position := by
  rintro (⟨⟨opening, hopening, hopens⟩, -⟩ | ⟨hsome, other, op, hother, hbinary⟩)
  · rw [htoken] at hopening
    cases hopening
    exact hparen hopens
  · rw [htoken] at hother
    cases hother
    rcases hop with hnone | hnone
    · exact hsome hnone
    · rw [hbinary] at hnone
      cases hnone

/-- A token at which no primary was tried is not blocked in front of the limit. -/
theorem not_blocked_of_unknown (hunknown : state.memo.outcome? .primary position = none)
    (hnone : state.tooDeep = none) : ¬ Blocked whole state position := by
  rintro (⟨-, error, hknown⟩ | ⟨hsome, -⟩)
  · rw [hunknown] at hknown
    cases hknown
  · exact hsome hnone

/-- Behind a token that is not dead everything is still clear. -/
theorem Clear.next (h : Clear whole first position) (hdead : ¬ Dead whole first position) :
    Clear whole first (position + 1) := by
  intro rule start found hle hknown
  obtain ⟨dead, hfrom, hto, hthere⟩ := h rule start found (Nat.le_of_succ_le hle) hknown
  refine ⟨dead, ?_, hto, hthere⟩
  rcases Nat.eq_or_lt_of_le hfrom with rfl | hlt
  · exact absurd hthere hdead
  · exact hlt

/-- No match begins where everything is clear. -/
theorem Clear.ne_ok (h : Clear whole first position) (rule : Rule) (found : Match) :
    first.outcome? rule position ≠ some (.ok found) := by
  intro hknown
  obtain ⟨dead, hfrom, hto, -⟩ := h rule position found (Nat.le_refl _) hknown
  omega

/-- In front of a token everything is clear if no match is known to begin there. -/
theorem Clear.back (h : Clear whole first (position + 1))
    (hnone : ∀ rule found, first.outcome? rule position ≠ some (.ok found)) :
    Clear whole first position := by
  intro rule start found hle hknown
  rcases Nat.eq_or_lt_of_le hle with rfl | hlt
  · exact absurd hknown (hnone rule found)
  · obtain ⟨dead, hfrom, hto, hdead⟩ := h rule start found hlt hknown
    exact ⟨dead, Nat.le_of_succ_le hfrom, hto, hdead⟩

/-- A call at the next token brings about no match in front of it. -/
theorem Performs.ne_ok_of_next
    (h : Performs context whole (.call levels (position + 1)) start outcome middle)
    (hclear : Clear whole start.memo position) (rule : Rule) (found : Match) :
    middle.memo.outcome? rule position ≠ some (.ok found) := by
  intro hknown
  rcases h.keeps.reached _ _ _ hknown with hbefore | hreach
  · exact hclear.ne_ok rule found hbefore
  · exact Nat.lt_irrefl _ hreach.of_next

/-- Where there is room, the arena is within its bound. -/
theorem Roomy.size_le (h : Roomy whole bound state position) : state.arena.size ≤ bound := by
  rcases h with h | ⟨blocked, hle, -, h⟩
  · omega
  · have hload : load whole blocked ≤ load whole position := load_le hle
    omega

/-- A new node takes a room of its own. -/
theorem Roomy.add (h : Roomy whole bound state position) :
    Roomy whole (bound + 1) { state with arena := state.arena.add node } position := by
  rcases h with h | ⟨blocked, hle, hblocked, h⟩
  · refine .inl ?_
    simp only [Arena.size_add]
    omega
  · refine .inr ⟨blocked, hle, hblocked, ?_⟩
    simp only [Arena.size_add]
    omega

/-- A parenthesis that is not blocked leaves the room as it is. -/
theorem Roomy.next (h : Roomy whole bound state position)
    (htoken : whole[position]? = some token) (hparen : token.isParen)
    (hblocked : ¬ Blocked whole state position) : Roomy whole bound state (position + 1) := by
  have hload := load_of_paren htoken hparen
  rcases h with h | ⟨blocked, hle, hthere, h⟩
  · exact .inl (by omega)
  · have hne : position ≠ blocked := by
      rintro rfl
      exact hblocked hthere
    exact .inr ⟨blocked, by omega, hthere, by omega⟩

/-- The room for the node of a token is put aside. -/
theorem Roomy.spend (h : Roomy whole bound state position)
    (htoken : whole[position]? = some token) (hparen : token.isParen = false)
    (hblocked : ¬ Blocked whole state position) :
    ∃ rest, bound = rest + 1 ∧ Roomy whole rest state (position + 1) := by
  have hload := load_of_not_paren htoken hparen
  rcases h with h | ⟨blocked, hle, hthere, h⟩
  · exact ⟨bound - 1, by omega, .inl (by omega)⟩
  · have hne : position ≠ blocked := by
      rintro rfl
      exact hblocked hthere
    have hbehind : load whole blocked ≤ load whole (position + 1) := load_le (by omega)
    exact ⟨bound - 1, by omega, .inr ⟨blocked, by omega, hthere, by omega⟩⟩

/-- The room that was put aside is there again if no node was made for the token. -/
theorem Roomy.back (h : Roomy whole bound state (position + 1))
    (htoken : whole[position]? = some token) (hparen : token.isParen = false) :
    Roomy whole (bound + 1) state position := by
  have hload := load_of_not_paren htoken hparen
  rcases h with h | ⟨blocked, hle, hthere, h⟩
  · exact .inl (by omega)
  · exact .inr ⟨blocked, by omega, hthere, by omega⟩

/-- A state in which the tokens from an index on may still be read. -/
structure Tidy (whole : List Token) (bound : Nat) (state : ParseState) (position : Nat) :
    Prop where
  clear : state.tooDeep = none → Clear whole state.memo position
  room : Roomy whole bound state position
  hits : HitsFail state.memo

/-- A state in which a rule may be called at an index, or has failed there. -/
structure Idle (whole : List Token) (bound : Nat) (state : ParseState) (position : Nat) :
    Prop where
  clear : state.tooDeep = none → Clear whole state.memo position
  room : state.tooDeep = none → Roomy whole bound state position
  size : state.arena.size ≤ bound
  hits : HitsFail state.memo

/-- Where tokens may be read, a rule may be called. -/
theorem Tidy.idle (h : Tidy whole bound state position) : Idle whole bound state position :=
  ⟨h.clear, fun _ => h.room, h.room.size_le, h.hits⟩

/-- A noted failure does not matter. -/
theorem Idle.log (h : Idle whole bound state position) (log : FailureLog) :
    Idle whole bound { state with failures := log } position :=
  ⟨h.clear, h.room, h.size, h.hits⟩

/-- Unless the limit was reached, tokens may be read where a rule may be called. -/
theorem Idle.tidy (h : Idle whole bound state position) (hnone : state.tooDeep = none) :
    Tidy whole bound state position :=
  ⟨h.clear, h.room hnone, h.hits⟩

/-- A new node takes a room of its own and changes nothing else. -/
theorem Tidy.add (h : Tidy whole bound state position) :
    Tidy whole (bound + 1) { state with arena := state.arena.add node } position :=
  ⟨h.clear, h.room.add, h.hits⟩

/-- Going past a parenthesis. -/
theorem Tidy.next (h : Tidy whole bound state position)
    (htoken : whole[position]? = some token) (hparen : token.isParen)
    (hblocked : ¬ Blocked whole state position) : Tidy whole bound state (position + 1) :=
  ⟨fun hnone => (h.clear hnone).next fun hdead => hblocked (.inl hdead),
    h.room.next htoken hparen hblocked, h.hits⟩

/-- Going past a token that makes a node, and for whose node room is put aside. -/
theorem Tidy.spend (h : Tidy whole bound state position)
    (htoken : whole[position]? = some token) (hparen : token.isParen = false)
    (hop : state.tooDeep = none ∨ token.operator?.bind Operator.asBinary? = none) :
    ∃ rest, bound = rest + 1 ∧ load whole position = load whole (position + 1) + 1 ∧
      Tidy whole rest state (position + 1) := by
  have hopens : token.kind ≠ .leftParen := by
    intro hopens
    simp [Token.isParen, hopens] at hparen
  have hblocked := not_blocked htoken hopens hop
  obtain ⟨rest, rfl, hroom⟩ := h.room.spend htoken hparen hblocked
  have hclear (hnone : state.tooDeep = none) : Clear whole state.memo (position + 1) :=
    (h.clear hnone).next fun hdead => hblocked (.inl hdead)
  exact ⟨rest, rfl, load_of_not_paren htoken hparen, hclear, hroom, h.hits⟩

/-- Going past an operator. -/
theorem Tidy.spend_operator (h : Tidy whole bound state position)
    (htoken : whole[position]? = some token) (hcontains : level.operators.contains token = true)
    (hop : state.tooDeep = none ∨ token.operator?.bind Operator.asBinary? = none) :
    ∃ rest, bound = rest + 1 ∧ load whole position = load whole (position + 1) + 1 ∧
      Tidy whole rest state (position + 1) :=
  h.spend htoken (OperatorSet.isParen_eq_false_of_contains hcontains) hop

/-- Going back in front of a token at which a call failed. -/
theorem Idle.back (h : Idle whole bound middle (position + 1))
    (hcall : Performs context whole (.call levels (position + 1)) start (.error error) middle)
    (hclear : start.tooDeep = none → Clear whole start.memo position)
    (htoken : whole[position]? = some token) (hparen : token.isParen = false) :
    Idle whole (bound + 1) middle position where
  clear hnone := (h.clear hnone).back
    (hcall.ne_ok_of_next (hclear (hcall.tooDeep_start hnone)))
  room hnone := (h.room hnone).back htoken hparen
  size := Nat.le_succ_of_le h.size
  hits := h.hits

/-- What is kept for a rule that was not known is all that is new. -/
theorem keeps_insert (hunknown : first.outcome? rule position = none) (outcome : Outcome) :
    Memo.Keeps (· = (rule, position)) first (first.insert rule position outcome) :=
  .insert (.of_same fun _ _ => rfl) hunknown rfl

/-- The outcome of a rule takes no room. -/
theorem Roomy.leave (h : Roomy whole bound state later)
    (hunknown : state.memo.outcome? rule position = none) :
    Roomy whole bound (state.leave rule position outcome) later := by
  refine h.imp_right ?_
  rintro ⟨blocked, hle, hblocked, hbound⟩
  exact ⟨blocked, hle, hblocked.imp_left (Dead.keeps (keeps_insert hunknown outcome)), hbound⟩

/-- A rule that fails leaves everything as it was. -/
theorem Idle.leave (h : Idle whole bound state later)
    (hunknown : state.memo.outcome? rule position = none) :
    Idle whole bound (state.leave rule position (.error error)) later where
  clear := by
    intro hnone other place found hle hknown
    rcases ParseState.outcome?_leave hknown with ⟨-, -, ⟨⟩⟩ | hbefore
    obtain ⟨dead, hfrom, hto, hdead⟩ := h.clear hnone other place found hle hbefore
    exact ⟨dead, hfrom, hto, hdead.keeps (keeps_insert hunknown _)⟩
  room hnone := (h.room hnone).leave hunknown
  size := h.size
  hits := h.hits.keeps (keeps_insert hunknown _) rfl

/-- The match of a rule begins in front of what is read next. -/
theorem Tidy.leave (h : Tidy whole bound state later)
    (hunknown : state.memo.outcome? rule position = none) (hlt : position < later) :
    Tidy whole bound (state.leave rule position outcome) later where
  clear := by
    intro hnone other place found hle hknown
    rcases ParseState.outcome?_leave hknown with ⟨-, rfl, -⟩ | hbefore
    · exact absurd hlt (Nat.not_lt_of_le hle)
    · obtain ⟨dead, hfrom, hto, hdead⟩ := h.clear hnone other place found hle hbefore
      exact ⟨dead, hfrom, hto, hdead.keeps (keeps_insert hunknown _)⟩
  room := h.room.leave hunknown
  hits := h.hits.keeps (keeps_insert hunknown _) rfl

/-- A parenthesis at which the primary fails is dead from then on. -/
theorem Idle.of_unclosed (h : middle.arena.size ≤ bound) (hhits : HitsFail middle.memo)
    (hne : middle.tooDeep = none →
      ∀ rule found, middle.memo.outcome? rule position ≠ some (.ok found))
    (htoken : whole[position]? = some token) (hopens : token.kind = .leftParen)
    (hunknown : middle.memo.outcome? .primary position = none) :
    Idle whole bound (middle.leave .primary position (.error error)) position := by
  have hdead : Dead whole (middle.leave .primary position (.error error)).memo position := by
    refine ⟨⟨token, htoken, hopens⟩, error, ?_⟩
    rw [ParseState.leave, Memo.outcome?_insert, if_pos ⟨rfl, rfl⟩]
  refine ⟨?_, fun _ => .inr ⟨position, Nat.le_refl _, .inl hdead, ?_⟩, h,
    hhits.keeps (keeps_insert hunknown _) rfl⟩
  · intro hnone rule place found hle hknown
    rcases Nat.eq_or_lt_of_le hle with rfl | hlt
    · rcases ParseState.outcome?_leave hknown with ⟨-, -, ⟨⟩⟩ | hbefore
      exact absurd hbefore (hne hnone rule found)
    · exact ⟨position, Nat.le_refl _, hlt, hdead⟩
  · exact Nat.add_le_add_right h _

/-- The index at which a task begins to read. -/
def Task.origin : Task → Nat
  | .call _ position => position
  | .body _ position => position
  | .onward _ _ operand => operand.finish

/-- What has to hold for a task to begin. -/
def Task.Before (whole : List Token) (bound : Nat) : Task → ParseState → Prop
  | .call _ position, state => Idle whole bound state position
  | .body levels position, state => Tidy whole bound state position ∧ state.tooDeep = none ∧
    state.memo.outcome? (.ofLevels levels) position = none
  | .onward _ _ operand, state => Tidy whole bound state operand.finish

/-- What holds when a task has ended. A rule that fails is left first; behind an operand
nothing fails. -/
def Task.After (whole : List Token) (bound : Nat) : Task → Outcome → ParseState → Prop
  | _, .ok found, state => Tidy whole bound state found.finish
  | .call _ position, .error _, state => Idle whole bound state position
  | .body levels position, .error error, state =>
    Idle whole bound (state.leave (.ofLevels levels) position (.error error)) position
  | .onward _ _ _, .error _, _ => False

/-- The bound is kept, and every token that was read has made its node, beside the nodes
there were. -/
structure Allocates (whole : List Token) (bound : Nat) (task : Task) (nodes : Nat)
    (outcome : Outcome) (finish : ParseState) : Prop where
  after : task.After whole bound outcome finish
  paid : ∀ found, outcome = .ok found →
    nodes + load whole task.origin ≤ finish.arena.size + load whole found.finish

/-- A call that succeeds was not stopped. -/
theorem Performs.tooDeep_of_ok
    (h : Performs context whole (.call levels position) start (.ok found) finish) :
    start.tooDeep = none := by
  cases h <;> assumption

/-- A call that is stopped changes nothing. -/
theorem Performs.eq_of_stopped
    (h : Performs context whole (.call levels position) start outcome finish)
    (hsome : start.tooDeep ≠ none) : finish = start := by
  cases h with
  | stopped => rfl
  | known hnone => exact absurd hnone hsome
  | limited _ _ hnone => exact absurd hnone hsome
  | started _ _ hnone => exact absurd hnone hsome

variable {nodes : Nat}

/-- What is known to a rule that is called is a failure. -/
theorem allocates_known (hbefore : Idle whole bound start position)
    (hnone : start.tooDeep = none)
    (hknown : start.memo.outcome? (.ofLevels levels) position = some outcome) :
    Allocates whole bound (.call levels position) nodes outcome
      { start with memo := start.memo.noteHit (.ofLevels levels) position } := by
  cases outcome with
  | ok found => exact absurd hknown ((hbefore.clear hnone).ne_ok _ _)
  | error error =>
    refine ⟨⟨hbefore.clear, hbefore.room, hbefore.size, ?_⟩, nofun⟩
    intro hit hmem
    rcases List.mem_cons.mp hmem with rfl | hmem
    · exact ⟨error, hknown⟩
    · exact hbefore.hits hit hmem

/-- A rule that was run is left. -/
theorem Allocates.leave
    (h : Allocates whole bound (.body levels position) nodes outcome finish)
    (hunknown : finish.memo.outcome? (.ofLevels levels) position = none)
    (hleast : ∀ found, outcome = .ok found → position < found.finish) :
    Allocates whole bound (.call levels position) nodes outcome
      (finish.leave (.ofLevels levels) position outcome) := by
  obtain ⟨hafter, hpaid⟩ := h
  cases outcome with
  | ok found => exact ⟨Tidy.leave hafter hunknown (hleast found rfl), hpaid⟩
  | error error => exact ⟨hafter, hpaid⟩

/-- What the tighter levels read is the outcome of the body. -/
theorem Allocates.passed
    (h : Allocates whole bound (.call tighter position) middle.arena.size outcome finish)
    (hunknown : finish.memo.outcome? (.ofLevels (level :: tighter)) position = none)
    (hnodes : nodes ≤ middle.arena.size) :
    Allocates whole bound (.body (level :: tighter) position) nodes outcome finish := by
  obtain ⟨hafter, hpaid⟩ := h
  cases outcome with
  | ok found =>
    refine ⟨hafter, fun last hlast => ?_⟩
    exact Nat.le_trans (Nat.add_le_add_right hnodes _) (hpaid last hlast)
  | error error => exact ⟨Idle.leave hafter hunknown, nofun⟩

/-- What is behind an operand ends a task if the tokens up to there are paid for. -/
theorem Allocates.behind {before : Nat}
    (h : Allocates whole bound (.onward level tighter found) nodes outcome finish)
    (hpaid : before + load whole task.origin ≤ nodes + load whole found.finish) :
    Allocates whole bound task before outcome finish := by
  obtain ⟨hafter, hlast⟩ := h
  cases outcome with
  | ok last =>
    have htidy : Tidy whole bound finish last.finish := hafter
    refine ⟨by cases task <;> exact htidy, ?_⟩
    rintro _ ⟨⟩
    exact Nat.le_trans hpaid (hlast last rfl)
  | error error => exact hafter.elim

/-- However a call ends, the bound is kept and no match was given again. -/
theorem Allocates.size_and_hits
    (h : Allocates whole bound (.call levels position) nodes outcome finish) :
    finish.arena.size ≤ bound ∧ HitsFail finish.memo := by
  obtain ⟨hafter, -⟩ := h
  cases outcome with
  | ok found => exact ⟨Roomy.size_le (Tidy.room hafter), Tidy.hits hafter⟩
  | error error => exact ⟨Idle.size hafter, Idle.hits hafter⟩

/-- A primary that is not closed leaves a dead parenthesis. -/
theorem Allocates.unclosed {log : FailureLog}
    (hbefore : Task.Before whole bound (.body [] position) start)
    (h : Allocates whole bound (.call levels (position + 1)) nodes outcome middle)
    (hcall : Performs context whole (.call levels (position + 1)) start outcome middle)
    (htoken : whole[position]? = some token) (hopens : token.kind = .leftParen) :
    Allocates whole bound (.body [] position) nodes (.error error)
      { middle with failures := log } := by
  obtain ⟨htidy, hnone, hunknown⟩ := hbefore
  obtain ⟨hsize, hhits⟩ := h.size_and_hits
  have hstill : middle.memo.outcome? .primary position = none :=
    hcall.keeps.unknown hunknown fun hreach => Nat.lt_irrefl _ hreach.of_next
  have hclear := hcall.ne_ok_of_next (htidy.clear hnone)
  exact ⟨Idle.of_unclosed hsize hhits (fun _ => hclear) htoken hopens hstill, nofun⟩

/-- An infix operator that is given back has made no node. Once the limit was reached it
is not read again. -/
theorem tidy_givenBack (hbefore : Tidy whole bound start position)
    (htoken : whole[position]? = some token) (hparen : token.isParen = false) {op : BinaryOp}
    (hop : token.operator?.bind Operator.asBinary? = some op)
    (hcall : Performs context whole (.call levels (position + 1)) start (.error error) middle)
    (hfails : ∀ rest, Tidy whole rest start (position + 1) →
      Idle whole rest middle (position + 1)) : Tidy whole bound middle position := by
  by_cases hnone : start.tooDeep = none
  · obtain ⟨rest, rfl, -, hspent⟩ := hbefore.spend htoken hparen (.inl hnone)
    have hidle := hfails rest hspent
    by_cases hend : middle.tooDeep = none
    · exact (hidle.back hcall hbefore.clear htoken hparen).tidy hend
    · have hblocked : Blocked whole middle position := .inr ⟨hend, token, op, htoken, hop⟩
      have hsize := hidle.size
      exact ⟨fun hnone => absurd hnone hend, .inr ⟨position, Nat.le_refl _, hblocked, by omega⟩,
        hidle.hits⟩
  · rw [hcall.eq_of_stopped hnone]
    exact hbefore

/-- Every node has a token of its own, and no match is given again. -/
theorem Performs.allocates (h : Performs context whole task start outcome finish)
    (hbefore : task.Before whole bound start) :
    Allocates whole bound task start.arena.size outcome finish := by
  -- The bound is less by one while the room for the node of an operator is put aside.
  induction h generalizing bound with
  | stopped => exact ⟨hbefore, nofun⟩
  | known hnone hknown => exact allocates_known hbefore hnone hknown
  | limited => exact ⟨⟨nofun, nofun, hbefore.size, hbefore.hits⟩, nofun⟩
  | started _ _ hnone hunknown hleast body ih =>
    have hstarted := ih ⟨⟨hbefore.clear, hbefore.room hnone, hbefore.hits⟩, hnone, hunknown⟩
    exact hstarted.leave (body.unknown_of_body hunknown) hleast
  | failed =>
    obtain ⟨htidy, -, hunknown⟩ := hbefore
    exact ⟨(htidy.idle.log _).leave hunknown, nofun⟩
  | @leaf position start token node htoken hkind =>
    obtain ⟨htidy, hnone, -⟩ := hbefore
    have hparen : token.isParen = false := by
      rcases hkind with hk | hk | hk <;> simp [Token.isParen, hk]
    obtain ⟨rest, rfl, hload, hspent⟩ := htidy.spend htoken hparen (.inl hnone)
    refine ⟨hspent.add, ?_⟩
    rintro _ ⟨⟩
    simp only [Task.origin, Arena.size_add]
    omega
  | @paren position start finish opening closing inner hopening hopen body hlt hclosing hcloses
      ih =>
    obtain ⟨htidy, hnone, hunknown⟩ := hbefore
    have hleft : opening.isParen = true := by simp [Token.isParen, hopen]
    have hright : closing.isParen = true := by simp [Token.isParen, hcloses]
    have hbefore := htidy.next hopening hleft (not_blocked_of_unknown hunknown hnone)
    obtain ⟨hafter, hpaid⟩ := ih hbefore.idle
    have hinner := hpaid _ rfl
    have hpast := Tidy.next hafter hclosing hright
      (not_blocked hclosing (by simp [hcloses]) (.inr (by simp [Token.operator?, hcloses])))
    refine ⟨hpast, ?_⟩
    rintro _ ⟨⟩
    rw [Task.origin, load_of_paren hopening hleft, ← load_of_paren hclosing hright]
    exact hinner
  | @unclosed position start middle opening outcome error log hopening hopen body ih =>
    have hleft : opening.isParen = true := by simp [Token.isParen, hopen]
    have hnext := hbefore.1.next hopening hleft (not_blocked_of_unknown hbefore.2.2 hbefore.2.1)
    exact (ih hnext.idle).unclosed hbefore body hopening hopen
  | prefixed hfixity htoken hcontains inner hlt ih =>
    obtain ⟨htidy, hnone, -⟩ := hbefore
    obtain ⟨rest, rfl, hload, hspent⟩ := htidy.spend_operator htoken hcontains (.inl hnone)
    obtain ⟨hafter, hpaid⟩ := ih hspent.idle
    have hinner := hpaid _ rfl
    refine ⟨Tidy.add hafter, ?_⟩
    rintro _ ⟨⟩
    simp only [Task.origin, Arena.size_add] at hinner ⊢
    omega
  | fallback hlevels hfixity htoken hcontains attempt operand ihattempt ihoperand =>
    obtain ⟨htidy, hnone, hunknown⟩ := hbefore
    obtain ⟨rest, rfl, -, hspent⟩ := htidy.spend_operator htoken hcontains (.inl hnone)
    have hidle := (ihattempt hspent.idle).after
    -- No node was made for the operator, so that its room is there again for the operand.
    have hback := Idle.back hidle attempt htidy.clear htoken
      (OperatorSet.isParen_eq_false_of_contains hcontains)
    have hbody := Performs.fallback hlevels hfixity htoken hcontains attempt operand
    exact (ihoperand hback).passed (hbody.unknown_of_body hunknown) attempt.size_le
  | passed operand ih =>
    obtain ⟨htidy, -, hunknown⟩ := hbefore
    exact (ih htidy.idle).passed ((Performs.passed operand).unknown_of_body hunknown)
      (Nat.le_refl _)
  | @operand level tighter position start middle finish found outcome first hlt rest ihfirst
      ihrest =>
    obtain ⟨htidy, -, -⟩ := hbefore
    obtain ⟨hfirst, hpaid⟩ := ihfirst htidy.idle
    exact (ihrest hfirst).behind (hpaid _ rfl)
  | ends =>
    refine ⟨hbefore, ?_⟩
    rintro _ ⟨⟩
    exact Nat.le_refl _
  | @postfixed level tighter start finish found token op node outcome hlevels hfixity htoken
      hcontains hop rest ih =>
    obtain ⟨bound, rfl, hload, hspent⟩ :=
      Tidy.spend_operator hbefore htoken hcontains (.inr (Token.binary_of_postfix hop))
    refine (ih hspent.add).behind ?_
    simp only [Task.origin, Arena.size_add]
    omega
  | @left level tighter start middle finish found right token op node outcome hlevels hfixity htoken
      hcontains hop second hlt rest ihsecond ihrest =>
    obtain ⟨bound, rfl, hload, hspent⟩ :=
      Tidy.spend_operator hbefore htoken hcontains (.inl second.tooDeep_of_ok)
    obtain ⟨hright, hpaid⟩ := ihsecond hspent.idle
    refine (ihrest (Tidy.add hright)).behind ?_
    have hsecond := hpaid _ rfl
    simp only [Task.origin, Arena.size_add] at hsecond ⊢
    omega
  | right hlevels hfixity htoken hcontains hop second hlt ih =>
    obtain ⟨bound, rfl, hload, hspent⟩ :=
      Tidy.spend_operator hbefore htoken hcontains (.inl second.tooDeep_of_ok)
    obtain ⟨hright, hpaid⟩ := ih hspent.idle
    refine ⟨Tidy.add hright, ?_⟩
    rintro _ ⟨⟩
    have hsecond := hpaid _ rfl
    simp only [Task.origin, Arena.size_add] at hsecond ⊢
    omega
  | givenBack hlevels hsuffix hfixity htoken hcontains hop second ih =>
    have hparen := OperatorSet.isParen_eq_false_of_contains hcontains
    refine ⟨tidy_givenBack hbefore htoken hparen hop second fun rest htidy => ?_, ?_⟩
    · exact (ih htidy.idle).after
    · rintro _ ⟨⟩
      exact Nat.add_le_add_right second.size_le _

end Parse

end Formula
