import Formula.Proofs.Parse.Lookups

/-!
# The state of a parse stays intact

What a parser keeps refers to levels, tokens and nodes by number. Only rules of the table
are looked up, at tokens that there are; every node is stored behind its subtrees and so
stands for a tree; every match has a node in the arena and does not end behind the end of
the input; and every failure names the token at its index. Each rule keeps the state so,
whether or not the nesting limit is reached on the way.
-/

namespace Formula

/-- Whether the parser may miss this at a token. The operators of a valid level have a
meaning in its fixity, and all nodes stand for trees, so that the failures for want of
these are never met. A number is missed at a number token without a value only. -/
def Expectation.MayMiss : Expectation → Token → Prop
  | .operand, _ | .closingParen _, _ | .operatorOrEnding, _ => True
  | .number, token => (token.kind = .integer ∨ token.kind = .real) ∧ token.literal? = none
  | .prefixOperator, _ | .postfixOperator, _ | .binaryOperator, _ | .completeExpression, _ => False

namespace Arena

variable {arena : Arena} {node : Node}

/-- Every number in use stands for a tree. -/
def Grounded (arena : Arena) : Prop := ∀ id < arena.size, ∃ e, arena.expr? id = some e

/-- A new node that stands for a tree leaves all the others standing for theirs. -/
theorem Grounded.add (h : arena.Grounded)
    (hnode : ∃ e, (arena.add node).expr? arena.size = some e) : (arena.add node).Grounded := by
  intro id hid
  rw [size_add] at hid
  by_cases hlt : id < arena.size
  · obtain ⟨e, he⟩ := h id hlt
    exact ⟨e, arena.extends_add node id e he⟩
  · obtain rfl : id = arena.size := by omega
    exact hnode

end Arena

namespace Parse

/-- A match has a node in the arena. It ends at some index at the earliest, and in front of
the end of the input or there. -/
structure Ends (whole : List Token) (least : Nat) (arena : Arena) (found : Match) : Prop where
  node : found.node < arena.size
  least : least ≤ found.finish
  finish : found.finish ≤ whole.length

/-- A failure names the token at its index, which lacks something that may be missed. -/
def Notes (context : ParseContext) (whole : List Token) (failure : Failure) : Prop :=
  failure.1 ≤ whole.length ∧ ∃ what, what.MayMiss (context.peek (whole.drop failure.1)) ∧
    failure.2 = ⟨.expected what, context.peek (whole.drop failure.1)⟩

/-- What a state of a parse refers to is there. -/
structure Intact (context : ParseContext) (whole : List Token) (state : ParseState) : Prop where
  lookups : ∀ key ∈ state.memo.found ++ state.memo.missed, InTable context whole key
  nodes : state.arena.Grounded
  known : ∀ rule position found, state.memo.outcome? rule position = some (.ok found) →
    Ends whole (position + 1) state.arena found
  failures : ∀ failure ∈ state.failures.noted, Notes context whole failure
  stop : ∀ error, state.tooDeep = some error →
    ∃ index ≤ whole.length, error = ⟨.tooDeep, context.peek (whole.drop index)⟩

/-- A run leaves an intact state behind, no fewer nodes, and a match that ends well. -/
structure Preserves (context : ParseContext) (whole : List Token) (least : Nat)
    (start : ParseState) (result : Outcome × ParseState) : Prop where
  intact : Intact context whole result.2
  grows : start.arena.size ≤ result.2.arena.size
  ends : ∀ found, result.1 = .ok found → Ends whole least result.2.arena found

variable {context : ParseContext} {whole : List Token} {levels tighter : List Level}
  {level : Level} {start : ParseState} {position least bound : Nat} {found : Match}
  {id : NodeId} {node : Node} {token : Token} {behind : List Token}

/-- A match that ends well still does so in a larger arena and for an earlier bound. -/
theorem Ends.mono {arena later : Arena} {earlier : Nat} (h : Ends whole least arena found)
    (hleast : earlier ≤ least) (hsize : arena.size ≤ later.size) :
    Ends whole earlier later found :=
  ⟨Nat.lt_of_lt_of_le h.node hsize, Nat.le_trans hleast h.least, h.finish⟩

/-- A new node that stands for a tree leaves the state intact. -/
theorem Intact.add (h : Intact context whole start)
    (hnode : ∃ e, (start.arena.add node).expr? start.arena.size = some e) :
    Intact context whole { start with arena := start.arena.add node } where
  lookups := h.lookups
  nodes := h.nodes.add hnode
  known rule position found hknown :=
    (h.known rule position found hknown).mono (Nat.le_refl _) (by simp)
  failures := h.failures
  stop := h.stop

/-- Rules of the table at tokens that there are belong to the table. -/
theorem inTable_ofLevels (hlevels : levels <:+ context.levels)
    (hposition : position ≤ whole.length) :
    InTable context whole (.ofLevels levels, position) :=
  ⟨by simpa using hlevels.length_le, hposition⟩

/-- A look-up of a rule of the table at a token is noted. -/
theorem Intact.noteHit (h : Intact context whole start) {rule : Rule}
    (hkey : InTable context whole (rule, position)) :
    Intact context whole { start with memo := start.memo.noteHit rule position } where
  lookups := List.forall_mem_cons.mpr ⟨hkey, h.lookups⟩
  nodes := h.nodes
  known := h.known
  failures := h.failures
  stop := h.stop

/-- A look-up in vain is noted. The rule starts at some depth, or it exceeds the limit. -/
theorem Intact.noteMiss (h : Intact context whole start) {rule : Rule}
    (hkey : InTable context whole (rule, position)) (depth : Nat) {limit : Option ParseError}
    (hlimit : ∀ error, limit = some error →
      ∃ index ≤ whole.length, error = ⟨.tooDeep, context.peek (whole.drop index)⟩) :
    Intact context whole { start with
      memo := start.memo.noteMiss rule position, depth := depth, tooDeep := limit } where
  lookups := by
    intro key hmem
    rcases List.mem_append.mp hmem with hfound | hmissed
    · exact h.lookups key (List.mem_append_left _ hfound)
    · rcases List.mem_cons.mp hmissed with rfl | hmissed
      · exact hkey
      · exact h.lookups key (List.mem_append_right _ hmissed)
  nodes := h.nodes
  known := h.known
  failures := h.failures
  stop := hlimit

/-- The outcome of a rule that was run may be kept. -/
theorem Intact.leave (h : Intact context whole start) (rule : Rule) {outcome : Outcome}
    (hends : ∀ found, outcome = .ok found → Ends whole (position + 1) start.arena found) :
    Intact context whole (start.leave rule position outcome) where
  lookups := h.lookups
  nodes := h.nodes
  known other place found hknown := by
    rcases ParseState.outcome?_leave hknown with ⟨-, rfl, hok⟩ | hbefore
    · exact hends found hok
    · exact h.known other place found hbefore
  failures := h.failures
  stop := h.stop

/-- A match that is passed on leaves the state intact. -/
theorem preserves_found (h : Intact context whole start)
    (hends : Ends whole least start.arena found) :
    Preserves context whole least start (.ok found, start) where
  intact := h
  grows := Nat.le_refl _
  ends := by
    rintro _ ⟨⟩
    exact hends

/-- A match with a new node that stands for a tree leaves the state intact. -/
theorem preserves_succeed {finish : Nat} (h : Intact context whole start)
    (hnode : ∃ e, (start.arena.add node).expr? start.arena.size = some e)
    (hleast : least ≤ finish) (hfinish : finish ≤ whole.length) :
    Preserves context whole least start (start.succeed node finish) where
  intact := h.add hnode
  grows := by simp [ParseState.succeed]
  ends := by
    rintro _ ⟨⟩
    exact ⟨by simp [ParseState.succeed], hleast, hfinish⟩

/-- A failure for want of what may be missed at the token. -/
theorem preserves_fail {what : Expectation} (h : Intact context whole start)
    (hposition : position ≤ whole.length)
    (hwhat : what.MayMiss (context.peek (whole.drop position))) :
    Preserves context whole least start
      (start.fail what position (context.peek (whole.drop position))) where
  intact := by
    refine ⟨h.lookups, h.nodes, h.known, ?_, h.stop⟩
    rintro failure (_ | ⟨_, hmem⟩)
    · exact ⟨hposition, what, hwhat, rfl⟩
    · exact h.failures failure hmem
  grows := Nat.le_refl _
  ends := nofun

/-- Going on behind a call. -/
theorem preserves_orElse {called : Outcome × ParseState} {inner : Nat}
    {next : Match → ParseState → Outcome × ParseState}
    {instead : ParseError → ParseState → Outcome × ParseState}
    (hnext : ∀ found middle, Intact context whole middle →
      start.arena.size ≤ middle.arena.size → Ends whole inner middle.arena found →
      Preserves context whole least middle (next found middle))
    (hinstead : ∀ error middle, Intact context whole middle →
      start.arena.size ≤ middle.arena.size →
      Preserves context whole least middle (instead error middle)) :
    Preserves context whole inner start called → Preserves context whole least start
      (match called with
        | (.error error, middle) => instead error middle
        | (.ok found, middle) => next found middle) := by
  rintro ⟨hintact, hgrows, hends⟩
  obtain ⟨outcome, middle⟩ := called
  cases outcome with
  | error error =>
    have hlast := hinstead error middle hintact hgrows
    exact ⟨hlast.intact, Nat.le_trans hgrows hlast.grows, hlast.ends⟩
  | ok found =>
    have hlast := hnext found middle hintact hgrows (hends found rfl)
    exact ⟨hlast.intact, Nat.le_trans hgrows hlast.grows, hlast.ends⟩

/-- Going on behind a call whose failure is passed on. -/
theorem preserves_andThen {called : Outcome × ParseState} {inner : Nat}
    {next : Match → ParseState → Outcome × ParseState}
    (hnext : ∀ found middle, Intact context whole middle →
      start.arena.size ≤ middle.arena.size → Ends whole inner middle.arena found →
      Preserves context whole least middle (next found middle)) :
    Preserves context whole inner start called → Preserves context whole least start
      (match called with
        | (.error error, middle) => (.error error, middle)
        | (.ok found, middle) => next found middle) :=
  preserves_orElse hnext fun _ _ hmiddle _ => ⟨hmiddle, Nat.le_refl _, nofun⟩

/-- New nodes in front of a run are of no account. -/
theorem Preserves.of_add {result : Outcome × ParseState}
    (h : Preserves context whole least { start with arena := start.arena.add node } result) :
    Preserves context whole least start result :=
  ⟨h.intact, Nat.le_trans (by simp) h.grows, h.ends⟩

/-- There is a token at an index only in front of the end. -/
theorem lt_length_of_drop (h : whole.drop position = token :: behind) :
    position < whole.length := by
  by_contra hle
  rw [List.drop_of_length_le (Nat.le_of_not_lt hle)] at h
  cases h

/-- The token at an index is the one peeked at there. -/
theorem peek_drop (h : whole.drop position = token :: behind) :
    context.peek (whole.drop position) = token := by
  rw [h]
  rfl

/-- Postfix operators are applied to a match as long as there are any. -/
theorem preserves_postfixChain (hvalid : level.Valid) (hfixity : level.fixity = .postfixOp)
    (h : Intact context whole start) (hends : Ends whole least start.arena ⟨id, position⟩) :
    Preserves context whole least start
      (postfixChain context level.operators id position (whole.drop position) start) := by
  induction hn : (whole.drop position).length using Nat.strongRecOn
    generalizing id position start with
  | ind n chained =>
    cases htokens : whole.drop position with
    | nil => exact preserves_found h hends
    | cons token behind =>
      have hlt := lt_length_of_drop htokens
      obtain rfl := eq_drop_of_cons htokens
      rw [postfixChain]
      by_cases hcontains : level.operators.contains token = true
      · obtain ⟨op, hop⟩ := hvalid.postfix_of_contains hfixity hcontains
        obtain ⟨e, he⟩ := h.nodes id hends.node
        have hnode : ∃ e, (start.arena.add (.postfixed id op)).expr? start.arena.size = some e :=
          ⟨_, Arena.expr?_add_postfixed he op⟩
        have hless : (whole.drop (position + 1)).length < n := by
          rw [← hn, htokens]
          exact Nat.lt_succ_self _
        simp only [hcontains, if_true, hop]
        exact Preserves.of_add (chained _ hless (h.add hnode)
          ⟨by simp, Nat.le_succ_of_le hends.least, hlt⟩ rfl)
      · simp only [hcontains, Bool.false_eq_true, if_false]
        exact preserves_found h hends

/-- All calls with fewer tokens keep the state intact. -/
def PreservedBelow (context : ParseContext) (whole : List Token) (bound : Nat) : Prop :=
  ∀ levels position start, levels <:+ context.levels → position ≤ whole.length →
    (whole.drop position).length < bound → Intact context whole start →
    Preserves context whole (position + 1) start
      (run context levels position (whole.drop position) start)

/-- Whatever is called behind the first of the tokens keeps the state intact. -/
theorem PreservedBelow.next (ih : PreservedBelow context whole bound)
    (hbound : (whole.drop position).length ≤ bound)
    (htokens : whole.drop position = token :: behind) (hlevels : levels <:+ context.levels)
    (h : Intact context whole start) :
    Preserves context whole (position + 1 + 1) start
      (run context levels (position + 1) (whole.drop (position + 1)) start) := by
  have hlt := lt_length_of_drop htokens
  rw [List.length_drop] at hbound
  exact ih levels (position + 1) start hlevels hlt (by rw [List.length_drop]; omega) h

/-- Infix operators are applied from left to right as long as there are any. -/
theorem preserves_leftChain (hvalid : level.Valid) (hfixity : level.fixity = .infixOp .left)
    (hlevels : tighter <:+ context.levels) (ih : PreservedBelow context whole bound)
    (hbound : (whole.drop position).length ≤ bound) (h : Intact context whole start)
    (hends : Ends whole least start.arena ⟨id, position⟩) :
    Preserves context whole least start
      (leftChain context level.operators tighter id position (whole.drop position) start) := by
  induction hn : (whole.drop position).length using Nat.strongRecOn
    generalizing id position start with
  | ind n chained =>
    cases htokens : whole.drop position with
    | nil =>
      rw [leftChain]
      exact preserves_found h hends
    | cons token behind =>
      have hlt := lt_length_of_drop htokens
      obtain rfl := eq_drop_of_cons htokens
      rw [leftChain]
      by_cases hcontains : level.operators.contains token = true
      · obtain ⟨op, hop⟩ := hvalid.binary_of_contains hfixity hcontains
        simp only [hcontains, if_true, hop]
        refine preserves_orElse ?_ ?_ (ih.next hbound htokens hlevels h)
        · intro right middle hmiddle hgrows hright
          have hfinish : position + 1 < right.finish := hright.least
          obtain ⟨l, hl⟩ := hmiddle.nodes id (Nat.lt_of_lt_of_le hends.node hgrows)
          obtain ⟨r, hr⟩ := hmiddle.nodes right.node hright.node
          have hnode : ∃ e, (middle.arena.add (.binary op id right.node)).expr?
              middle.arena.size = some e := ⟨_, Arena.expr?_add_binary hl hr op⟩
          have hleast : least ≤ position := hends.least
          have hless : (whole.drop right.finish).length < n := by
            rw [List.length_drop] at hn ⊢
            omega
          rw [tokensFrom_drop (Nat.le_of_lt hfinish)]
          exact Preserves.of_add (chained _ hless (by omega) (hmiddle.add hnode)
            ⟨by simp, by simp only; omega, hright.finish⟩ rfl)
        · intro error middle hmiddle hgrows
          exact preserves_found hmiddle (hends.mono (Nat.le_refl _) hgrows)
      · simp only [hcontains, Bool.false_eq_true, if_false]
        exact preserves_found h hends

/-- An infix operator is applied to an operand of its level, if there is one. -/
theorem preserves_rightOperand (hvalid : level.Valid) (hfixity : level.fixity = .infixOp .right)
    (hlevels : level :: tighter <:+ context.levels) (ih : PreservedBelow context whole bound)
    (hbound : (whole.drop position).length ≤ bound) (h : Intact context whole start)
    (hends : Ends whole least start.arena ⟨id, position⟩) :
    Preserves context whole least start
      (rightOperand context level tighter id position (whole.drop position) start) := by
  cases htokens : whole.drop position with
  | nil =>
    rw [rightOperand]
    exact preserves_found h hends
  | cons token behind =>
    obtain rfl := eq_drop_of_cons htokens
    rw [rightOperand]
    by_cases hcontains : level.operators.contains token = true
    · obtain ⟨op, hop⟩ := hvalid.binary_of_contains hfixity hcontains
      simp only [hcontains, if_true, hop]
      refine preserves_orElse ?_ ?_ (ih.next hbound htokens hlevels h)
      · intro right middle hmiddle hgrows hright
        have hfinish : position + 1 < right.finish := hright.least
        have hleast : least ≤ position := hends.least
        obtain ⟨l, hl⟩ := hmiddle.nodes id (Nat.lt_of_lt_of_le hends.node hgrows)
        obtain ⟨r, hr⟩ := hmiddle.nodes right.node hright.node
        exact preserves_succeed hmiddle ⟨_, Arena.expr?_add_binary hl hr op⟩ (by omega)
          hright.finish
      · intro error middle hmiddle hgrows
        exact preserves_found hmiddle (hends.mono (Nat.le_refl _) hgrows)
    · simp only [hcontains, Bool.false_eq_true, if_false]
      exact preserves_found h hends

/-- A prefix operator is applied to an operand of its level, or else an operand of the
tighter levels is read. -/
theorem preserves_prefixed (hvalid : level.Valid) (hfixity : level.fixity = .prefixOp)
    (hlevels : level :: tighter <:+ context.levels)
    (ih : PreservedBelow context whole (whole.drop position).length)
    (h : Intact context whole start)
    (hoperand : ∀ state, Intact context whole state → Preserves context whole (position + 1) state
      (run context tighter position (whole.drop position) state)) :
    Preserves context whole (position + 1) start
      (prefixed context level tighter position (whole.drop position) start) := by
  cases htokens : whole.drop position with
  | nil =>
    rw [prefixed, ← htokens]
    exact hoperand start h
  | cons token behind =>
    rw [prefixed, ← htokens]
    by_cases hcontains : level.operators.contains token = true
    · obtain ⟨op, hop, -⟩ := hvalid.prefixOp?_of_contains hfixity hcontains
      obtain rfl := eq_drop_of_cons htokens
      simp only [hcontains, if_true, hop]
      refine preserves_orElse ?_ ?_ (ih.next (Nat.le_refl _) htokens hlevels h)
      · intro operand middle hmiddle hgrows hends
        obtain ⟨e, he⟩ := hmiddle.nodes operand.node hends.node
        exact preserves_succeed hmiddle ⟨_, Arena.expr?_add_prefixed he op⟩
          (Nat.le_of_succ_le hends.least) hends.finish
      · exact fun error middle hmiddle _ => hoperand middle hmiddle
    · simp only [hcontains, Bool.false_eq_true, if_false]
      exact hoperand start h

/-- A primary is a number, a variable, or a formula in parentheses. -/
theorem preserves_primary (hending : context.ending.isEnding)
    (hposition : position ≤ whole.length)
    (ih : PreservedBelow context whole (whole.drop position).length)
    (h : Intact context whole start) :
    Preserves context whole (position + 1) start
      (primary context position (whole.drop position) start) := by
  cases htokens : whole.drop position with
  | nil =>
    have hpeek : context.peek (whole.drop position) = context.ending := by
      rw [htokens]
      rfl
    rw [primary, ← hpeek]
    exact preserves_fail h hposition trivial
  | cons token behind =>
    have hlt := lt_length_of_drop htokens
    have hpeek : context.peek (whole.drop position) = token := peek_drop htokens
    have hfail {what : Expectation} (hwhat : what.MayMiss token) :
        Preserves context whole (position + 1) start (start.fail what position token) := by
      rw [← hpeek] at hwhat ⊢
      exact preserves_fail h hposition hwhat
    have hleaf {node : Node}
        (hnode : ∃ e, (start.arena.add node).expr? start.arena.size = some e) :
        Preserves context whole (position + 1) start (start.succeed node (position + 1)) :=
      preserves_succeed h hnode (Nat.le_refl _) hlt
    rw [primary]
    cases hkind : token.kind with
    | leftParen =>
      obtain rfl := eq_drop_of_cons htokens
      refine preserves_andThen ?_ (ih.next (Nat.le_refl _) htokens List.suffix_rfl h)
      intro inner middle hmiddle hgrows hends
      have hfinish : position + 1 < inner.finish := hends.least
      rw [tokensFrom_drop (Nat.le_of_lt hfinish)]
      simp only
      split
      · rename_i hcloses
        have hinside : inner.finish < whole.length := by
          by_contra hle
          rw [List.drop_of_length_le (Nat.le_of_not_lt hle)] at hcloses
          simp_all [ParseContext.peek, Token.isEnding]
        exact preserves_found hmiddle ⟨hends.node, by simp only; omega, hinside⟩
      · exact preserves_fail hmiddle hends.finish trivial
    | integer =>
      cases hvalue : token.literal? with
      | none => exact hfail ⟨.inl hkind, hvalue⟩
      | some value => exact hleaf ⟨_, Arena.expr?_add_literal _ value⟩
    | real =>
      cases hvalue : token.literal? with
      | none => exact hfail ⟨.inr hkind, hvalue⟩
      | some value => exact hleaf ⟨_, Arena.expr?_add_literal _ value⟩
    | letter =>
      cases htext : token.text.toList with
      | nil => exact hfail trivial
      | cons name others => exact hleaf ⟨_, Arena.expr?_add_var _ name⟩
    | _ => exact hfail trivial

/-- The body of a rule keeps the state intact if the calls it makes do. -/
theorem preserves_expand (hall : ∀ l ∈ context.levels, l.Valid) (hending : context.ending.isEnding)
    (hlevels : levels <:+ context.levels) (hposition : position ≤ whole.length)
    (ih : PreservedBelow context whole (whole.drop position).length)
    (h : Intact context whole start)
    (hoperand : ∀ level tighter, levels = level :: tighter → ∀ state, Intact context whole state →
      Preserves context whole (position + 1) state
        (run context tighter position (whole.drop position) state)) :
    Preserves context whole (position + 1) start
      (expand context levels position (whole.drop position) start) := by
  match levels with
  | [] =>
    rw [expand]
    exact preserves_primary hending hposition ih h
  | level :: tighter =>
    have hvalid : level.Valid := hall level (hlevels.mem List.mem_cons_self)
    have htail : tighter <:+ context.levels := (List.suffix_cons level tighter).trans hlevels
    have hfirst := hoperand level tighter rfl start h
    have hbehind {found : Match} {arena : Arena} (hends : Ends whole (position + 1) arena found) :
        tokensFrom (whole.drop position) position found.finish = whole.drop found.finish ∧
          (whole.drop found.finish).length ≤ (whole.drop position).length := by
      have hleast : position + 1 ≤ found.finish := hends.least
      exact ⟨tokensFrom_drop (by omega), by simp only [List.length_drop]; omega⟩
    rw [expand]
    split
    · rename_i hfixity
      exact preserves_prefixed hvalid hfixity hlevels ih h (hoperand level tighter rfl)
    · rename_i hfixity
      refine preserves_andThen ?_ hfirst
      intro found middle hmiddle _ hends
      rw [(hbehind hends).1]
      exact preserves_postfixChain hvalid hfixity hmiddle hends
    · rename_i hfixity
      refine preserves_andThen ?_ hfirst
      intro found middle hmiddle _ hends
      rw [(hbehind hends).1]
      exact preserves_leftChain hvalid hfixity htail ih (hbehind hends).2 hmiddle hends
    · rename_i hfixity
      refine preserves_andThen ?_ hfirst
      intro found middle hmiddle _ hends
      rw [(hbehind hends).1]
      exact preserves_rightOperand hvalid hfixity hlevels ih (hbehind hends).2 hmiddle hends

/-- Every call keeps the state intact. -/
theorem preserves_run (hall : ∀ l ∈ context.levels, l.Valid) (hending : context.ending.isEnding)
    (hlevels : levels <:+ context.levels) (hposition : position ≤ whole.length)
    (h : Intact context whole start) :
    Preserves context whole (position + 1) start
      (run context levels position (whole.drop position) start) := by
  induction levels, hdrop : whole.drop position using rule_induction
    generalizing position start with
  | step levels tokens ih =>
    subst hdrop
    have hbelow : PreservedBelow context whole (whole.drop position).length :=
      fun levels' position' start' hlevels' hposition' hless h' =>
        ih levels' _ (.inl hless) hlevels' hposition' h' rfl
    have hkey : InTable context whole (.ofLevels levels, position) :=
      inTable_ofLevels hlevels hposition
    rw [run]
    cases htooDeep : start.tooDeep with
    | some error =>
      rw [ParseState.enter_of_tooDeep htooDeep]
      exact ⟨h, Nat.le_refl _, by simp⟩
    | none =>
      cases hknown : start.memo.outcome? (.ofLevels levels) position with
      | some outcome =>
        rw [ParseState.enter_known htooDeep hknown]
        refine ⟨h.noteHit hkey, Nat.le_refl _, ?_⟩
        rintro found rfl
        exact h.known _ _ _ hknown
      | none =>
        by_cases hdepth : start.depth < nestingLimit
        · rw [ParseState.enter_started htooDeep hknown hdepth]
          have hbody := preserves_expand hall hending hlevels hposition hbelow
            (h.noteMiss hkey (start.depth + 1) h.stop) (by
              rintro level tighter rfl state hstate
              exact ih tighter _ (.inr ⟨rfl, Nat.lt_succ_self _⟩)
                ((List.suffix_cons level tighter).trans hlevels) hposition hstate rfl)
          exact ⟨hbody.intact.leave _ hbody.ends, hbody.grows, hbody.ends⟩
        · rw [ParseState.enter_limited htooDeep hknown hdepth]
          refine ⟨h.noteMiss hkey start.depth ?_, Nat.le_refl _, by simp⟩
          rintro _ ⟨⟩
          exact ⟨position, hposition, rfl⟩

end Parse

end Formula
