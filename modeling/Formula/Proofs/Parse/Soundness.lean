import Formula.Proofs.Grammar.Separated
import Formula.Proofs.Grammar.Viable
import Formula.Proofs.Parse.Plain

/-!
# What the plain parser reads is derived

Under every valid table a tree that a level reads is derived by this level from
the tokens that were used up. Each failure noted on the way names the token at
its index, and the tokens in front of it are viable wherever the level is awaited.
-/

namespace Formula

/-- A property of the tokens a level reads follows from the same for all calls
with fewer tokens, and for those with as many tokens and fewer levels. -/
theorem rule_induction {motive : List Level → List Token → Prop}
    (step : ∀ levels tokens, (∀ levels' tokens', tokens'.length < tokens.length ∨
      tokens'.length = tokens.length ∧ levels'.length < levels.length → motive levels' tokens') →
      motive levels tokens)
    (levels : List Level) (tokens : List Token) : motive levels tokens := by
  induction hn : tokens.length using Nat.strongRecOn generalizing levels tokens with
  | ind n ihTokens =>
    induction hm : levels.length using Nat.strongRecOn generalizing levels tokens with
    | ind m ihLevels =>
      subst hn hm
      apply step levels tokens
      intro levels' tokens' hless
      rcases hless with hless | ⟨hsame, hless⟩
      · exact ihTokens _ hless levels' tokens' rfl
      · exact ihLevels _ hless levels' tokens' hsame rfl

namespace Level

variable {level : Level} {token : Token}

/-- An operator of a valid prefix level stands for a prefix operator. -/
theorem Valid.prefixOp?_of_contains (h : level.Valid) (hfixity : level.fixity = .prefixOp)
    (hcontains : level.operators.contains token = true) :
    ∃ op, level.operators.prefixOp? token = some op ∧ token.Spells (.prefixed op) := by
  rcases OperatorSet.kind_of_contains hcontains with ⟨hnames, hkind⟩ | ⟨op, hop, hmem⟩
  · exact ⟨.apply token.text, by simp [hnames, OperatorSet.prefixOp?], hkind, rfl⟩
  · have haccepts := h.accepts hmem
    rw [hfixity] at haccepts
    have hlist : level.operators.prefixOp? token = op.asPrefix? := by
      cases hoperators : level.operators with
      | names => simp [hoperators, OperatorSet.list] at hmem
      | symbols list => simp [OperatorSet.prefixOp?, hop]
    cases op with
    | plus => exact ⟨.plus, hlist, by simp [Token.Spells, hop, Operator.asPrefix?]⟩
    | minus => exact ⟨.minus, hlist, by simp [Token.Spells, hop, Operator.asPrefix?]⟩
    | _ => cases haccepts

/-- An operator of a valid postfix level stands for a postfix operator. -/
theorem Valid.postfix_of_contains (h : level.Valid) (hfixity : level.fixity = .postfixOp)
    (hcontains : level.operators.contains token = true) :
    ∃ op, token.operator?.bind Operator.asPostfix? = some op := by
  obtain ⟨op, hop, hmem⟩ := h.operator_of_contains (by simp [hfixity]) hcontains
  have haccepts := h.accepts hmem
  rw [hfixity] at haccepts
  exact ⟨_, by simpa [hop] using (Option.some_get haccepts).symm⟩

/-- An operator of a valid infix level stands for a binary operator. -/
theorem Valid.binary_of_contains {side : Associativity} (h : level.Valid)
    (hfixity : level.fixity = .infixOp side) (hcontains : level.operators.contains token = true) :
    ∃ op, token.operator?.bind Operator.asBinary? = some op := by
  obtain ⟨op, hop, hmem⟩ := h.operator_of_contains (by simp [hfixity]) hcontains
  have haccepts := h.accepts hmem
  rw [hfixity] at haccepts
  exact ⟨_, by simpa [hop] using (Option.some_get haccepts).symm⟩

end Level

namespace Parse

namespace Plain

variable {context : ParseContext} {levels inner tighter : List Level} {level : Level}
  {taken eaten tokens rest : List Token} {position : Nat} {token : Token} {failure : Failure}
  {first second : Reading} {e : Expr}

/-- A failure noted at tokens of which the levels have already taken some: it
names the token at its index and not the nesting limit, and what stands in front
of that token is viable. -/
def Names (context : ParseContext) (levels : List Level) (taken : List Token) (position : Nat)
    (tokens : List Token) (failure : Failure) : Prop :=
  ∃ eaten rest, tokens = eaten ++ rest ∧ failure.1 = position + eaten.length ∧
    failure.2.found = context.peek rest ∧ failure.2.cause ≠ .tooDeep ∧
    ∀ before, Awaits context.levels levels before →
      Viable context.levels (before ++ (taken ++ eaten))

/-- What levels that have already taken some tokens read at the next ones: a tree
that they derive, or a failure that was noted. -/
structure Sound (context : ParseContext) (levels : List Level) (taken : List Token)
    (position : Nat) (tokens : List Token) (reading : Reading) : Prop where
  tree : ∀ e finish, reading.outcome = .ok (e, finish) → ∃ eaten rest, tokens = eaten ++ rest ∧
    finish = position + eaten.length ∧
      Nonempty (Derivation context.levels levels (taken ++ eaten) e)
  noted : ∀ error, reading.outcome = .error error → ∃ index, (index, error) ∈ reading.failures
  names : ∀ failure ∈ reading.failures, Names context levels taken position tokens failure

/-- A failure behind some tokens of a place, noted while other levels were called there. -/
theorem Names.within (eaten : List Token)
    (hawaits : ∀ before, Awaits context.levels levels before →
      Awaits context.levels inner (before ++ (taken ++ eaten)))
    (h : Names context inner [] (position + eaten.length) rest failure) :
    Names context levels taken position (eaten ++ rest) failure := by
  obtain ⟨more, left, rfl, hindex, hfound, hcause, hviable⟩ := h
  refine ⟨eaten ++ more, left, by rw [List.append_assoc], by simp [hindex, Nat.add_assoc],
    hfound, hcause, fun before hbefore => ?_⟩
  simpa using hviable _ (hawaits before hbefore)

/-- The same for the levels themselves, which take the tokens. -/
theorem Names.shift
    (h : Names context levels (taken ++ eaten) (position + eaten.length) rest failure) :
    Names context levels taken position (eaten ++ rest) failure := by
  obtain ⟨more, left, rfl, hindex, hfound, hcause, hviable⟩ := h
  exact ⟨eaten ++ more, left, by rw [List.append_assoc], by simp [hindex, Nat.add_assoc], hfound,
    hcause, fun before hbefore => by simpa using hviable before hbefore⟩

/-- What is sound behind tokens that were taken is sound together with them. -/
theorem Sound.shift (eaten : List Token)
    (h : Sound context levels (taken ++ eaten) (position + eaten.length) rest first) :
    Sound context levels taken position (eaten ++ rest) first where
  tree := by
    intro e finish hok
    obtain ⟨more, left, rfl, hfinish, hderives⟩ := h.tree e finish hok
    exact ⟨eaten ++ more, left, by rw [List.append_assoc], by simp [hfinish, Nat.add_assoc],
      by simpa using hderives⟩
  noted := h.noted
  names := by
    intro failure hmem
    exact (h.names failure hmem).shift

/-- What is read after another reading is judged together with its failures. -/
theorem Sound.before
    (hfirst : ∀ failure ∈ first.failures, Names context levels taken position tokens failure)
    (hsecond : Sound context levels taken position tokens second) :
    Sound context levels taken position tokens (first.before second) where
  tree := hsecond.tree
  noted := by
    intro error herror
    obtain ⟨index, hmem⟩ := hsecond.noted error herror
    exact ⟨index, List.mem_append_right _ hmem⟩
  names := by
    intro failure hmem
    rcases List.mem_append.mp hmem with hmem | hmem
    · exact hfirst failure hmem
    · exact hsecond.names failure hmem

/-- One token more in front counts for one index more. -/
theorem add_length_cons (position : Nat) (token : Token) (eaten : List Token) :
    position + (token :: eaten).length = position + 1 + eaten.length := by
  rw [List.length_cons]
  omega

/-- Tokens already taken are read as the tree they yield. -/
theorem sound_found (derivation : Derivation context.levels levels taken e) :
    Sound context levels taken position tokens (.found e position) where
  tree := by
    rintro _ _ ⟨⟩
    exact ⟨[], tokens, rfl, rfl, ⟨by rwa [List.append_nil]⟩⟩
  noted := by rintro _ ⟨⟩
  names := by rintro _ ⟨⟩

/-- A failure at the next token. -/
theorem sound_fail {what : Expectation}
    (hviable : ∀ before, Awaits context.levels levels before →
      Viable context.levels (before ++ taken)) :
    Sound context levels taken position tokens (.fail what position (context.peek tokens)) where
  tree := by rintro _ _ ⟨⟩
  noted := by
    rintro _ ⟨⟩
    exact ⟨position, List.mem_singleton.mpr rfl⟩
  names := by
    intro failure hmem
    cases List.mem_singleton.mp hmem
    exact ⟨[], tokens, rfl, rfl, rfl, nofun,
      fun before hbefore => by simpa using hviable before hbefore⟩

/-- What the tighter levels note is noted in the same place. -/
theorem Sound.names_tail (h : Sound context tighter [] position tokens first) :
    ∀ failure ∈ first.failures, Names context (level :: tighter) [] position tokens failure := by
  intro failure hmem
  apply Names.within [] ?_ (h.names failure hmem)
  intro before hbefore
  simpa using hbefore.tail

/-- What the tighter levels read is read by the level. -/
theorem Sound.widen (h : Sound context tighter [] position tokens first) :
    Sound context (level :: tighter) [] position tokens first where
  tree := by
    intro e finish hok
    obtain ⟨eaten, rest, htokens, hfinish, ⟨derivation⟩⟩ := h.tree e finish hok
    exact ⟨eaten, rest, htokens, hfinish, ⟨.tighter derivation⟩⟩
  noted := h.noted
  names := h.names_tail

/-- Going on behind an operand. -/
theorem Sound.andThen {next : Expr → Nat → Reading}
    (hfirst : Sound context tighter [] position tokens first)
    (hnext : ∀ eaten rest e, tokens = eaten ++ rest →
      Derivation context.levels tighter eaten e →
      Sound context (level :: tighter) eaten (position + eaten.length) rest
        (next e (position + eaten.length))) :
    Sound context (level :: tighter) [] position tokens (first.andThen next) := by
  cases hok : first.outcome with
  | error error =>
    rw [Reading.andThen_of_error hok]
    exact hfirst.widen
  | ok found =>
    obtain ⟨e, finish⟩ := found
    rw [Reading.andThen_of_ok hok]
    obtain ⟨eaten, rest, rfl, rfl, ⟨derivation⟩⟩ := hfirst.tree e finish hok
    have hrest := hnext eaten rest e rfl derivation
    exact .before hfirst.names_tail (.shift eaten (by simpa using hrest))

/-- Postfix operators are applied to what was taken. -/
theorem sound_postfixChain (hvalid : level.Valid) (hfixity : level.fixity = .postfixOp)
    (derivation : Derivation context.levels (level :: tighter) taken e) :
    Sound context (level :: tighter) taken position tokens
      (postfixChain context level.operators e position tokens) := by
  induction tokens generalizing taken e position with
  | nil => exact sound_found derivation
  | cons token behind ih =>
    by_cases hcontains : level.operators.contains token = true
    · obtain ⟨op, hop⟩ := hvalid.postfix_of_contains hfixity hcontains
      simp only [postfixChain, hcontains, if_true, hop]
      exact Sound.shift [token] (ih (.postfixed hfixity hcontains hop derivation))
    · simp only [postfixChain, hcontains, Bool.false_eq_true, if_false]
      exact sound_found derivation

/-- Going on behind the operand of an operator that was taken, or in another way if there is
none. -/
theorem sound_orElse {next : Expr → Nat → Reading} {other : Reading}
    (hawaits : ∀ before, Awaits context.levels levels before →
      Awaits context.levels inner (before ++ (taken ++ [token])))
    (hfirst : Sound context inner [] (position + 1) rest first)
    (hnext : ∀ eaten behind e, rest = eaten ++ behind → Derivation context.levels inner eaten e →
      Sound context levels (taken ++ token :: eaten) (position + 1 + eaten.length) behind
        (next e (position + 1 + eaten.length)))
    (hother : Sound context levels taken position (token :: rest) other) :
    Sound context levels taken position (token :: rest) (first.orElse next other) := by
  have hnames : ∀ failure ∈ first.failures,
      Names context levels taken position (token :: rest) failure :=
    fun failure hmem => Names.within [token] hawaits (hfirst.names failure hmem)
  cases hok : first.outcome with
  | error error =>
    rw [Reading.orElse_of_error hok]
    exact .before hnames hother
  | ok found =>
    obtain ⟨e, finish⟩ := found
    obtain ⟨eaten, behind, rfl, rfl, ⟨derivation⟩⟩ := hfirst.tree e finish hok
    rw [Reading.orElse_of_ok hok]
    refine .before hnames (Sound.shift (token :: eaten) ?_)
    rw [add_length_cons]
    exact hnext eaten behind e rfl derivation

/-- All calls with fewer tokens are sound. -/
def SoundBelow (context : ParseContext) (bound : Nat) : Prop :=
  ∀ levels tokens, (∀ level ∈ levels, level.Valid) → tokens.length < bound → ∀ position,
    Sound context levels [] position tokens (read context levels position tokens)

/-- Infix operators are applied to what was taken, from left to right. -/
theorem sound_leftChain (hvalid : ∀ l ∈ level :: tighter, l.Valid)
    (hfixity : level.fixity = .infixOp .left) {bound : Nat} (ih : SoundBelow context bound)
    (hbound : tokens.length ≤ bound)
    (derivation : Derivation context.levels (level :: tighter) taken e) :
    Sound context (level :: tighter) taken position tokens
      (leftChain context level.operators tighter e position tokens) := by
  induction hn : tokens.length using Nat.strongRecOn generalizing taken e position tokens with
  | ind n chained =>
    match tokens with
    | [] =>
      rw [leftChain]
      exact sound_found derivation
    | token :: behind =>
      by_cases hcontains : level.operators.contains token = true
      · obtain ⟨op, hop⟩ := (hvalid level List.mem_cons_self).binary_of_contains hfixity hcontains
        have hright := ih tighter behind (fun l hl => hvalid l (List.mem_cons_of_mem _ hl))
          (by simp only [List.length_cons] at hbound; omega) (position + 1)
        rw [leftChain]
        simp only [hcontains, if_true]
        refine sound_orElse
          (fun before hbefore => hbefore.behind_left hfixity hcontains hop derivation) hright
          (fun eaten rest right hsplit operand => ?_) (sound_found derivation)
        subst hsplit
        simp only [hop, tokensFrom_append]
        simp only [List.length_cons, List.length_append] at hbound hn
        exact chained rest.length (by omega) (by omega)
          (.left hfixity hcontains hop derivation operand) rfl
      · rw [leftChain]
        simp only [hcontains, Bool.false_eq_true, if_false]
        exact sound_found derivation

/-- An infix operator is applied to what was taken and to an operand of its level. -/
theorem sound_rightOperand (hvalid : ∀ l ∈ level :: tighter, l.Valid)
    (hfixity : level.fixity = .infixOp .right) {bound : Nat} (ih : SoundBelow context bound)
    (hbound : tokens.length ≤ bound) (derivation : Derivation context.levels tighter taken e) :
    Sound context (level :: tighter) taken position tokens
      (rightOperand context level tighter e position tokens) := by
  match tokens with
  | [] =>
    rw [rightOperand]
    exact sound_found (.tighter derivation)
  | token :: behind =>
    by_cases hcontains : level.operators.contains token = true
    · obtain ⟨op, hop⟩ := (hvalid level List.mem_cons_self).binary_of_contains hfixity hcontains
      have hright := ih (level :: tighter) behind hvalid hbound (position + 1)
      rw [rightOperand]
      simp only [hcontains, if_true]
      refine sound_orElse
        (fun before hbefore => hbefore.behind_right hfixity hcontains hop derivation) hright
        (fun eaten rest right _ operand => ?_) (sound_found (.tighter derivation))
      simp only [hop]
      exact sound_found (.right hfixity hcontains hop derivation operand)
    · rw [rightOperand]
      simp only [hcontains, Bool.false_eq_true, if_false]
      exact sound_found (.tighter derivation)

/-- A prefix operator is applied to an operand of its level, or an operand of the
tighter levels is read in its place. -/
theorem sound_prefixed (hvalid : ∀ l ∈ level :: tighter, l.Valid)
    (hfixity : level.fixity = .prefixOp) (ih : SoundBelow context tokens.length)
    (hoperand : Sound context tighter [] position tokens (read context tighter position tokens)) :
    Sound context (level :: tighter) [] position tokens
      (prefixed context level tighter position tokens) := by
  match tokens with
  | [] =>
    rw [prefixed]
    exact hoperand.widen
  | token :: behind =>
    by_cases hcontains : level.operators.contains token = true
    · obtain ⟨op, hop, hspells⟩ :=
        (hvalid level List.mem_cons_self).prefixOp?_of_contains hfixity hcontains
      have hinner := ih (level :: tighter) behind hvalid (Nat.lt_succ_self _) (position + 1)
      rw [prefixed]
      simp only [hcontains, if_true]
      refine sound_orElse
        (fun before hbefore => hbefore.behind_prefix hfixity hcontains hspells) hinner
        (fun eaten rest operand _ derivation => ?_) hoperand.widen
      simp only [hop]
      exact sound_found (.prefixed hfixity hcontains hspells derivation)
    · rw [prefixed]
      simp only [hcontains, Bool.false_eq_true, if_false]
      exact hoperand.widen

/-- Behind the formula in parentheses stands the closing one, or a failure is noted there. -/
theorem sound_closing {body : Expr} (hending : context.ending.isEnding)
    (hopens : token.kind = .leftParen)
    (derivation : Derivation context.levels context.levels eaten body) :
    Sound context [] [] position (token :: (eaten ++ rest))
      (if (context.peek rest).kind = .rightParen then
        .found body (position + 1 + eaten.length + 1)
      else .fail (.closingParen token.location.column) (position + 1 + eaten.length)
        (context.peek rest)) := by
  split
  · rename_i hcloses
    cases rest with
    | nil => simp_all [ParseContext.peek, Token.isEnding]
    | cons closing rest =>
      have hwhole : token :: (eaten ++ closing :: rest) =
          (token :: (eaten ++ [closing])) ++ rest := by simp
      have hend : position + 1 + eaten.length + 1 =
          position + (token :: (eaten ++ [closing])).length := by
        simp only [List.length_cons, List.length_append, List.length_nil]
        omega
      rw [hwhole, hend]
      exact Sound.shift _ (sound_found (.paren hopens hcloses derivation))
  · refine Sound.shift (token :: eaten) ?_
    rw [add_length_cons]
    apply sound_fail
    intro before hbefore
    simpa using hbefore.behind_paren hopens eaten body derivation

/-- A primary is a number, a variable, or what all levels read in parentheses. -/
theorem sound_primary (hall : ∀ l ∈ context.levels, l.Valid) (hending : context.ending.isEnding)
    (ih : SoundBelow context tokens.length) :
    Sound context [] [] position tokens (primary context position tokens) := by
  have hfail {what : Expectation} :
      Sound context [] [] position tokens (.fail what position (context.peek tokens)) :=
    sound_fail fun before hbefore => by simpa using hbefore.viable
  match tokens with
  | [] =>
    rw [primary]
    exact hfail
  | token :: behind =>
    have hleaf {e : Expr} (leaf : Derivation context.levels [] [token] e) :
        Sound context [] [] position (token :: behind) (.found e (position + 1)) :=
      Sound.shift [token] (sound_found leaf)
    rw [primary]
    split
    · rename_i hopens
      have hinner := ih context.levels behind hall (Nat.lt_succ_self _) (position + 1)
      have hnames : ∀ failure ∈ (read context context.levels (position + 1) behind).failures,
          Names context [] [] position (token :: behind) failure := by
        intro failure hmem
        apply Names.within [token] ?_ (hinner.names failure hmem)
        intro before hbefore
        exact hbefore.behind_paren hopens
      cases hok : (read context context.levels (position + 1) behind).outcome with
      | error error =>
        rw [Reading.andThen_of_error hok]
        refine ⟨?_, hinner.noted, hnames⟩
        intro _ _ h
        rw [hok] at h
        cases h
      | ok found =>
        obtain ⟨body, finish⟩ := found
        obtain ⟨eaten, rest, rfl, rfl, ⟨derivation⟩⟩ := hinner.tree body finish hok
        simp only [Reading.andThen_of_ok hok, tokensFrom_append]
        refine .before hnames ?_
        exact sound_closing hending hopens derivation
    · split
      · rename_i value hvalue
        exact hleaf (.literal hvalue)
      · exact hfail
    · split
      · rename_i value hvalue
        exact hleaf (.literal hvalue)
      · exact hfail
    · rename_i hletter
      split
      · rename_i name others htext
        exact hleaf (.var ⟨hletter, by simp [htext]⟩)
      · exact hfail
    · exact hfail

/-- The body of a rule is sound if the calls it makes are. -/
theorem sound_readBody (hall : ∀ l ∈ context.levels, l.Valid) (hending : context.ending.isEnding)
    (hvalid : ∀ l ∈ levels, l.Valid) (ih : SoundBelow context tokens.length)
    (hoperand : ∀ level tighter, levels = level :: tighter →
      Sound context tighter [] position tokens (read context tighter position tokens)) :
    Sound context levels [] position tokens (readBody context levels position tokens) := by
  match levels with
  | [] =>
    rw [readBody]
    exact sound_primary hall hending ih
  | level :: tighter =>
    have hlevel := hvalid level List.mem_cons_self
    have hfirst := hoperand level tighter rfl
    rw [readBody]
    split
    · rename_i hfixity
      exact sound_prefixed hvalid hfixity ih hfirst
    · rename_i hfixity
      apply hfirst.andThen
      intro eaten rest e htokens derivation
      rw [htokens, tokensFrom_append]
      exact sound_postfixChain hlevel hfixity (.tighter derivation)
    · rename_i hfixity
      apply hfirst.andThen
      intro eaten rest e htokens derivation
      have hbound : rest.length ≤ tokens.length := by simp [htokens]
      rw [htokens, tokensFrom_append]
      exact sound_leftChain hvalid hfixity ih hbound (.tighter derivation)
    · rename_i hfixity
      apply hfirst.andThen
      intro eaten rest e htokens derivation
      have hbound : rest.length ≤ tokens.length := by simp [htokens]
      rw [htokens, tokensFrom_append]
      exact sound_rightOperand hvalid hfixity ih hbound derivation

/-- Every reading by valid levels is sound. -/
theorem sound_read (hall : ∀ l ∈ context.levels, l.Valid) (hending : context.ending.isEnding)
    (hvalid : ∀ l ∈ levels, l.Valid) (position : Nat) (tokens : List Token) :
    Sound context levels [] position tokens (read context levels position tokens) := by
  induction levels, tokens using rule_induction generalizing position with
  | step levels tokens ih =>
    have hbelow : SoundBelow context tokens.length :=
      fun levels' tokens' hvalid' hless => (ih levels' tokens' (.inl hless) hvalid' ·)
    have hbody : Sound context levels [] position tokens
        (readBody context levels position tokens) := by
      apply sound_readBody hall hending hvalid hbelow
      intro level tighter hlevels
      subst hlevels
      exact ih tighter tokens (.inr ⟨rfl, Nat.lt_succ_self _⟩)
        (fun l hl => hvalid l (List.mem_cons_of_mem _ hl)) position
    rw [read]
    exact ⟨hbody.tree, hbody.noted, hbody.names⟩

end Plain

end Parse

end Formula
