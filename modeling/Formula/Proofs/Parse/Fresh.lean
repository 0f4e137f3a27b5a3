import Formula.Proofs.Parse.Lookups

/-!
# A separated grammar looks nothing up again

Under a separated grammar the parser leaves what it tried in vain for good. Where an
operand of a sign or of an infix operator fails, the operator is not read in any other way.
A name may still be a variable; but then what is tried behind it has failed at its first
token, or this token lets no level go on. So all that is known lies at tokens that no rule
is called for any more.
-/

namespace Formula

namespace Parse

variable {context : ParseContext} {whole : List Token} {levels tighter : List Level}
  {level : Level} {position later : Nat} {task : Task} {start middle finish : ParseState}
  {outcome : Outcome} {found : Match} {error : ParseError} {token : Token} {rule : Rule}
  {memo : Memo}

/-- Nothing is known from an index on. -/
def Fresh (memo : Memo) (position : Nat) : Prop :=
  ∀ rule start, position ≤ start → memo.outcome? rule start = none

/-- The rules of the levels are not known at an index. -/
def Untried (memo : Memo) (levels : List Level) (position : Nat) : Prop :=
  ∀ rule, rule.rank ≤ levels.length → memo.outcome? rule position = none

/-- None of the levels reads anything behind the token before it has read the token itself
as a number or as a variable. -/
def Inert (whole : List Token) (levels : List Level) (position : Nat) : Prop :=
  ∀ token, whole[position]? = some token → token.kind ≠ .leftParen ∧
    ∀ level ∈ levels, level.fixity = .prefixOp → level.operators.contains token = false

/-- No level that is looser than the given ones goes on with the token, and neither does a
parenthesis. -/
def Stuck (context : ParseContext) (whole : List Token) (levels : List Level)
    (position : Nat) : Prop :=
  ∃ token, whole[position]? = some token ∧ token.kind ≠ .rightParen ∧
    ∀ level tighter, level :: tighter <:+ context.levels → levels.length ≤ tighter.length →
      level.fixity ≠ .prefixOp → level.operators.contains token = false

/-- If a looser level goes on with the token, nothing is known behind it. -/
def Open (context : ParseContext) (whole : List Token) (levels : List Level) (memo : Memo)
    (position : Nat) : Prop :=
  Fresh memo (position + 1) ∨ Stuck context whole levels position

/-- If nothing is known from an index on, then nothing is known from a later one on. -/
theorem Fresh.mono (h : Fresh memo position) (hle : position ≤ later) : Fresh memo later :=
  fun rule start hstart => h rule start (Nat.le_trans hle hstart)

/-- What is kept at an earlier token does not matter. -/
theorem Fresh.insert (h : Fresh memo later) (hlt : position < later) :
    Fresh (memo.insert rule position outcome) later := by
  intro other start hstart
  rw [Memo.outcome?_insert, if_neg (by omega)]
  exact h other start hstart

/-- Where the levels read the token itself first, the tighter ones do. -/
theorem Inert.tail (h : Inert whole (level :: tighter) position) : Inert whole tighter position :=
  fun token htoken => ⟨(h token htoken).1,
    fun other hother => (h token htoken).2 other (List.mem_cons_of_mem _ hother)⟩

/-- Fewer levels are looser than more of them. -/
theorem Stuck.widen (h : Stuck context whole tighter position) :
    Stuck context whole (level :: tighter) position := by
  obtain ⟨token, htoken, hkind, hnone⟩ := h
  refine ⟨token, htoken, hkind, fun other rest hother hlength => ?_⟩
  exact hnone other rest hother (Nat.le_of_succ_le hlength)

/-- What is open for some levels is open for one level more. -/
theorem Open.widen (h : Open context whole tighter memo position) :
    Open context whole (level :: tighter) memo position :=
  h.imp_right Stuck.widen

/-- What is kept at an earlier token does not matter for what goes on. -/
theorem Open.insert (h : Open context whole levels memo later) (hlt : position < later) :
    Open context whole levels (memo.insert rule position outcome) later :=
  h.imp_left fun hfresh => hfresh.insert (Nat.lt_succ_of_lt hlt)

/-- Where a level goes on, nothing is known behind the token. -/
theorem Open.fresh (h : Open context whole tighter memo position)
    (hlevels : level :: tighter <:+ context.levels) (hfixity : level.fixity ≠ .prefixOp)
    (htoken : whole[position]? = some token) (hcontains : level.operators.contains token = true) :
    Fresh memo (position + 1) := by
  refine h.resolve_right ?_
  rintro ⟨other, hother, -, hnone⟩
  rw [htoken] at hother
  cases hother
  rw [hnone level tighter hlevels (Nat.le_refl _) hfixity] at hcontains
  cases hcontains

/-- What a call needs: its rules are untried, and unless nothing is known behind the token,
the levels stop at it or go on as if nothing were. -/
structure Callable (context : ParseContext) (whole : List Token) (levels : List Level)
    (memo : Memo) (position : Nat) : Prop where
  untried : Untried memo levels position
  fresh : Fresh memo (position + 1) ∨ Inert whole levels position
  leaf : ∀ token, whole[position]? = some token →
    token.kind = .integer ∨ token.kind = .real ∨ token.kind = .letter →
    Open context whole [] memo (position + 1)

/-- Where nothing is known, any rule may be called. -/
theorem Fresh.callable (h : Fresh memo position) (context : ParseContext) (whole : List Token)
    (levels : List Level) : Callable context whole levels memo position where
  untried rule _ := h rule position (Nat.le_refl _)
  fresh := .inl (h.mono (Nat.le_succ _))
  leaf _ _ _ := .inl (h.mono (Nat.le_add_right _ 2))

/-- A look-up that was noted does not matter for a call. -/
theorem Callable.noteMiss (h : Callable context whole levels memo position) :
    Callable context whole levels (memo.noteMiss rule later) position :=
  ⟨h.untried, h.fresh, h.leaf⟩

/-- Where a rule may be called, a tighter one may be called. -/
theorem Callable.tail (h : Callable context whole (level :: tighter) memo position) :
    Callable context whole tighter memo position where
  untried rule hrank := h.untried rule (Nat.le_succ_of_le hrank)
  fresh := h.fresh.imp_right Inert.tail
  leaf := h.leaf

/-- Where the levels take the token for something else, nothing is known behind it. -/
theorem Callable.fresh_of_opens (h : Callable context whole levels memo position)
    (htoken : whole[position]? = some token) (hopens : token.kind = .leftParen) :
    Fresh memo (position + 1) :=
  h.fresh.resolve_right fun hinert => (hinert token htoken).1 hopens

/-- Where a level takes the token for its prefix operator, nothing is known behind it. -/
theorem Callable.fresh_of_sign (h : Callable context whole (level :: tighter) memo position)
    (hfixity : level.fixity = .prefixOp) (htoken : whole[position]? = some token)
    (hcontains : level.operators.contains token = true) : Fresh memo (position + 1) := by
  refine h.fresh.resolve_right fun hinert => ?_
  rw [(hinert token htoken).2 level List.mem_cons_self hfixity] at hcontains
  cases hcontains

/-- What has to hold for a task to begin. -/
def Task.Fits (context : ParseContext) (whole : List Token) : Task → Memo → Prop
  | .call levels position, memo => Callable context whole levels memo position
  | .body levels position, memo => Callable context whole levels memo position
  | .onward _ tighter operand, memo => Open context whole tighter memo operand.finish

/-- What holds when a task has ended. Behind an operand nothing fails. -/
def Task.Leaves (context : ParseContext) (whole : List Token) :
    Task → Memo → Outcome → Memo → Prop
  | .call levels _, _, .ok found, memo => Open context whole levels memo found.finish
  | .body levels _, _, .ok found, memo => Open context whole levels memo found.finish
  | .call levels position, first, .error _, memo =>
    Fresh first (position + 1) → Inert whole levels position → Fresh memo (position + 1)
  | .body levels position, first, .error _, memo =>
    Fresh first (position + 1) → Inert whole levels position → Fresh memo (position + 1)
  | .onward level tighter _, _, .ok found, memo =>
    Open context whole (level :: tighter) memo found.finish
  | .onward _ _ _, _, .error _, _ => False

/-- What a level leaves does not depend on the operand it began behind. -/
theorem Task.Leaves.of_later {first other : Memo} {operand later : Match}
    (h : (Task.onward level tighter later).Leaves context whole first outcome memo) :
    (Task.onward level tighter operand).Leaves context whole other outcome memo := by
  cases outcome <;> exact h

/-- A body leaves what its level leaves when it has gone on behind the operand. -/
theorem Task.Leaves.of_onward {first other : Memo}
    (h : (Task.onward level tighter found).Leaves context whole first outcome memo) :
    (Task.body (level :: tighter) position).Leaves context whole other outcome memo := by
  cases outcome with
  | ok last => exact h
  | error error => exact h.elim

/-- The tighter levels stop at a prefix operator. -/
theorem inert_of_contains (horder : Orderly (level :: tighter)) (hfixity : level.fixity = .prefixOp)
    (htoken : whole[position]? = some token) (hcontains : level.operators.contains token = true) :
    Inert whole tighter position := by
  intro same hsame
  rw [htoken] at hsame
  cases hsame
  have hparen := OperatorSet.isParen_eq_false_of_contains hcontains
  refine ⟨fun hopens => by simp [Token.isParen, hopens] at hparen, fun other hother hsign => ?_⟩
  rcases OperatorSet.kind_of_contains hcontains with ⟨hnames, -⟩ | ⟨op, hop, hmem⟩
  · exact absurd hsign (horder.not_prefix_of_names hnames other hother)
  · have hside : other.fixity.sameSide level.fixity = true := by
      simp [hsign, hfixity, Fixity.sameSide]
    by_contra hne
    have hshared := (OperatorSet.contains_iff hop).mp (by simpa using hne)
    exact (horder.head_apart hother).symbols hside op hshared hmem

/-- A name that is read as a variable: what was tried behind it has failed at its first
token, or no level goes on there. -/
theorem open_of_attempt (hvalid : ∀ l ∈ context.levels, l.Valid)
    (horder : Orderly (level :: tighter)) (hcontains : level.operators.contains token = true)
    (hkind : token.kind = .integer ∨ token.kind = .real ∨ token.kind = .letter)
    (hattempt : Inert whole (level :: tighter) (position + 1) → Fresh memo (position + 2)) :
    Open context whole [] memo (position + 1) := by
  have hnames : level.operators = .names := by
    rcases OperatorSet.kind_of_contains hcontains with ⟨hnames, -⟩ | ⟨op, hop, -⟩
    · exact hnames
    · rw [Token.kind_of_operator? hop] at hkind
      simp at hkind
  by_cases hinert : Inert whole (level :: tighter) (position + 1)
  · exact .inl (hattempt hinert)
  · right
    simp only [Inert, not_forall] at hinert
    obtain ⟨next, hnext, hnot⟩ := hinert
    have hkinds : next.kind = .leftParen ∨ next.kind = .identifier ∨ next.kind = .letter := by
      by_contra hother
      refine hnot ⟨fun hopens => hother (.inl hopens), fun other hmem hsign => ?_⟩
      rcases List.mem_cons.mp hmem with rfl | hmem
      · rw [hnames]
        refine Bool.eq_false_iff.mpr fun hin => hother (.inr ?_)
        simpa [OperatorSet.contains] using hin
      · exact absurd hsign (horder.not_prefix_of_names hnames other hmem)
    refine ⟨next, hnext, by rcases hkinds with hk | hk | hk <;> simp [hk], ?_⟩
    intro other rest hother _ hbehind
    by_contra hin
    obtain ⟨op, hop, -⟩ := (hvalid other (hother.mem List.mem_cons_self)).operator_of_contains
      hbehind (by simpa using hin)
    rw [Token.kind_of_operator? hop] at hkinds
    simp at hkinds

/-- No looser level goes on with an infix operator that was given back. -/
theorem stuck_of_givenBack (horder : Orderly context.levels)
    (hlevels : level :: tighter <:+ context.levels) (hfixity : level.fixity ≠ .prefixOp)
    (htoken : whole[position]? = some token) (hcontains : level.operators.contains token = true) :
    Stuck context whole (level :: tighter) position := by
  have hparen := OperatorSet.isParen_eq_false_of_contains hcontains
  refine ⟨token, htoken, fun hcloses => by simp [Token.isParen, hcloses] at hparen, ?_⟩
  intro looser rest hlooser hlength hbehind
  have hmem : level ∈ rest := by
    have hrest : rest <:+ context.levels := (List.suffix_cons looser rest).trans hlooser
    exact (List.suffix_of_suffix_length_le hlevels hrest hlength).mem List.mem_cons_self
  by_contra hin
  have happart := (horder.of_suffix hlooser).head_apart hmem
  have hnone := happart.contains_eq_false (horder.valid looser (hlooser.mem List.mem_cons_self))
    (horder.valid level (hlevels.mem List.mem_cons_self)) hbehind hfixity (by simpa using hin)
  rw [hnone] at hcontains
  cases hcontains

/-- Under an orderly grammar no outcome is given again. -/
theorem Performs.fresh (horder : Orderly context.levels)
    (h : Performs context whole task start outcome finish)
    (hfits : start.tooDeep = none → task.Fits context whole start.memo) :
    finish.memo.found = start.memo.found ∧
      (finish.tooDeep = none → task.Leaves context whole start.memo outcome finish.memo) := by
  induction h with
  | stopped hsome =>
    refine ⟨rfl, fun hnone => ?_⟩
    rw [hsome] at hnone
    cases hnone
  | known hnone hknown =>
    -- A rule is called only where it was not tried.
    have hunknown := (hfits hnone).untried _ (Nat.le_of_eq (Rule.rank_ofLevels _))
    rw [hunknown] at hknown
    cases hknown
  | limited => exact ⟨rfl, nofun⟩
  | @started levels position depth start finish outcome hlevels hposition hnone hunknown hleast
      body ih =>
    obtain ⟨hfound, hleaves⟩ := ih fun _ => (hfits hnone).noteMiss
    refine ⟨hfound, fun hend => ?_⟩
    have hbody := hleaves hend
    cases outcome with
    | ok found => exact Open.insert hbody (hleast found rfl)
    | error error => exact fun hfresh hinert => (hbody hfresh hinert).insert (Nat.lt_succ_self _)
  | failed => exact ⟨rfl, fun _ hfresh _ => hfresh⟩
  | leaf htoken hkind => exact ⟨rfl, fun hnone => (hfits hnone).leaf _ htoken hkind⟩
  | paren hopening hopens body hlt hclosing hcloses ih =>
    obtain ⟨hfound, hleaves⟩ := ih fun hnone =>
      ((hfits hnone).fresh_of_opens hopening hopens).callable _ _ _
    refine ⟨hfound, fun hend => ?_⟩
    rcases hleaves hend with hfresh | ⟨token, htoken, hkind, -⟩
    · exact .inl (hfresh.mono (Nat.le_succ _))
    · -- No level is stuck at a closing parenthesis.
      rw [hclosing] at htoken
      cases htoken
      exact absurd hcloses hkind
  | unclosed hopening hopens body ih =>
    obtain ⟨hfound, -⟩ := ih fun hnone =>
      ((hfits hnone).fresh_of_opens hopening hopens).callable _ _ _
    exact ⟨hfound, fun _ _ hinert => absurd hopens (hinert _ hopening).1⟩
  | prefixed hfixity htoken hcontains inner hlt ih =>
    exact ih fun hnone => ((hfits hnone).fresh_of_sign hfixity htoken hcontains).callable _ _ _
  | @fallback level tighter position start middle finish token error outcome hlevels hfixity
      htoken hcontains attempt operand ihattempt ihoperand =>
    have hinert : Inert whole tighter position :=
      inert_of_contains (horder.of_suffix hlevels) hfixity htoken hcontains
    have hfresh (hnone : start.tooDeep = none) : Fresh start.memo (position + 1) :=
      (hfits hnone).fresh_of_sign hfixity htoken hcontains
    obtain ⟨hattempted, hleaves⟩ := ihattempt fun hnone => (hfresh hnone).callable _ _ _
    -- What the attempt has left lies at its first token, or no level goes on with this token.
    have hoperand (hnone : middle.tooDeep = none) :
        Callable context whole tighter middle.memo position := by
      have hstart := attempt.tooDeep_start hnone
      refine ⟨fun rule hrank => ?_, .inr hinert, fun same hsame hkind => ?_⟩
      · exact attempt.keeps.unknown ((hfits hstart).untried rule (Nat.le_succ_of_le hrank))
          fun hreach => Nat.lt_irrefl _ hreach.of_next
      · rw [htoken] at hsame
        cases hsame
        refine open_of_attempt horder.valid (horder.of_suffix hlevels) hcontains hkind ?_
        exact hleaves hnone ((hfresh hstart).mono (Nat.le_succ _))
    obtain ⟨hfound, hends⟩ := ihoperand hoperand
    refine ⟨hfound.trans hattempted, fun hend => ?_⟩
    cases outcome with
    | ok found => exact Open.widen (hends hend)
    | error error =>
      intro _ hstops
      rw [(hstops token htoken).2 level List.mem_cons_self hfixity] at hcontains
      cases hcontains
  | @passed level tighter position start finish outcome operand ih =>
    obtain ⟨hfound, hleaves⟩ := ih fun hnone => (hfits hnone).tail
    refine ⟨hfound, fun hend => ?_⟩
    cases outcome with
    | ok found => exact Open.widen (hleaves hend)
    | error error => exact fun hfresh hinert => hleaves hend hfresh hinert.tail
  | @operand level tighter position start middle finish found outcome first hlt rest ihfirst
      ihrest =>
    obtain ⟨hfirst, hopen⟩ := ihfirst fun hnone => (hfits hnone).tail
    obtain ⟨hrest, hleaves⟩ := ihrest hopen
    exact ⟨hrest.trans hfirst, fun hend => (hleaves hend).of_onward⟩
  | ends => exact ⟨rfl, fun hnone => (hfits hnone).widen⟩
  | @postfixed level tighter start finish found token op node outcome hlevels hfixity htoken
      hcontains hop rest ih =>
    obtain ⟨hfound, hleaves⟩ := ih fun hnone =>
      .inl (((hfits hnone).fresh hlevels hfixity htoken hcontains).mono (Nat.le_succ _))
    exact ⟨hfound, fun hend => (hleaves hend).of_later⟩
  | @left level tighter start middle finish found right token op node outcome hlevels hfixity
      htoken hcontains hop second hlt rest ihsecond ihrest =>
    obtain ⟨hsecond, hopen⟩ := ihsecond fun hnone =>
      ((hfits hnone).fresh hlevels hfixity htoken hcontains).callable _ _ _
    obtain ⟨hrest, hleaves⟩ := ihrest hopen
    exact ⟨hrest.trans hsecond, fun hend => (hleaves hend).of_later⟩
  | right hlevels hfixity htoken hcontains hop second hlt ih =>
    exact ih fun hnone => ((hfits hnone).fresh hlevels hfixity htoken hcontains).callable _ _ _
  | givenBack hlevels hsuffix hfixity htoken hcontains hop second ih =>
    obtain ⟨hfound, -⟩ := ih fun hnone =>
      ((hfits hnone).fresh hlevels hfixity htoken hcontains).callable _ _ _
    exact ⟨hfound, fun _ => .inr (stuck_of_givenBack horder hlevels hfixity htoken hcontains)⟩

end Parse

end Formula
