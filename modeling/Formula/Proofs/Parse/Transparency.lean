import Formula.Proofs.Parse.Simulation

/-!
# Memo and nesting limit are transparent

The plain parser has no more rules active at once than there are pairs of a rule
and a token, so that it comes to an end on every token list. A parse that does not
fail for nesting gives what the plain parser gives, and it cannot fail for nesting
unless the plain parser has more rules active at once than the limit allows.
-/

namespace Formula

/-- The end of the input that a parse reads is one. -/
theorem Token.isEnding_firstEnding (tokens : List Token) : (firstEnding tokens).isEnding := by
  unfold firstEnding
  cases hfound : tokens.find? isEnding with
  | none => rfl
  | some token => exact List.find?_some hfound

/-- All levels of a table are valid. -/
theorem Grammar.valid_loosestFirst (grammar : Grammar) : ∀ l ∈ grammar.loosestFirst, l.Valid :=
  fun level hlevel => grammar.valid level (List.mem_reverse.mp hlevel)

namespace Parse

namespace Reading

variable {first other : Reading} {next : Expr → Nat → Reading} {bound : Nat}

/-- The height is bounded if it is for the tree and for both ways to go on. -/
theorem height_orElse_le (hfirst : first.height ≤ bound)
    (hnext : ∀ e finish, (next e finish).height ≤ bound) (hother : other.height ≤ bound) :
    (first.orElse next other).height ≤ bound := by
  cases hread : first.outcome with
  | error error =>
    rw [orElse_of_error hread]
    exact Nat.max_le.mpr ⟨hfirst, hother⟩
  | ok pair =>
    rw [orElse_of_ok hread]
    exact Nat.max_le.mpr ⟨hfirst, hnext _ _⟩

/-- The height is bounded if it is for the tree and for what is read behind it. -/
theorem height_andThen_le (hfirst : first.height ≤ bound)
    (hnext : ∀ e finish, (next e finish).height ≤ bound) : (first.andThen next).height ≤ bound := by
  rw [andThen_eq_orElse]
  exact height_orElse_le hfirst hnext (Nat.zero_le _)

end Reading

namespace Plain

variable {context : ParseContext} {levels tighter : List Level} {level : Level}
  {tokens : List Token} {position : Nat} {e : Expr} {bound : Nat}

/-- Postfix operators are applied without a rule. -/
theorem height_postfixChain (operators : OperatorSet) :
    (postfixChain context operators e position tokens).height = 0 := by
  induction tokens generalizing e position with
  | nil => rfl
  | cons token behind ih =>
    rw [postfixChain]
    split
    · split
      · rfl
      · exact ih
    · rfl

/-- Readings of fewer tokens than these have bounded height. -/
def HeightBelow (context : ParseContext) (count bound : Nat) : Prop :=
  ∀ levels tokens position, levels.length ≤ context.levels.length → tokens.length < count →
    (read context levels position tokens).height ≤ bound

/-- A level that groups to the left is bounded if its calls are. -/
theorem height_leftChain_le (operators : OperatorSet) {count : Nat}
    (ih : HeightBelow context count bound) (hlevels : tighter.length ≤ context.levels.length)
    (hcount : tokens.length ≤ count) :
    (leftChain context operators tighter e position tokens).height ≤ bound := by
  induction hn : tokens.length using Nat.strongRecOn generalizing e position tokens with
  | ind n chained =>
    match tokens with
    | [] =>
      rw [leftChain]
      exact Nat.zero_le _
    | token :: behind =>
      rw [leftChain]
      simp only [List.length_cons] at hn hcount
      split
      · refine Reading.height_orElse_le (ih _ _ _ hlevels (by omega)) (fun right finish => ?_)
          (Nat.zero_le _)
        split
        · exact Nat.zero_le _
        · have hlength := length_tokensFrom behind (position + 1) finish
          exact chained _ (by omega) (by omega) rfl
      · exact Nat.zero_le _

/-- A level that groups to the right is bounded if its call is. -/
theorem height_rightOperand_le {count : Nat} (ih : HeightBelow context count bound)
    (hlevels : tighter.length + 1 ≤ context.levels.length) (hcount : tokens.length ≤ count) :
    (rightOperand context level tighter e position tokens).height ≤ bound := by
  match tokens with
  | [] =>
    rw [rightOperand]
    exact Nat.zero_le _
  | token :: behind =>
    rw [rightOperand]
    split
    · refine Reading.height_orElse_le (ih _ _ _ hlevels hcount) (fun right finish => ?_)
        (Nat.zero_le _)
      split <;> exact Nat.zero_le _
    · exact Nat.zero_le _

/-- A prefix level is bounded if its calls are. -/
theorem height_prefixed_le (ih : HeightBelow context tokens.length bound)
    (hlevels : tighter.length + 1 ≤ context.levels.length)
    (hoperand : (read context tighter position tokens).height ≤ bound) :
    (prefixed context level tighter position tokens).height ≤ bound := by
  match tokens with
  | [] => rwa [prefixed]
  | token :: behind =>
    rw [prefixed]
    split
    · refine Reading.height_orElse_le (ih _ _ _ hlevels (Nat.lt_succ_self _))
        (fun operand finish => ?_) hoperand
      split <;> exact Nat.zero_le _
    · exact hoperand

/-- A primary is bounded if its call is. -/
theorem height_primary_le (ih : HeightBelow context tokens.length bound) :
    (primary context position tokens).height ≤ bound := by
  match tokens with
  | [] =>
    rw [primary]
    exact Nat.zero_le _
  | token :: behind =>
    rw [primary]
    split
    · refine Reading.height_andThen_le (ih _ _ _ (Nat.le_refl _) (Nat.lt_succ_self _))
        fun inner finish => ?_
      simp only
      split <;> exact Nat.zero_le _
    · split <;> exact Nat.zero_le _
    · split <;> exact Nat.zero_le _
    · split <;> exact Nat.zero_le _
    · exact Nat.zero_le _

/-- A rule and the rules it calls at the same token are different levels, so that
no more rules are active at once than there are pairs of a rule and a token. -/
theorem height_read_le (hlevels : levels.length ≤ context.levels.length) :
    (read context levels position tokens).height ≤
      levels.length + 1 + tokens.length * (context.levels.length + 1) := by
  induction levels, tokens using rule_induction generalizing position with
  | step levels tokens ih =>
    have hbelow : HeightBelow context tokens.length
        (tokens.length * (context.levels.length + 1)) := by
      intro levels' tokens' position' hlevels' hless
      have hread : (read context levels' position' tokens').height ≤
          levels'.length + 1 + tokens'.length * (context.levels.length + 1) :=
        ih levels' tokens' (.inl hless) hlevels'
      have hmul := Nat.mul_le_mul_right (context.levels.length + 1) (Nat.succ_le_of_lt hless)
      rw [Nat.succ_mul] at hmul
      omega
    have hwide : HeightBelow context tokens.length
        (levels.length + tokens.length * (context.levels.length + 1)) :=
      fun levels' tokens' position' hlevels' hless =>
        Nat.le_add_left_of_le (hbelow levels' tokens' position' hlevels' hless)
    have hbody : (readBody context levels position tokens).height ≤
        levels.length + tokens.length * (context.levels.length + 1) := by
      match levels with
      | [] =>
        rw [readBody]
        exact height_primary_le hwide
      | level :: tighter =>
        have htail : tighter.length ≤ context.levels.length :=
          Nat.le_trans (Nat.le_succ _) hlevels
        have hoperand : (read context tighter position tokens).height ≤
            (level :: tighter).length + tokens.length * (context.levels.length + 1) :=
          ih tighter tokens (.inr ⟨rfl, Nat.lt_succ_self _⟩) htail
        rw [readBody]
        split
        · exact height_prefixed_le hwide hlevels hoperand
        · apply Reading.height_andThen_le hoperand
          intro operand finish
          rw [height_postfixChain]
          exact Nat.zero_le _
        · exact Reading.height_andThen_le hoperand fun left finish =>
            height_leftChain_le _ hwide htail (by simp)
        · exact Reading.height_andThen_le hoperand fun left finish =>
            height_rightOperand_le hwide hlevels (by simp)
    rw [read]
    simp only [Reading.enclosed]
    omega

end Plain

variable {grammar : Grammar} {tokens : List Token}

/-- At the end of the input a failure may be noted, and nothing else is changed. -/
theorem exists_checkEnding (whole : List Token) (result : Outcome × ParseState) :
    ∃ log, (checkEnding whole result).2 = { result.2 with failures := log } := by
  obtain ⟨outcome, state⟩ := result
  cases outcome with
  | error error => exact ⟨_, rfl⟩
  | ok root =>
    rw [checkEnding]
    split
    · exact ⟨_, rfl⟩
    · split <;> exact ⟨_, rfl⟩

/-- The check for tokens left over is made alike. -/
theorem simulates_checkEnding {context : ParseContext} {whole : List Token} {start : ParseState}
    {reading : Reading} {result : Outcome × ParseState}
    (h : Simulates context whole start reading result) :
    Simulates context whole start (Plain.checkEnding whole reading) (checkEnding whole result) := by
  unfold checkEnding
  apply h.andThen
  · intro root state error hstopped
    simp [hstopped]
  · intro e root state hok hnode hextends hnone hfaithful
    simp only [hnone, Option.isSome_none, Bool.false_eq_true, if_false]
    cases hrest : tokensFrom whole 0 root.finish with
    | nil => exact simulates_found hnone hfaithful hnode
    | cons next behind => exact simulates_fail hnone hfaithful _ _ _

/-- In the beginning nothing is known. -/
theorem faithful_start (context : ParseContext) (whole : List Token) :
    Faithful context whole {} := by
  intro levels position outcome _ houtcome
  simp [Memo.outcome?] at houtcome

/-- A parse does what the plain parser reads unless it is stopped. -/
theorem simulates_runAll (grammar : Grammar) (tokens : List Token) :
    Simulates (context grammar tokens) (Token.beforeEnding tokens) {}
      (Plain.readAll grammar tokens) (runAll grammar tokens) := by
  refine simulates_checkEnding ?_
  exact simulates_run grammar.valid_loosestFirst (Token.isEnding_firstEnding _) 0 List.suffix_rfl
    rfl (faithful_start _ _)

namespace Plain

/-- What the loosest level reads at the first token. -/
theorem sound_start (grammar : Grammar) (tokens : List Token) :
    Sound (context grammar tokens) (context grammar tokens).levels [] 0 (Token.beforeEnding tokens)
      (read (context grammar tokens) grammar.loosestFirst 0 (Token.beforeEnding tokens)) :=
  sound_read grammar.valid_loosestFirst (Token.isEnding_firstEnding _) grammar.valid_loosestFirst
    0 _

/-- What the plain parser reads in a whole token list. -/
theorem sound_readAll (grammar : Grammar) (tokens : List Token) :
    Sound (context grammar tokens) (context grammar tokens).levels [] 0 (Token.beforeEnding tokens)
      (readAll grammar tokens) := by
  have hread := sound_start grammar tokens
  rw [readAll, checkEnding]
  cases hok : (read (context grammar tokens) grammar.loosestFirst 0
    (Token.beforeEnding tokens)).outcome with
  | error error =>
    rw [Reading.andThen_of_error hok]
    exact hread
  | ok found =>
    obtain ⟨e, finish⟩ := found
    obtain ⟨eaten, rest, htokens, rfl, ⟨derivation⟩⟩ := hread.tree e finish hok
    rw [Reading.andThen_of_ok hok]
    refine .before hread.names ?_
    rw [htokens, tokensFrom_append]
    refine Sound.shift _ ?_
    cases rest with
    | nil => exact sound_found derivation
    | cons next behind => exact sound_fail fun before hbefore => hbefore _ _ derivation

/-- A tree that the plain parser reads is derived from all tokens in front of the end. -/
theorem derives_of_readAll {e : Expr} {finish : Nat}
    (h : (readAll grammar tokens).outcome = .ok (e, finish)) :
    grammar.Derives (Token.beforeEnding tokens) e := by
  rw [readAll, checkEnding] at h
  cases hok : (read (context grammar tokens) grammar.loosestFirst 0
    (Token.beforeEnding tokens)).outcome with
  | error error =>
    rw [Reading.andThen_of_error hok, hok] at h
    cases h
  | ok found =>
    obtain ⟨r, stop⟩ := found
    obtain ⟨eaten, rest, htokens, rfl, hderives⟩ := (sound_start grammar tokens).tree r stop hok
    rw [Reading.andThen_of_ok hok, htokens, tokensFrom_append] at h
    cases rest with
    | nil =>
      cases h
      rw [htokens, List.append_nil]
      exact hderives
    | cons next behind => cases h

/-- The plain parser reports the furthest of the failures that it noted. -/
theorem exists_failure_of_parseTokens {error : ParseError}
    (h : parseTokens grammar tokens = .error error) :
    (∃ last, (readAll grammar tokens).outcome = .error last) ∧
      ∃ index, (readAll grammar tokens).furthest none = some (index, error) ∧
        (index, error) ∈ (readAll grammar tokens).failures := by
  rw [parseTokens] at h
  split at h
  · rename_i last hlast
    obtain ⟨index, hnoted⟩ := (sound_readAll grammar tokens).noted last hlast
    obtain ⟨furthest, hmem, hfurthest⟩ := exists_furthest (List.ne_nil_of_mem hnoted)
    have hkept : (readAll grammar tokens).furthest none = some furthest := hfurthest
    rw [hkept] at h
    obtain rfl : furthest.2 = error := by simpa using h
    exact ⟨⟨last, hlast⟩, furthest.1, hkept, hmem⟩
  · cases h

end Plain

/-- The result of a run that was not stopped is what the plain parser gives. -/
theorem conclude_eq_of_follows {context : ParseContext} {whole : List Token} {reading : Reading}
    {outcome : Outcome} {state : ParseState} (hnone : state.tooDeep = none)
    (h : Follows context whole {} reading outcome state) :
    conclude context (outcome, state) = match reading.outcome with
      | .error error => .error (((reading.furthest none).map Prod.snd).getD error)
      | .ok (e, _) => .ok e := by
  have hagrees := h.agrees
  have hfurthest : state.furthest = reading.furthest none := h.furthest
  simp only [conclude, hnone]
  cases hread : reading.outcome with
  | error expected =>
    rw [hread] at hagrees
    cases outcome with
    | error error =>
      obtain rfl : error = expected := hagrees
      rw [hfurthest]
    | ok root => exact hagrees.elim
  | ok pair =>
    rw [hread] at hagrees
    cases outcome with
    | error error => exact hagrees.elim
    | ok root =>
      have hnode : state.arena.expr? root.node = some pair.1 := hagrees.1
      simp [hnode]

end Parse

/-- The parse fails since rules are nested too deeply. -/
def NestsTooDeep (grammar : Grammar) (tokens : List Token) : Prop :=
  ∃ found, parseTokens grammar tokens = .error ⟨.tooDeep, found⟩

namespace Parse

/-- A parse either was not stopped and gives what the plain parser gives, or it
was, and the plain parser has too many rules active at once. -/
theorem parseTokens_cases (grammar : Grammar) (tokens : List Token) :
    ((runAll grammar tokens).2.tooDeep = none ∧
      Follows (context grammar tokens) (Token.beforeEnding tokens) {}
        (Plain.readAll grammar tokens) (runAll grammar tokens).1 (runAll grammar tokens).2 ∧
      ¬ NestsTooDeep grammar tokens ∧
      parseTokens grammar tokens = Plain.parseTokens grammar tokens) ∨
    (NestsTooDeep grammar tokens ∧ nestingLimit < (Plain.readAll grammar tokens).height) := by
  rcases simulates_runAll grammar tokens with ⟨hnone, hfollows⟩ | ⟨⟨found, hsome⟩, hlimit⟩
  · have hsame : parseTokens grammar tokens = Plain.parseTokens grammar tokens :=
      conclude_eq_of_follows hnone hfollows
    refine .inl ⟨hnone, hfollows, ?_, hsame⟩
    rintro ⟨found, hfound⟩
    rw [hsame] at hfound
    obtain ⟨-, index, -, hmem⟩ := Plain.exists_failure_of_parseTokens hfound
    obtain ⟨-, -, -, -, -, hcause, -⟩ := (Plain.sound_readAll grammar tokens).names _ hmem
    exact hcause rfl
  · refine .inr ⟨⟨found, ?_⟩, by simpa using hlimit⟩
    change conclude _ (runAll grammar tokens) = _
    simp only [conclude, hsome]

/-- No more rules are active at once than there are pairs of a rule and a token. -/
theorem Plain.height_readAll_le (grammar : Grammar) (tokens : List Token) :
    (readAll grammar tokens).height ≤
      ((Token.beforeEnding tokens).length + 1) * (grammar.levels.length + 1) := by
  have hlength : (context grammar tokens).levels.length = grammar.levels.length :=
    List.length_reverse
  have hread : (read (context grammar tokens) grammar.loosestFirst 0
      (Token.beforeEnding tokens)).height ≤
      ((Token.beforeEnding tokens).length + 1) * (grammar.levels.length + 1) := by
    have hle : (read (context grammar tokens) grammar.loosestFirst 0
        (Token.beforeEnding tokens)).height ≤ grammar.loosestFirst.length + 1 +
          (Token.beforeEnding tokens).length * ((context grammar tokens).levels.length + 1) :=
      height_read_le (Nat.le_refl _)
    rw [hlength, show grammar.loosestFirst.length = _ from hlength] at hle
    rw [Nat.succ_mul]
    omega
  apply Reading.height_andThen_le hread
  intro e finish
  split <;> exact Nat.zero_le _

/-- A parse that does not fail for nesting gives what the plain parser gives, be it
a tree or a failure. It does not fail for nesting unless the plain parser has more
rules active at once than the limit allows. The plain parser comes to an end on
every token list, with a bounded number of rules active at once. -/
theorem memo_and_limit_transparent (grammar : Grammar) (tokens : List Token) :
    (¬ NestsTooDeep grammar tokens →
      parseTokens grammar tokens = Plain.parseTokens grammar tokens) ∧
    ((Plain.readAll grammar tokens).height ≤ nestingLimit → ¬ NestsTooDeep grammar tokens) ∧
    (Plain.readAll grammar tokens).height ≤
      ((Token.beforeEnding tokens).length + 1) * (grammar.levels.length + 1) := by
  refine ⟨?_, ?_, Plain.height_readAll_le grammar tokens⟩
  · intro hnone
    rcases parseTokens_cases grammar tokens with ⟨-, -, -, hsame⟩ | ⟨hdeep, -⟩
    · exact hsame
    · exact absurd hdeep hnone
  · intro hheight hdeep
    rcases parseTokens_cases grammar tokens with ⟨-, -, hnone, -⟩ | ⟨-, hlimit⟩
    · exact hnone hdeep
    · omega

/-- A sum of two operands is far from the limit, so that both parsers agree on it. -/
theorem memo_and_limit_transparent_sum :
    let tokens : List Token :=
      [⟨.letter, "x", Location.start⟩, ⟨.operator, "+", Location.start⟩,
        ⟨.letter, "y", Location.start⟩]
    ¬ NestsTooDeep Grammar.standard tokens ∧
      parseTokens Grammar.standard tokens = Plain.parseTokens Grammar.standard tokens := by
  intro tokens
  obtain ⟨hsame, hlimit, hheight⟩ := memo_and_limit_transparent Grammar.standard tokens
  have hbound : ((Token.beforeEnding tokens).length + 1) * (Grammar.standard.levels.length + 1) ≤
      nestingLimit := by decide
  have hnone := hlimit (Nat.le_trans hheight hbound)
  exact ⟨hnone, hsame hnone⟩

end Parse

end Formula
