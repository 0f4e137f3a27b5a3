import Formula.Proofs.Parse.Simulation

/-!
# How far the parser looks

No rule looks at a token behind the furthest failure and behind the end of what it
reads. So a run whose failures all lie in front of an index does the same on every
token list that has the same tokens in front of this index.
-/

namespace Formula

namespace Parse

namespace Reading

variable {reading first other : Reading} {next : Expr → Nat → Reading} {bound position : Nat}

/-- All failures lie in front of an index, and so does the end of the tree. -/
structure Within (bound : Nat) (reading : Reading) : Prop where
  failures : ∀ failure ∈ reading.failures, failure.1 < bound
  finish : ∀ e finish, reading.outcome = .ok (e, finish) → finish < bound

/-- The tree ends at an index or behind it, or else a failure lies there. -/
structure Onward (position : Nat) (reading : Reading) : Prop where
  finish : ∀ e finish, reading.outcome = .ok (e, finish) → position ≤ finish
  failures : ∀ error, reading.outcome = .error error →
    ∃ failure ∈ reading.failures, position ≤ failure.1

/-- What goes on from a place within an index begins in front of it. -/
theorem Within.lt (h : reading.Within bound) (honward : reading.Onward position) :
    position < bound := by
  cases hread : reading.outcome with
  | error error =>
    obtain ⟨failure, hmem, hle⟩ := honward.failures error hread
    have hlt := h.failures failure hmem
    omega
  | ok found =>
    have hle := honward.finish found.1 found.2 hread
    have hlt := h.finish found.1 found.2 hread
    omega

/-- If the whole lies within an index, then so does its last part. -/
theorem Within.right (h : (first.before other).Within bound) : other.Within bound := by
  constructor
  · intro failure hmem
    exact h.failures failure (List.mem_append_right _ hmem)
  · exact h.finish

/-- If the whole lies within an index, then so does its first part. -/
theorem Within.left (h : (first.before other).Within bound)
    (honward : ∀ e finish, first.outcome = .ok (e, finish) → other.Onward finish) :
    first.Within bound := by
  constructor
  · intro failure hmem
    exact h.failures failure (List.mem_append_left _ hmem)
  · intro e finish hok
    exact h.right.lt (honward e finish hok)

/-- If what goes on behind a tree or without one lies within an index, then so do its parts. -/
theorem Within.orElse (h : (first.orElse next other).Within bound)
    (honward : ∀ e finish, (next e finish).Onward finish) :
    first.Within bound ∧
      (∀ e finish, first.outcome = .ok (e, finish) → (next e finish).Within bound) ∧
      ∀ error, first.outcome = .error error → other.Within bound := by
  cases hread : first.outcome with
  | error error =>
    rw [orElse_of_error hread] at h
    refine ⟨h.left fun e finish hok => ?_, nofun, fun _ _ => h.right⟩
    rw [hread] at hok
    cases hok
  | ok found =>
    rw [orElse_of_ok hread] at h
    refine ⟨h.left fun e finish hok => ?_, ?_, nofun⟩
    · cases hread.symm.trans hok
      exact honward e finish
    · rintro e finish ⟨⟩
      exact h.right

/-- A tree that is there already ends where it ends. -/
theorem onward_found (e : Expr) (finish : Nat) : (found e finish).Onward finish := by
  constructor
  · rintro _ _ ⟨⟩
    exact Nat.le_refl _
  · rintro _ ⟨⟩

/-- A failure lies at its own index. -/
theorem onward_fail (what : Expectation) (index : Nat) (token : Token) :
    (fail what index token).Onward index := by
  constructor
  · rintro _ _ ⟨⟩
  · rintro _ ⟨⟩
    exact ⟨_, List.mem_singleton.mpr rfl, Nat.le_refl _⟩

/-- What ends behind an index or there ends behind an earlier one. -/
theorem Onward.mono {later : Nat} (h : reading.Onward later) (hle : position ≤ later) :
    reading.Onward position := by
  constructor
  · intro e finish hok
    exact Nat.le_trans hle (h.finish e finish hok)
  · intro error herror
    obtain ⟨failure, hmem, hlater⟩ := h.failures error herror
    exact ⟨failure, hmem, Nat.le_trans hle hlater⟩

/-- What ends behind an index does so after another reading. -/
theorem Onward.before (h : other.Onward position) : (first.before other).Onward position := by
  constructor
  · exact h.finish
  · intro error herror
    obtain ⟨failure, hmem, hle⟩ := h.failures error herror
    exact ⟨failure, List.mem_append_right _ hmem, hle⟩

/-- What goes on behind a tree or without one ends behind an index if both ways do. -/
theorem Onward.orElse (hnext : ∀ e finish, first.outcome = .ok (e, finish) →
      (next e finish).Onward position) (hother : other.Onward position) :
    (first.orElse next other).Onward position := by
  cases hread : first.outcome with
  | error error =>
    rw [orElse_of_error hread]
    exact hother.before
  | ok found =>
    rw [orElse_of_ok hread]
    exact (hnext _ _ hread).before

end Reading

namespace Plain

variable {context : ParseContext} {levels tighter : List Level} {level : Level}
  {tokens : List Token} {position : Nat} {e : Expr}

/-- Postfix operators are applied onward. -/
theorem onward_postfixChain (operators : OperatorSet) :
    (postfixChain context operators e position tokens).Onward position := by
  induction tokens generalizing e position with
  | nil => exact Reading.onward_found e position
  | cons token behind ih =>
    rw [postfixChain]
    split
    · split
      · exact (Reading.onward_fail _ _ _).mono (Nat.le_succ _)
      · exact ih.mono (Nat.le_succ _)
    · exact Reading.onward_found e position

section

variable (hall : ∀ l ∈ context.levels, l.Valid) (hending : context.ending.isEnding)
include hall hending

/-- A rule ends behind its first token, or fails at it or behind it. -/
theorem onward_read (hlevels : levels <:+ context.levels) :
    (read context levels position tokens).Onward position := by
  have hsound := sound_read hall hending (fun l hl => hall l (hlevels.mem hl)) position tokens
  constructor
  · intro e finish hok
    exact Nat.le_of_lt (lt_of_read hall hending hlevels hok)
  · intro error herror
    obtain ⟨index, hmem⟩ := hsound.noted error herror
    obtain ⟨eaten, rest, -, hindex, -⟩ := hsound.names _ hmem
    exact ⟨_, hmem, by omega⟩

/-- A level that groups to the left goes onward from its operand. -/
theorem onward_leftChain (operators : OperatorSet) (hlevels : tighter <:+ context.levels) :
    (leftChain context operators tighter e position tokens).Onward position := by
  induction hn : tokens.length using Nat.strongRecOn generalizing e position tokens with
  | ind n chained =>
    match tokens with
    | [] =>
      rw [leftChain]
      exact Reading.onward_found e position
    | token :: behind =>
      rw [leftChain]
      split
      · refine Reading.Onward.orElse (fun right finish hok => ?_) (Reading.onward_found e position)
        have hlt := lt_of_read hall hending hlevels hok
        have hle : position ≤ finish := by omega
        split
        · exact (Reading.onward_fail _ _ _).mono hle
        · have hlength := length_tokensFrom behind (position + 1) finish
          rw [List.length_cons] at hn
          exact (chained _ (by omega) rfl).mono hle
      · exact Reading.onward_found e position

/-- A level that groups to the right goes onward from its operand. -/
theorem onward_rightOperand (hlevels : level :: tighter <:+ context.levels) :
    (rightOperand context level tighter e position tokens).Onward position := by
  match tokens with
  | [] =>
    rw [rightOperand]
    exact Reading.onward_found e position
  | token :: behind =>
    rw [rightOperand]
    split
    · refine Reading.Onward.orElse (fun right finish hok => ?_) (Reading.onward_found e position)
      have hlt := lt_of_read hall hending hlevels hok
      have hle : position ≤ finish := by omega
      split
      · exact (Reading.onward_fail _ _ _).mono hle
      · exact (Reading.onward_found _ _).mono hle
    · exact Reading.onward_found e position

end

end Plain

variable {context : ParseContext} {ending token : Token} {whole other : List Token}
  {levels tighter : List Level} {level : Level} {start middle : ParseState} {outcome : Outcome}
  {reading : Reading} {e : Expr} {id : NodeId} {bound count position : Nat}

/-- Two token lists have the same tokens in front of an index that both reach. -/
def SameBefore (bound : Nat) (whole other : List Token) : Prop :=
  ∀ position < bound, ∃ token, whole.drop position = token :: whole.drop (position + 1) ∧
    other.drop position = token :: other.drop (position + 1)

/-- Both lists show the same next token in front of the index, whatever ends them. -/
theorem SameBefore.peek (h : SameBefore bound whole other) (hlt : position < bound) :
    { context with ending := ending }.peek (other.drop position) =
      context.peek (whole.drop position) := by
  obtain ⟨token, hwhole, hother⟩ := h position hlt
  simp [ParseContext.peek, hwhole, hother]

/-- A run that was not stopped did what the reading tells. -/
theorem Simulates.follows (h : Simulates context whole start reading (outcome, middle))
    (hmiddle : middle.tooDeep = none) : Follows context whole start reading outcome middle := by
  rcases h with ⟨-, hfollows⟩ | ⟨⟨found, hsome⟩, -⟩
  · exact hfollows
  · simp [hmiddle] at hsome

/-- A call that succeeds did so with the tree that was read. -/
theorem Follows.outcome_ok {found : Match}
    (h : Follows context whole start reading (.ok found) middle) :
    ∃ e, reading.outcome = .ok (e, found.finish) := by
  have hagrees := h.agrees
  cases hread : reading.outcome with
  | error error =>
    rw [hread] at hagrees
    exact hagrees.elim
  | ok pair =>
    rw [hread] at hagrees
    exact ⟨pair.1, by rw [hagrees.2]⟩

/-- A run that fails does so for the reason that was read. -/
theorem Follows.outcome_error {error : ParseError}
    (h : Follows context whole start reading (.error error) middle) :
    reading.outcome = .error error := by
  have hagrees := h.agrees
  cases hread : reading.outcome with
  | error expected =>
    rw [hread] at hagrees
    obtain rfl : error = expected := hagrees
    rfl
  | ok pair =>
    rw [hread] at hagrees
    exact hagrees.elim

/-- A run that ends without being stopped was not stopped in the middle. -/
theorem tooDeep_eq_none {result : Outcome × ParseState} (hfinal : result.2.tooDeep = none)
    (hstopped : ∀ error, middle.tooDeep = some error → result.2.tooDeep = some error) :
    middle.tooDeep = none := by
  cases hmiddle : middle.tooDeep with
  | none => rfl
  | some error => simp [hstopped error hmiddle] at hfinal

/-- A rule that fails in front of an index only and is not stopped does the same on
the other tokens. -/
def Alike (context : ParseContext) (ending : Token) (whole other : List Token) (bound : Nat)
    (levels : List Level) (position : Nat) : Prop :=
  ∀ start : ParseState, start.tooDeep = none → Faithful context whole start →
    (Plain.read context levels position (whole.drop position)).Within bound →
    (run context levels position (whole.drop position) start).2.tooDeep = none →
    run { context with ending := ending } levels position (other.drop position) start =
      run context levels position (whole.drop position) start

/-- All calls with fewer tokens do the same. -/
def AlikeBelow (context : ParseContext) (ending : Token) (whole other : List Token)
    (bound count : Nat) : Prop :=
  ∀ levels position, levels <:+ context.levels → (whole.drop position).length < count →
    Alike context ending whole other bound levels position

/-- Postfix operators in front of an index are applied in the same way. -/
theorem postfixChain_alike (hsame : SameBefore bound whole other) (operators : OperatorSet)
    (hwithin :
      (Plain.postfixChain context operators e position (whole.drop position)).Within bound) :
    postfixChain { context with ending := ending } operators id position (other.drop position)
        start =
      postfixChain context operators id position (whole.drop position) start := by
  induction hn : bound - position using Nat.strongRecOn generalizing id e position start with
  | ind n chained =>
    have hlt := hwithin.lt (Plain.onward_postfixChain operators)
    obtain ⟨token, hwhole, hother⟩ := hsame position hlt
    rw [hwhole] at hwithin ⊢
    rw [hother, postfixChain, postfixChain]
    rw [Plain.postfixChain] at hwithin
    by_cases hcontains : operators.contains token = true
    · simp only [hcontains, if_true] at hwithin ⊢
      cases hop : token.operator?.bind Operator.asPostfix? with
      | none =>
        simp only [hop] at hwithin
        simp only [hsame.peek (hwithin.lt (Reading.onward_fail _ _ _))]
      | some op =>
        simp only [hop] at hwithin
        exact chained _ (by omega) hwithin rfl
    · simp only [hcontains, Bool.false_eq_true, if_false]

section

variable (hall : ∀ l ∈ context.levels, l.Valid) (hending : context.ending.isEnding)
include hall hending

/-- A call and what goes on behind it or in its place do the same if all do by themselves. -/
theorem orElse_alike {next : Expr → Nat → Reading} {otherwise : Reading}
    {goOn goOn' : Match → ParseState → Outcome × ParseState}
    {instead instead' : ParseError → ParseState → Outcome × ParseState}
    (hlevels : levels <:+ context.levels) (hnone : start.tooDeep = none)
    (hfaithful : Faithful context whole start)
    (hcall : Alike context ending whole other bound levels position)
    (honward : ∀ e finish, (next e finish).Onward finish)
    (hkeeps : ∀ found, KeepsStop (goOn found)) (hkeeps' : ∀ failure, KeepsStop (instead failure))
    (hgoOn : ∀ e found state, position < found.finish → found.finish < bound →
      (next e found.finish).Within bound → state.tooDeep = none → Faithful context whole state →
      (goOn found state).2.tooDeep = none → goOn' found state = goOn found state)
    (hinstead : ∀ error state, otherwise.Within bound → state.tooDeep = none →
      Faithful context whole state → (instead error state).2.tooDeep = none →
      instead' error state = instead error state)
    (hwithin : ((Plain.read context levels position (whole.drop position)).orElse next
      otherwise).Within bound)
    (hfinal : (match run context levels position (whole.drop position) start with
      | (.error error, state) => instead error state
      | (.ok found, state) => goOn found state : Outcome × ParseState).2.tooDeep = none) :
    (match run { context with ending := ending } levels position (other.drop position) start with
      | (.error error, state) => instead' error state
      | (.ok found, state) => goOn' found state : Outcome × ParseState) =
    match run context levels position (whole.drop position) start with
      | (.error error, state) => instead error state
      | (.ok found, state) => goOn found state := by
  obtain ⟨hfirst, hnext, hother⟩ := hwithin.orElse honward
  have hsimulates := simulates_run hall hending position hlevels hnone hfaithful
  have hsame := hcall start hnone hfaithful hfirst
  have hmiddle := tooDeep_eq_none hfinal (tooDeep_of_called hkeeps hkeeps' _)
  rw [hsame hmiddle]
  generalize run context levels position (whole.drop position) start = called
    at hsimulates hmiddle hfinal ⊢
  obtain ⟨outcome, middle⟩ := called
  have hfollows := hsimulates.follows hmiddle
  cases outcome with
  | error error =>
    exact hinstead error middle (hother error hfollows.outcome_error) hmiddle hfollows.faithful
      hfinal
  | ok found =>
    obtain ⟨e, he⟩ := hfollows.outcome_ok
    have hbehind := lt_of_read hall hending hlevels he
    exact hgoOn e found middle hbehind (hfirst.finish _ _ he) (hnext e found.finish he) hmiddle
      hfollows.faithful hfinal

/-- The same for a call whose failure is passed on. -/
theorem andThen_alike {next : Expr → Nat → Reading}
    {goOn goOn' : Match → ParseState → Outcome × ParseState} (hlevels : levels <:+ context.levels)
    (hnone : start.tooDeep = none) (hfaithful : Faithful context whole start)
    (hcall : Alike context ending whole other bound levels position)
    (honward : ∀ e finish, (next e finish).Onward finish)
    (hkeeps : ∀ found, KeepsStop (goOn found))
    (hgoOn : ∀ e found state, position < found.finish → found.finish < bound →
      (next e found.finish).Within bound → state.tooDeep = none → Faithful context whole state →
      (goOn found state).2.tooDeep = none → goOn' found state = goOn found state)
    (hwithin : ((Plain.read context levels position (whole.drop position)).andThen next).Within
      bound)
    (hfinal : (match run context levels position (whole.drop position) start with
      | (.error error, state) => (.error error, state)
      | (.ok found, state) => goOn found state : Outcome × ParseState).2.tooDeep = none) :
    (match run { context with ending := ending } levels position (other.drop position) start with
      | (.error error, state) => (.error error, state)
      | (.ok found, state) => goOn' found state : Outcome × ParseState) =
    match run context levels position (whole.drop position) start with
      | (.error error, state) => (.error error, state)
      | (.ok found, state) => goOn found state := by
  rw [Reading.andThen_eq_orElse] at hwithin
  exact orElse_alike hall hending hlevels hnone hfaithful hcall honward hkeeps
    (fun failure => keepsStop_end (.error failure)) hgoOn (fun _ _ _ _ _ _ => rfl) hwithin hfinal

variable (hsame : SameBefore bound whole other)
include hsame

/-- A level that groups to the left goes on in the same way in front of an index. -/
theorem leftChain_alike (operators : OperatorSet)
    (ih : AlikeBelow context ending whole other bound count) (hlevels : tighter <:+ context.levels)
    (hcount : (whole.drop position).length ≤ count) (hnone : start.tooDeep = none)
    (hfaithful : Faithful context whole start)
    (hwithin : (Plain.leftChain context operators tighter e position
      (whole.drop position)).Within bound)
    (hfinal : (leftChain context operators tighter id position
      (whole.drop position) start).2.tooDeep = none) :
    leftChain { context with ending := ending } operators tighter id position
        (other.drop position) start =
      leftChain context operators tighter id position (whole.drop position) start := by
  induction hn : (whole.drop position).length using Nat.strongRecOn
    generalizing id e position start with
  | ind n chained =>
    have hlt := hwithin.lt (Plain.onward_leftChain hall hending operators hlevels)
    obtain ⟨token, hwhole, hother⟩ := hsame position hlt
    have hlength : (whole.drop (position + 1)).length < (whole.drop position).length := by
      simp [hwhole]
    rw [hwhole] at hwithin hfinal ⊢
    rw [leftChain] at hfinal
    rw [hother, leftChain, leftChain]
    rw [Plain.leftChain] at hwithin
    by_cases hcontains : operators.contains token = true
    · simp only [hcontains, if_true] at hwithin hfinal ⊢
      apply orElse_alike hall hending hlevels hnone hfaithful
        (ih tighter (position + 1) hlevels (by omega)) ?_ ?_ (fun _ => keepsStop_end _) ?_
        (fun _ _ _ _ _ _ => rfl) hwithin hfinal
      · intro r finish
        split
        · exact Reading.onward_fail _ _ _
        · exact Plain.onward_leftChain hall hending operators hlevels
      · intro right state error hstopped
        cases hop : token.operator?.bind Operator.asBinary? with
        | none => exact hstopped
        | some op => exact keepsStop_leftChain operators _ error hstopped
      · intro r right state hbehind _ hwithin hnone hfaithful hfinal
        simp only [tokensFrom_drop (Nat.le_of_lt hbehind)] at hwithin hfinal ⊢
        cases hop : token.operator?.bind Operator.asBinary? with
        | none =>
          simp only [hop] at hwithin
          simp only [hsame.peek (hwithin.lt (Reading.onward_fail _ _ _))]
        | some op =>
          simp only [hop] at hwithin hfinal
          have hrest : (whole.drop right.finish).length < (whole.drop position).length := by
            simp only [List.length_drop] at hlength ⊢
            omega
          exact chained _ (by omega) (by omega) hnone (hfaithful.add _) hwithin hfinal rfl
    · simp only [hcontains, Bool.false_eq_true, if_false]

/-- A level that groups to the right goes on in the same way in front of an index. -/
theorem rightOperand_alike (ih : AlikeBelow context ending whole other bound count)
    (hlevels : level :: tighter <:+ context.levels) (hcount : (whole.drop position).length ≤ count)
    (hnone : start.tooDeep = none) (hfaithful : Faithful context whole start)
    (hwithin : (Plain.rightOperand context level tighter e position
      (whole.drop position)).Within bound)
    (hfinal : (rightOperand context level tighter id position
      (whole.drop position) start).2.tooDeep = none) :
    rightOperand { context with ending := ending } level tighter id position
        (other.drop position) start =
      rightOperand context level tighter id position (whole.drop position) start := by
  have hlt := hwithin.lt (Plain.onward_rightOperand hall hending hlevels)
  obtain ⟨token, hwhole, hother⟩ := hsame position hlt
  have hlength : (whole.drop (position + 1)).length < (whole.drop position).length := by
    simp [hwhole]
  rw [hwhole] at hwithin hfinal ⊢
  rw [rightOperand] at hfinal
  rw [hother, rightOperand, rightOperand]
  rw [Plain.rightOperand] at hwithin
  by_cases hcontains : level.operators.contains token = true
  · simp only [hcontains, if_true] at hwithin hfinal ⊢
    apply orElse_alike hall hending hlevels hnone hfaithful
      (ih (level :: tighter) (position + 1) hlevels (by omega)) ?_ ?_ (fun _ => keepsStop_end _) ?_
      (fun _ _ _ _ _ _ => rfl) hwithin hfinal
    · intro r finish
      split
      · exact Reading.onward_fail _ _ _
      · exact Reading.onward_found _ _
    · intro right state error hstopped
      cases hop : token.operator?.bind Operator.asBinary? <;> exact hstopped
    · intro r right state hbehind _ hwithin _ _ _
      simp only [tokensFrom_drop (Nat.le_of_lt hbehind)] at hwithin ⊢
      cases hop : token.operator?.bind Operator.asBinary? with
      | none =>
        simp only [hop] at hwithin
        simp only [hsame.peek (hwithin.lt (Reading.onward_fail _ _ _))]
      | some op => rfl
  · simp only [hcontains, Bool.false_eq_true, if_false]

/-- A prefix level does the same on the other tokens in front of an index. -/
theorem prefixed_alike
    (ih : AlikeBelow context ending whole other bound (whole.drop position).length)
    (hlevels : level :: tighter <:+ context.levels) (hlt : position < bound)
    (hnone : start.tooDeep = none) (hfaithful : Faithful context whole start)
    (hoperand : Alike context ending whole other bound tighter position)
    (hwithin : (Plain.prefixed context level tighter position (whole.drop position)).Within bound)
    (hfinal : (prefixed context level tighter position
      (whole.drop position) start).2.tooDeep = none) :
    prefixed { context with ending := ending } level tighter position (other.drop position) start =
      prefixed context level tighter position (whole.drop position) start := by
  obtain ⟨token, hwhole, hother⟩ := hsame position hlt
  rw [Alike, hwhole, hother] at hoperand
  rw [hwhole] at hwithin hfinal ⊢
  rw [prefixed] at hfinal
  rw [hother, prefixed, prefixed]
  rw [Plain.prefixed] at hwithin
  by_cases hcontains : level.operators.contains token = true
  · simp only [hcontains, if_true] at hwithin hfinal ⊢
    apply orElse_alike hall hending hlevels hnone hfaithful
      (ih (level :: tighter) (position + 1) hlevels (by simp [hwhole])) ?_ ?_
      (fun _ => keepsStop_run) ?_ ?_ hwithin hfinal
    · intro r finish
      split
      · exact Reading.onward_found _ _
      · exact Reading.onward_fail _ _ _
    · intro operand state error hstopped
      cases hop : level.operators.prefixOp? token <;> exact hstopped
    · intro r operand state hbehind _ hwithin _ _ _
      simp only [tokensFrom_drop (Nat.le_of_lt hbehind)] at hwithin ⊢
      cases hop : level.operators.prefixOp? token with
      | none =>
        simp only [hop] at hwithin
        simp only [hsame.peek (hwithin.lt (Reading.onward_fail _ _ _))]
      | some op => rfl
    · intro _ state hinstead hnone hfaithful hfinal
      exact hoperand state hnone hfaithful hinstead hfinal
  · simp only [hcontains, Bool.false_eq_true, if_false] at hwithin hfinal ⊢
    exact hoperand start hnone hfaithful hwithin hfinal

/-- A primary does the same on the other tokens in front of an index. -/
theorem primary_alike
    (ih : AlikeBelow context ending whole other bound (whole.drop position).length)
    (hlt : position < bound) (hnone : start.tooDeep = none)
    (hfaithful : Faithful context whole start)
    (hwithin : (Plain.primary context position (whole.drop position)).Within bound)
    (hfinal : (primary context position (whole.drop position) start).2.tooDeep = none) :
    primary { context with ending := ending } position (other.drop position) start =
      primary context position (whole.drop position) start := by
  obtain ⟨token, hwhole, hother⟩ := hsame position hlt
  rw [hwhole] at hwithin hfinal ⊢
  rw [primary] at hfinal
  rw [hother, primary, primary]
  rw [Plain.primary] at hwithin
  cases hkind : token.kind with
  | leftParen =>
    simp only [hkind] at hwithin hfinal ⊢
    apply andThen_alike hall hending List.suffix_rfl hnone hfaithful
      (ih context.levels (position + 1) List.suffix_rfl (by simp [hwhole])) ?_ ?_ ?_ hwithin hfinal
    · intro e finish
      split
      · exact (Reading.onward_found _ _).mono (Nat.le_succ _)
      · exact Reading.onward_fail _ _ _
    · intro inner state error hstopped
      split <;> exact hstopped
    · intro e inner state hbehind hfinish _ _ _ _
      simp only [tokensFrom_drop (Nat.le_of_lt hbehind), hsame.peek hfinish]
  | _ => simp only

/-- The body of a rule does the same if the calls it makes do. -/
theorem expand_alike
    (ih : AlikeBelow context ending whole other bound (whole.drop position).length)
    (hlevels : levels <:+ context.levels) (hlt : position < bound)
    (hnone : start.tooDeep = none) (hfaithful : Faithful context whole start)
    (hoperand : ∀ level tighter, levels = level :: tighter →
      Alike context ending whole other bound tighter position)
    (hwithin : (Plain.readBody context levels position (whole.drop position)).Within bound)
    (hfinal : (expand context levels position (whole.drop position) start).2.tooDeep = none) :
    expand { context with ending := ending } levels position (other.drop position) start =
      expand context levels position (whole.drop position) start := by
  match levels with
  | [] =>
    rw [expand] at hfinal
    rw [Plain.readBody] at hwithin
    rw [expand, expand]
    exact primary_alike hall hending hsame ih hlt hnone hfaithful hwithin hfinal
  | level :: tighter =>
    have htail : tighter <:+ context.levels := (List.suffix_cons level tighter).trans hlevels
    have htighter := hoperand level tighter rfl
    rw [expand] at hfinal
    rw [Plain.readBody] at hwithin
    rw [expand, expand]
    cases hfixity : level.fixity with
    | prefixOp =>
      simp only [hfixity] at hwithin hfinal ⊢
      exact prefixed_alike hall hending hsame ih hlevels hlt hnone hfaithful
        (hoperand level tighter rfl) hwithin hfinal
    | postfixOp =>
      simp only [hfixity] at hwithin hfinal ⊢
      apply andThen_alike hall hending htail hnone hfaithful htighter
        (fun _ _ => Plain.onward_postfixChain _) (fun _ => keepsStop_postfixChain _) ?_ hwithin
        hfinal
      intro e operand state hbehind _ hwithin _ _ _
      simp only [tokensFrom_drop (Nat.le_of_lt hbehind)] at hwithin ⊢
      exact postfixChain_alike hsame _ hwithin
    | infixOp side =>
      cases side with
      | left =>
        simp only [hfixity] at hwithin hfinal ⊢
        apply andThen_alike hall hending htail hnone hfaithful htighter
          (fun _ _ => Plain.onward_leftChain hall hending _ htail)
          (fun _ => keepsStop_leftChain _) ?_ hwithin hfinal
        intro e left state hbehind _ hwithin hnone hfaithful hfinal
        simp only [tokensFrom_drop (Nat.le_of_lt hbehind)] at hwithin hfinal ⊢
        exact leftChain_alike hall hending hsame _ ih htail (by simp; omega) hnone hfaithful
          hwithin hfinal
      | right =>
        simp only [hfixity] at hwithin hfinal ⊢
        apply andThen_alike hall hending htail hnone hfaithful htighter
          (fun _ _ => Plain.onward_rightOperand hall hending hlevels)
          (fun _ => keepsStop_rightOperand) ?_ hwithin hfinal
        intro e left state hbehind _ hwithin hnone hfaithful hfinal
        simp only [tokensFrom_drop (Nat.le_of_lt hbehind)] at hwithin hfinal ⊢
        exact rightOperand_alike hall hending hsame ih hlevels (by simp; omega) hnone hfaithful
          hwithin hfinal

/-- Every rule does the same on the other tokens, so far as its failures all lie in
front of the index and it is not stopped. -/
theorem run_alike (hlevels : levels <:+ context.levels) :
    Alike context ending whole other bound levels position := by
  induction levels, hdrop : whole.drop position using rule_induction generalizing position with
  | step levels tokens ih =>
    subst hdrop
    have hbelow : AlikeBelow context ending whole other bound (whole.drop position).length :=
      fun levels' position' hlevels' hless => ih levels' _ (.inl hless) hlevels' rfl
    intro start hnone hfaithful hwithin hfinal
    have hlt := hwithin.lt (Plain.onward_read hall hending hlevels)
    rw [run] at hfinal
    rw [run, run]
    cases hknown : start.memo.outcome? (.ofLevels levels) position with
    | some outcome => simp only [ParseState.enter_known hnone hknown]
    | none =>
      by_cases hdepth : start.depth < nestingLimit
      · simp only [ParseState.enter_started hnone hknown hdepth] at hfinal ⊢
        rw [Plain.read] at hwithin
        rw [expand_alike hall hending hsame hbelow hlevels hlt (by exact hnone)
          (by exact hfaithful) ?_ ⟨hwithin.failures, hwithin.finish⟩ hfinal]
        rintro level tighter rfl
        exact ih tighter _ (.inr ⟨rfl, Nat.lt_succ_self _⟩)
          ((List.suffix_cons level tighter).trans hlevels) rfl
      · simp only [ParseState.enter_limited hnone hknown hdepth] at hfinal
        cases hfinal

end

end Parse

end Formula
