import Formula.Proofs.Parse.Completeness

/-!
# Operands that stand by themselves

An atom or a formula in parentheses is read below all levels, whatever stands
behind it. Under any table each level passes such an operand on, unless it has the
operator next to it. Only a variable can be mistaken: a level of names takes it for
a function if a tighter level reads the operator behind it as a sign.
-/

namespace Formula

/-- Whether the tree is a variable. -/
def Expr.isVar : Expr → Bool
  | .var _ => true
  | _ => false

/-- Whether a level reads an operator as a sign. -/
def Level.hasSign (level : Level) (op : Operator) : Bool :=
  level.fixity == .prefixOp && level.operators.list.contains op

/-- Whether a name in front of the operator is applied to what the operator begins:
a level tighter than a level of names reads the operator as a sign. Levels are listed
from the loosest to the tightest. -/
def takesSign (op : Operator) : List Level → Bool
  | [] => false
  | level :: tighter =>
    level.operators == .names && tighter.any (·.hasSign op) || takesSign op tighter

section

variable {levels tighter : List Level} {level : Level} {op : Operator}

/-- A sign of a level is one of its operators, and the level is a prefix level. -/
theorem Level.hasSign_iff :
    level.hasSign op = true ↔ level.fixity = .prefixOp ∧ op ∈ level.operators.list := by
  simp [hasSign]

/-- An operator without a meaning in front of an operand is the sign of no valid level. -/
theorem Level.Valid.hasSign_eq_false (h : level.Valid) (hop : op.asPrefix? = none) :
    level.hasSign op = false := by
  by_contra hsign
  obtain ⟨hfixity, hmem⟩ := hasSign_iff.mp (by simpa using hsign)
  have haccepts := h.accepts hmem
  simp [hfixity, Fixity.accepts, hop] at haccepts

/-- What no level takes for a sign no tighter level takes. -/
theorem takesSign_tail (h : takesSign op (level :: tighter) = false) :
    takesSign op tighter = false :=
  (Bool.or_eq_false_iff.mp h).2

/-- An operator that is taken is a sign of some level. -/
theorem any_hasSign_of_takesSign (h : takesSign op levels = true) :
    levels.any (·.hasSign op) = true := by
  induction levels with
  | nil => cases h
  | cons level tighter ih =>
    rcases Bool.or_eq_true_iff.mp h with hhere | hbehind
    · simp [(Bool.and_eq_true_iff.mp hhere).2]
    · simp [ih hbehind]

/-- Only signs are taken. -/
theorem takesSign_eq_false (hvalid : ∀ level ∈ levels, level.Valid) (hop : op.asPrefix? = none) :
    takesSign op levels = false := by
  by_contra htaken
  obtain ⟨level, hmem, hsign⟩ :=
    List.any_eq_true.mp (any_hasSign_of_takesSign (by simpa using htaken))
  rw [(hvalid level hmem).hasSign_eq_false hop] at hsign
  cases hsign

end

namespace Parse

namespace Plain

variable {context : ParseContext} {levels tighter : List Level} {level : Level}
  {tokens before behind rest : List Token} {token : Token} {e l r : Expr}

/-- The levels read a tree from these tokens and stop in front of the rest. -/
def ReadsAs (context : ParseContext) (levels : List Level) (tokens rest : List Token)
    (e : Expr) : Prop :=
  ∀ position, (read context levels position (tokens ++ rest)).outcome =
    .ok (e, position + tokens.length)

/-- A formula ends in front of these tokens: nothing is left, or a closing parenthesis is
next. -/
def Ended (tokens : List Token) : Prop :=
  ∀ token, tokens.head? = some token → token.kind = .rightParen

/-- A formula ends where nothing is left. -/
theorem ended_nil : Ended [] := by
  intro token h
  cases h

/-- A formula ends in front of a closing parenthesis. -/
theorem ended_paren (rest : List Token) (h : token.kind = .rightParen) :
    Ended (token :: rest) := by
  intro next hnext
  cases hnext
  exact h

/-- Where a formula ends no level goes on. -/
theorem Ended.closed (h : Ended rest) : Closed levels rest :=
  fun token htoken => .inl (h token htoken)

/-- Tokens that are read as a tree below all levels. No level has the first of them among
its operators, except that a variable is a name. -/
structure Operand (context : ParseContext) (tokens : List Token) (e : Expr) : Prop where
  reads : ∀ rest, Closed [] rest → ReadsAs context [] tokens rest e
  head : ∃ token behind, tokens = token :: behind ∧ ∀ operators : OperatorSet,
    operators.contains token = true → operators = .names ∧ behind = [] ∧ e.isVar = true

namespace Operand

/-- A number is an operand. -/
theorem literal {value : Literal} (spells : token.Spells (.literal value)) :
    Operand context [token] (.literal value) where
  reads _ hclosed position := ((attains_literal spells).read hclosed position).1
  head := by
    refine ⟨token, [], rfl, fun operators hcontains => ?_⟩
    have hkind := Token.kind_of_literal? spells
    rcases OperatorSet.kind_of_contains hcontains with ⟨-, hname⟩ | ⟨op, hop, -⟩
    · rcases hkind with hk | hk <;> simp [hk] at hname
    · rcases hkind with hk | hk <;> simp [Token.kind_of_operator? hop] at hk

/-- A variable is an operand. -/
theorem var {name : Char} (spells : token.Spells (.var name)) :
    Operand context [token] (.var name) where
  reads _ hclosed position := ((attains_var spells).read hclosed position).1
  head := by
    refine ⟨token, [], rfl, fun operators hcontains => ?_⟩
    rcases OperatorSet.kind_of_contains hcontains with ⟨hnames, -⟩ | ⟨op, hop, -⟩
    · exact ⟨hnames, rfl, rfl⟩
    · have hkind := Token.kind_of_operator? hop
      simp [spells.1] at hkind

/-- What all levels read in front of a closing parenthesis is an operand with parentheses
around it. -/
theorem paren {opening closing : Token} (opens : opening.kind = .leftParen)
    (closes : closing.kind = .rightParen)
    (body : ∀ rest, Ended rest → ReadsAs context context.levels tokens rest e) :
    Operand context (opening :: (tokens ++ [closing])) e where
  reads rest _ position := by
    have hinner := body (closing :: rest) (ended_paren rest closes) (position + 1)
    rw [read, readBody]
    simp only [List.cons_append, List.append_assoc, List.nil_append, primary, opens,
      Reading.andThen_of_ok hinner, tokensFrom_append, ParseContext.peek, List.headD_cons, closes,
      if_true, Reading.enclosed, Reading.before, Reading.found, List.length_cons,
      List.length_append, List.length_nil]
    congr 2
    omega
  head := by
    refine ⟨opening, tokens ++ [closing], rfl, fun operators hcontains => ?_⟩
    have hparen : opening.isParen = true := by simp [Token.isParen, opens]
    rw [OperatorSet.contains_eq_false_of_isParen hparen] at hcontains
    cases hcontains

end Operand

/-- A level reads what the tighter levels read if it does not go on behind it and, being
prefix, finds no operand behind the first token. -/
theorem ReadsAs.widen (h : ReadsAs context tighter tokens rest e)
    (hclosed : Closed (level :: tighter) rest)
    (hattempt : level.fixity = .prefixOp → ∀ token behind, tokens ++ rest = token :: behind →
      level.operators.contains token = true → ∀ position,
        ∃ error, (read context (level :: tighter) position behind).outcome = .error error) :
    ReadsAs context (level :: tighter) tokens rest e := by
  intro position
  rw [read]
  by_cases hfixity : level.fixity = .prefixOp
  · have hread := h position
    rw [readBody, hfixity]
    cases htokens : tokens ++ rest with
    | nil =>
      rw [htokens] at hread
      rw [prefixed]
      exact hread
    | cons token behind =>
      rw [htokens] at hread
      by_cases hcontains : level.operators.contains token = true
      · obtain ⟨error, herror⟩ :=
          hattempt hfixity token behind htokens hcontains (position + 1)
        simp only [prefixed, hcontains, if_true, Reading.orElse_of_error herror]
        exact hread
      · simp only [prefixed, hcontains, Bool.false_eq_true, if_false]
        exact hread
  · rw [readBody_eq_chain hfixity, Reading.andThen_of_ok (h position), chain_of_closed
      (by rwa [tokensFrom_append])]
    rfl

/-- Nothing is read behind a name where its level does not take what stands there for a
sign. -/
theorem read_behind_fails {others : List Level} (hnames : level.operators = .names)
    (hclosed : Closed others rest)
    (huntaken : ∀ token op, rest.head? = some token → token.operator? = some op →
      takesSign op (level :: tighter) = false) (position : Nat) :
    ∃ error, (read context (level :: tighter) position rest).outcome = .error error := by
  refine (read_fails fun token htoken => (hclosed token htoken).imp_right ?_).1
  rintro ⟨hkind, -⟩
  refine ⟨hkind, fun l hl hfixity => ?_⟩
  rcases List.mem_cons.mp hl with rfl | hl
  · simp [hnames, OperatorSet.contains, hkind]
  · by_contra hcontains
    rcases OperatorSet.kind_of_contains (by simpa using hcontains) with
      ⟨-, hname⟩ | ⟨op, hop, hmem⟩
    · simp [hkind] at hname
    · have hnone := (Bool.or_eq_false_iff.mp (huntaken token op htoken hop)).1
      have hsome : tighter.any (·.hasSign op) = true :=
        List.any_eq_true.mpr ⟨l, hl, Level.hasSign_iff.mpr ⟨hfixity, hmem⟩⟩
      simp [hnames, hsome] at hnone

/-- An operand is read by all levels that neither go on behind it nor, if it is a
variable, take the operator there for a sign. -/
theorem Operand.readsAs (operand : Operand context tokens e) (hclosed : Closed levels rest)
    (huntaken : e.isVar = true → ∀ token op, rest.head? = some token →
      token.operator? = some op → takesSign op levels = false) :
    ReadsAs context levels tokens rest e := by
  induction levels with
  | nil => exact operand.reads rest hclosed
  | cons level tighter ih =>
    have htighter := ih hclosed.tail fun hvar token op htoken hop =>
      takesSign_tail (huntaken hvar token op htoken hop)
    refine htighter.widen hclosed fun hfixity token behind htokens hcontains position => ?_
    obtain ⟨first, others, rfl, hhead⟩ := operand.head
    obtain ⟨rfl, rfl⟩ := List.cons_eq_cons.mp htokens
    obtain ⟨hnames, rfl, hvar⟩ := hhead level.operators hcontains
    exact read_behind_fails hnames hclosed (huntaken hvar) position

/-- At the end of a formula all levels read an operand. -/
theorem Operand.readsAs_of_ended (operand : Operand context tokens e) (hend : Ended rest) :
    ReadsAs context levels tokens rest e := by
  refine operand.readsAs hend.closed fun _ token op htoken hop => ?_
  have hkind := hend token htoken
  simp [Token.kind_of_operator? hop] at hkind

/-- A prefix level reads its operator with what it reads behind it. -/
theorem ReadsAs.prefixed {op : PrefixOp} (h : ReadsAs context (level :: tighter) tokens rest e)
    (hfixity : level.fixity = .prefixOp) (hcontains : level.operators.contains token = true)
    (spells : token.Spells (.prefixed op)) :
    ReadsAs context (level :: tighter) (token :: tokens) rest (.prefixed op e) := by
  intro position
  rw [read, readBody, hfixity]
  simp only [List.cons_append, Plain.prefixed, hcontains, if_true,
    Reading.orElse_of_ok (h (position + 1)), prefixOp?_of_spells hcontains spells,
    Reading.enclosed, Reading.before, Reading.found, List.length_cons]
  congr 2
  omega

/-- The loosest prefix level that has the operator reads it with its operand. -/
theorem readsAs_prefixed {op : PrefixOp} (spells : token.Spells (.prefixed op))
    (operand : Operand context tokens e) (hend : Ended rest)
    (hoffered : ∃ level ∈ levels, level.fixity = .prefixOp ∧
      level.operators.contains token = true) :
    ReadsAs context levels (token :: tokens) rest (.prefixed op e) := by
  induction levels with
  | nil => simp at hoffered
  | cons level tighter ih =>
    by_cases hhere : level.fixity = .prefixOp ∧ level.operators.contains token = true
    · have hoperand : ReadsAs context (level :: tighter) tokens rest e :=
        operand.readsAs_of_ended hend
      exact hoperand.prefixed hhere.1 hhere.2 spells
    · obtain ⟨other, hmem, hother⟩ := hoffered
      have hbelow : other ∈ tighter :=
        (List.mem_cons.mp hmem).resolve_left fun heq => hhere (heq ▸ hother)
      have htighter := ih ⟨other, hbelow, hother⟩
      refine htighter.widen hend.closed fun hfixity first others htokens hcontains => ?_
      obtain ⟨rfl, -⟩ := List.cons_eq_cons.mp htokens
      exact absurd ⟨hfixity, hcontains⟩ hhere

/-- Levels that do not have the operator of the next token are closed there. -/
theorem closed_of_notMem {op : Operator} (rest : List Token) (hop : token.operator? = some op)
    (hnone : ∀ level ∈ levels, level.fixity ≠ .prefixOp → op ∉ level.operators.list) :
    Closed levels (token :: rest) := by
  intro next hnext
  cases hnext
  refine .inr ⟨Token.kind_of_operator? hop, fun level hlevel hfixity => ?_⟩
  by_contra hcontains
  have hmem := (OperatorSet.contains_iff hop).mp (by simpa using hcontains)
  exact hnone level hlevel hfixity hmem

/-- The tightest level that goes on with the operator between these tokens reads them, if no
level takes it for a sign behind a variable. -/
theorem readsAs_onward {op : Operator} (hvalid : ∀ level ∈ levels, level.Valid)
    (hop : token.operator? = some op) (left : Operand context before l) (hend : Ended rest)
    (huntaken : l.isVar = true → takesSign op levels = false)
    (hoffered : ∃ level ∈ levels, level.fixity ≠ .prefixOp ∧ op ∈ level.operators.list)
    (honward : ∀ level tighter, level.Valid → level.fixity ≠ .prefixOp →
      op ∈ level.operators.list → ∀ position,
        (chain context (level :: tighter) l position (token :: (behind ++ rest))).outcome =
          .ok (e, position + (behind.length + 1))) :
    ReadsAs context levels (before ++ token :: behind) rest e := by
  have huntakenBy {others : List Level} (h : l.isVar = true → takesSign op others = false)
      (hvar : l.isVar = true) (next : Token) (other : Operator)
      (hnext : (token :: (behind ++ rest)).head? = some next)
      (hother : next.operator? = some other) : takesSign other others = false := by
    cases hnext
    rw [hop] at hother
    cases hother
    exact h hvar
  induction levels with
  | nil => simp at hoffered
  | cons level tighter ih =>
    have htail : ∀ level ∈ tighter, level.Valid :=
      fun l hl => hvalid l (List.mem_cons_of_mem _ hl)
    by_cases hbelow : ∃ l ∈ tighter, l.fixity ≠ .prefixOp ∧ op ∈ l.operators.list
    -- A level with a tighter one that has the operator passes on what the tighter one read.
    · have htighter := ih htail (fun hvar => takesSign_tail (huntaken hvar)) hbelow
      refine htighter.widen hend.closed fun hfixity first others htokens hcontains position => ?_
      obtain ⟨name, more, rfl, hhead⟩ := left.head
      obtain ⟨rfl, rfl⟩ := List.cons_eq_cons.mp htokens
      obtain ⟨hnames, rfl, hvar⟩ := hhead level.operators hcontains
      have hclosed : Closed [] (token :: (behind ++ rest)) := closed_of_notMem _ hop (by simp)
      exact read_behind_fails hnames hclosed (huntakenBy huntaken hvar) position
    · obtain ⟨other, hmem, hfixity, hother⟩ := hoffered
      obtain rfl : other = level := (List.mem_cons.mp hmem).resolve_right
        fun hmem => hbelow ⟨other, hmem, hfixity, hother⟩
      intro position
      have hclosed : Closed tighter (token :: (behind ++ rest)) :=
        closed_of_notMem _ hop fun l hl hl' hin => hbelow ⟨l, hl, hl', hin⟩
      have hfirst := left.readsAs hclosed
        (huntakenBy fun hvar => takesSign_tail (huntaken hvar)) position
      have hchain := honward other tighter (hvalid other hmem) hfixity hother
        (position + before.length)
      rw [List.append_assoc, List.cons_append, read, readBody_eq_chain hfixity,
        Reading.andThen_of_ok hfirst, tokensFrom_append]
      simp only [Reading.enclosed, Reading.before, hchain, List.length_append, List.length_cons,
        Nat.add_assoc]

/-- A factorial is read with its operand. -/
theorem readsAs_factorial (hvalid : ∀ level ∈ levels, level.Valid)
    (hop : token.operator? = some .bang) (operand : Operand context tokens e) (hend : Ended rest)
    (hoffered : ∃ level ∈ levels, level.fixity = .postfixOp ∧ .bang ∈ level.operators.list) :
    ReadsAs context levels (tokens ++ [token]) rest (.postfixed e .factorial) := by
  obtain ⟨offering, hmem, hoffering, hin⟩ := hoffered
  refine readsAs_onward hvalid hop operand hend (fun _ => takesSign_eq_false hvalid rfl)
    ⟨offering, hmem, by simp [hoffering], hin⟩ fun level tighter hlevel hfixity hbang position => ?_
  have haccepts := hlevel.accepts hbang
  have hfixity : level.fixity = .postfixOp := by
    cases hf : level.fixity with
    | postfixOp => rfl
    | prefixOp => exact absurd hf hfixity
    | infixOp side => simp [hf, Fixity.accepts, Operator.asBinary?] at haccepts
  have hcontains := (OperatorSet.contains_iff hop).mpr hbang
  have hmeaning : Operator.bang.asPostfix? = some .factorial := rfl
  have hstop : chain context (level :: tighter) (.postfixed e .factorial) (position + 1) rest =
      .found (.postfixed e .factorial) (position + 1) := chain_of_closed hend.closed
  simp only [chain, hfixity] at hstop
  simp only [chain, hfixity, postfixChain, hcontains, if_true, hop, Option.bind_some, hmeaning,
    List.nil_append, hstop, Reading.found, List.length_nil, Nat.zero_add]

/-- A binary operator is read with its operands. -/
theorem readsAs_binary {op : BinaryOp} {operator : Operator}
    (hmeaning : operator.asBinary? = some op) (hvalid : ∀ level ∈ levels, level.Valid)
    (hop : token.operator? = some operator) (left : Operand context before l)
    (right : Operand context behind r) (hend : Ended rest)
    (huntaken : l.isVar = true → takesSign operator levels = false)
    (hoffered : ∃ level ∈ levels,
      (level.fixity = .infixOp .left ∨ level.fixity = .infixOp .right) ∧
        operator ∈ level.operators.list) :
    ReadsAs context levels (before ++ token :: behind) rest (.binary op l r) := by
  obtain ⟨offering, hmem, hinfix, hin⟩ := hoffered
  have hbehind : offering.fixity ≠ .prefixOp := by rcases hinfix with h | h <;> simp [h]
  refine readsAs_onward hvalid hop left hend huntaken ⟨offering, hmem, hbehind, hin⟩
    fun level tighter hlevel hfixity hmem position => ?_
  have haccepts := hlevel.accepts hmem
  have hcontains := (OperatorSet.contains_iff hop).mpr hmem
  have hmeant : token.operator?.bind Operator.asBinary? = some op := by simp [hop, hmeaning]
  cases hf : level.fixity with
  | prefixOp => exact absurd hf hfixity
  | postfixOp =>
    rw [hf] at haccepts
    cases operator with
    | bang => cases hmeaning
    | _ => cases haccepts
  | infixOp side =>
    cases side with
    | left =>
      have hright : ReadsAs context tighter behind rest r := right.readsAs_of_ended hend
      have hstop : chain context (level :: tighter) (.binary op l r)
          (position + 1 + behind.length) rest =
          .found (.binary op l r) (position + 1 + behind.length) := chain_of_closed hend.closed
      simp only [chain, hf] at hstop
      simp only [chain, hf, leftChain, hcontains, if_true,
        Reading.orElse_of_ok (hright (position + 1)), hmeant, tokensFrom_append, hstop,
        Reading.before, Reading.found]
      congr 2
      omega
    | right =>
      have hright : ReadsAs context (level :: tighter) behind rest r :=
        right.readsAs_of_ended hend
      simp only [chain, hf, rightOperand, hcontains, if_true,
        Reading.orElse_of_ok (hright (position + 1)), hmeant, Reading.before, Reading.found]
      congr 2
      omega

/-- A variable in front of a sign that is taken is applied to what the sign begins. -/
theorem readsAs_taken {name : Token} {op : Operator} {sign : PrefixOp}
    (hvalid : ∀ level ∈ levels, level.Valid) (hname : name.kind = .letter)
    (hop : token.operator? = some op) (hsign : op.asPrefix? = some sign)
    (operand : Operand context tokens e) (hend : Ended rest) (htaken : takesSign op levels = true) :
    ReadsAs context levels (name :: token :: tokens) rest
      (.prefixed (.apply name.text) (.prefixed sign e)) := by
  induction levels with
  | nil => cases htaken
  | cons level tighter ih =>
    by_cases hnames : level.operators = .names
    -- The loosest level of names finds an operand behind the variable, so it never looks back.
    · have hfixity : level.fixity = .prefixOp := by
        have hlevel := hvalid level List.mem_cons_self
        simpa [Level.Valid, hnames] using hlevel
      have hcontains : level.operators.contains name = true := by
        simp [hnames, OperatorSet.contains, hname]
      obtain ⟨other, hmem, hother⟩ := List.any_eq_true.mp (any_hasSign_of_takesSign htaken)
      obtain ⟨hsigned, hin⟩ := Level.hasSign_iff.mp hother
      have hoperand : ReadsAs context (level :: tighter) (token :: tokens) rest
          (.prefixed sign e) := by
        refine readsAs_prefixed ?_ operand hend
          ⟨other, hmem, hsigned, (OperatorSet.contains_iff hop).mpr hin⟩
        cases op <;> cases hsign <;> simp [Token.Spells, hop, Operator.asPrefix?]
      exact hoperand.prefixed hfixity hcontains ⟨.inr hname, rfl⟩
    · have hbelow : takesSign op tighter = true := by
        simpa [takesSign, hnames] using htaken
      have htighter := ih (fun l hl => hvalid l (List.mem_cons_of_mem _ hl)) hbelow
      refine htighter.widen hend.closed fun _ first others htokens hcontains => ?_
      obtain ⟨rfl, -⟩ := List.cons_eq_cons.mp htokens
      rcases OperatorSet.kind_of_contains hcontains with ⟨hnames', -⟩ | ⟨other, hother, -⟩
      · exact absurd hnames' hnames
      · simp [Token.kind_of_operator? hother] at hname

end Plain

end Parse

end Formula
