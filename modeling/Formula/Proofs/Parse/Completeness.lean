import Formula.Proofs.Grammar.Separated
import Formula.Proofs.Parse.Plain

/-!
# The plain parser finds every derivation

Under a separated grammar the token behind a derived operand tells whether a
level goes on. A level that reads the tokens of a derivation followed by such a
token therefore arrives at the derived tree and stops right behind it. The
height of the derivation bounds the rules that are active at once.
-/

namespace Formula

namespace Parse

namespace Plain

variable {context : ParseContext} {all levels tighter : List Level} {level : Level}
  {rest tokens : List Token} {token : Token} {position : Nat} {e : Expr}

/-- None of the levels goes on behind an operand at the head of the tokens:
nothing is left, or a closing parenthesis is next, or an operator of other levels. -/
def Closed (levels : List Level) (tokens : List Token) : Prop :=
  ∀ token, tokens.head? = some token → token.kind = .rightParen ∨
    token.kind = .operator ∧
      ∀ level ∈ levels, level.fixity ≠ .prefixOp → level.operators.contains token = false

/-- No level goes on where nothing is left. -/
theorem closed_nil : Closed levels [] := by
  intro token h
  cases h

/-- No level goes on in front of a closing parenthesis. -/
theorem closed_paren (rest : List Token) (h : token.kind = .rightParen) :
    Closed levels (token :: rest) := by
  intro next hnext
  cases hnext
  exact .inl h

/-- Where none of the levels goes on, none of the tighter ones does. -/
theorem Closed.tail (h : Closed (level :: tighter) tokens) : Closed tighter tokens :=
  fun token htoken => (h token htoken).imp_right fun ⟨hkind, hnone⟩ =>
    ⟨hkind, fun l hl => hnone l (List.mem_cons_of_mem _ hl)⟩

/-- A level that does not go on does not have the next token for an operator. -/
theorem Closed.contains_eq_false (h : Closed (level :: tighter) (token :: rest))
    (hfixity : level.fixity ≠ .prefixOp) : level.operators.contains token = false := by
  rcases h token rfl with hkind | ⟨-, hnone⟩
  · exact OperatorSet.contains_eq_false_of_isParen (by simp [Token.isParen, hkind])
  · exact hnone level List.mem_cons_self hfixity

/-- Behind an operator of a level that goes on no tighter level goes on. -/
theorem closed_operator (rest : List Token) (horder : Orderly (level :: tighter))
    (hfixity : level.fixity ≠ .prefixOp) (hcontains : level.operators.contains token = true) :
    Closed tighter (token :: rest) := by
  intro next hnext
  cases hnext
  obtain ⟨op, hop, -⟩ :=
    (horder.valid level List.mem_cons_self).operator_of_contains hfixity hcontains
  refine .inr ⟨Token.kind_of_operator? hop, fun other hother hbehind => ?_⟩
  exact (horder.head_apart hother).contains_eq_false (horder.valid level List.mem_cons_self)
    (horder.valid other (List.mem_cons_of_mem _ hother)) hfixity hbehind hcontains

/-- A token of a prefix level that spells a prefix operator stands for it. -/
theorem prefixOp?_of_spells {operators : OperatorSet} {op : PrefixOp}
    (hcontains : operators.contains token = true) (spells : token.Spells (.prefixed op)) :
    operators.prefixOp? token = some op := by
  cases operators with
  | names =>
    have hkind : token.kind = .identifier ∨ token.kind = .letter := by
      simpa [OperatorSet.contains] using hcontains
    cases op with
    | apply name => simp [OperatorSet.prefixOp?, spells.2]
    | plus => rcases hkind with hk | hk <;> simp [Token.kind_of_operator?_bind spells] at hk
    | minus => rcases hkind with hk | hk <;> simp [Token.kind_of_operator?_bind spells] at hk
  | symbols list =>
    cases op with
    | apply name =>
      rcases spells.1 with hk | hk <;>
        simp [OperatorSet.contains, Token.operator?, hk] at hcontains
    | plus => exact spells
    | minus => exact spells

/-- What a level does behind its first operand. -/
def chain (context : ParseContext) (levels : List Level) (e : Expr) (position : Nat)
    (tokens : List Token) : Reading :=
  match levels with
  | [] => .found e position
  | level :: tighter =>
    match level.fixity with
    | .prefixOp => .found e position
    | .postfixOp => postfixChain context level.operators e position tokens
    | .infixOp .left => leftChain context level.operators tighter e position tokens
    | .infixOp .right => rightOperand context level tighter e position tokens

/-- A level that is not prefix reads an operand and goes on behind it. -/
theorem readBody_eq_chain (hfixity : level.fixity ≠ .prefixOp) :
    readBody context (level :: tighter) position tokens =
      (read context tighter position tokens).andThen fun operand finish =>
        chain context (level :: tighter) operand finish (tokensFrom tokens position finish) := by
  rw [readBody]
  cases hf : level.fixity with
  | prefixOp => exact absurd hf hfixity
  | postfixOp => simp only [chain, hf]
  | infixOp side => cases side <;> simp only [chain, hf]

/-- A level stops where it does not go on. -/
theorem chain_of_closed (h : Closed levels tokens) :
    chain context levels e position tokens = .found e position := by
  match levels with
  | [] => rfl
  | level :: tighter =>
    match hf : level.fixity, tokens with
    | .prefixOp, _ => simp only [chain, hf]
    | .postfixOp, [] => simp only [chain, hf, postfixChain]
    | .infixOp .left, [] => simp only [chain, hf, leftChain]
    | .infixOp .right, [] => simp only [chain, hf, rightOperand]
    | .postfixOp, token :: rest =>
      simp [chain, hf, postfixChain, h.contains_eq_false (by simp [hf])]
    | .infixOp .left, token :: rest =>
      simp [chain, hf, leftChain, h.contains_eq_false (by simp [hf])]
    | .infixOp .right, token :: rest =>
      simp [chain, hf, rightOperand, h.contains_eq_false (by simp [hf])]

/-- Nothing is read at the end, at a closing parenthesis, or at an operator token
that is no prefix operator of the levels; each level is tried once. -/
theorem read_fails (hhead : ∀ token, tokens.head? = some token → token.kind = .rightParen ∨
      token.kind = .operator ∧
        ∀ level ∈ levels, level.fixity = .prefixOp → level.operators.contains token = false) :
    (∃ error, (read context levels position tokens).outcome = .error error) ∧
      (read context levels position tokens).height = levels.length + 1 := by
  induction levels with
  | nil =>
    rw [read, readBody]
    cases tokens with
    | nil => simp [primary, Reading.fail, Reading.enclosed]
    | cons token rest =>
      rcases hhead token rfl with hk | ⟨hk, -⟩ <;>
        simp [primary, hk, Reading.fail, Reading.enclosed]
  | cons level tighter ih =>
    obtain ⟨⟨error, herror⟩, hheight⟩ := ih fun token htoken =>
      (hhead token htoken).imp_right fun h =>
        ⟨h.1, fun l hl => h.2 l (List.mem_cons_of_mem _ hl)⟩
    have hbody : readBody context (level :: tighter) position tokens =
        read context tighter position tokens := by
      by_cases hfixity : level.fixity = .prefixOp
      · rw [readBody, hfixity]
        cases tokens with
        | nil => rw [prefixed]
        | cons token behind =>
          have hcontains : level.operators.contains token = false := by
            rcases hhead token rfl with hk | ⟨-, hnone⟩
            · exact OperatorSet.contains_eq_false_of_isParen (by simp [Token.isParen, hk])
            · exact hnone level List.mem_cons_self hfixity
          simp [prefixed, hcontains]
      · rw [readBody_eq_chain hfixity, Reading.andThen_of_error herror]
    rw [read, hbody]
    exact ⟨⟨error, herror⟩, by simp [Reading.enclosed, hheight]⟩

/-- Whether a level goes on as long as there are operators. -/
def repeats (level : Level) : Bool :=
  level.fixity == .postfixOp || level.fixity == .infixOp .left

/-- What may stand behind the tokens of a derivation: a level that repeats its
operator may go on there. -/
def Pending (levels : List Level) (tokens : List Token) : Prop :=
  match levels with
  | [] => Closed [] tokens
  | level :: tighter => Closed (if repeats level then tighter else level :: tighter) tokens

/-- Where none of the levels goes on, the tokens of a derivation may end. -/
theorem Closed.pending (h : Closed levels tokens) : Pending levels tokens := by
  match levels with
  | [] => exact h
  | level :: tighter =>
    by_cases hr : repeats level
    · simpa [Pending, hr] using h.tail
    · simpa [Pending, hr] using h

/-- Behind the tokens of a derivation none of the tighter levels goes on. -/
theorem Pending.tail (h : Pending (level :: tighter) tokens) : Closed tighter tokens := by
  by_cases hr : repeats level
  · simpa [Pending, hr] using h
  · have hclosed : Closed (level :: tighter) tokens := by simpa [Pending, hr] using h
    exact hclosed.tail

/-- Behind the tokens of a derivation a level that does not repeat its operator does not go on.
-/
theorem Pending.closed (h : Pending (level :: tighter) tokens) (hr : repeats level = false) :
    Closed (level :: tighter) tokens := by
  simpa [Pending, hr] using h

/-- The body of a rule reads a tree from these tokens and goes on behind them. With the
rule itself so many rules are active on the way, wherever the tokens stand. -/
def Attains (context : ParseContext) (levels : List Level) (tokens : List Token) (e : Expr)
    (height : Nat) : Prop :=
  ∀ position rest, Pending levels rest → ∃ first : Reading, first.height + 1 = height ∧
    readBody context levels position (tokens ++ rest) =
      first.before (chain context levels e (position + tokens.length) rest)

/-- A rule whose level does not go on behind the tokens stops there with its height. -/
theorem Attains.read {height : Nat} (h : Attains context levels tokens e height)
    (hclosed : Closed levels rest) (position : Nat) :
    (read context levels position (tokens ++ rest)).outcome = .ok (e, position + tokens.length) ∧
      (read context levels position (tokens ++ rest)).height = height := by
  obtain ⟨first, hheight, hbody⟩ := h position rest hclosed.pending
  rw [Plain.read, hbody, chain_of_closed hclosed]
  exact ⟨rfl, by simpa [Reading.enclosed, Reading.before, Reading.found] using hheight⟩

/-- A number token is read as its value. -/
theorem attains_literal {value : Literal} (spells : token.Spells (.literal value)) :
    Attains context [] [token] (.literal value) 1 := by
  intro position rest _
  refine ⟨⟨.ok (.literal value, position + 1), [], 0⟩, rfl, ?_⟩
  have hvalue : token.literal? = some value := spells
  rw [readBody]
  rcases Token.kind_of_literal? hvalue with hk | hk <;>
    simp [primary, hk, hvalue, chain, Reading.before, Reading.found]

/-- A name of one letter is read as the variable. -/
theorem attains_var {name : Char} (spells : token.Spells (.var name)) :
    Attains context [] [token] (.var name) 1 := by
  intro position rest _
  refine ⟨⟨.ok (.var name, position + 1), [], 0⟩, rfl, ?_⟩
  obtain ⟨hkind, hname⟩ := spells
  obtain ⟨others, htext⟩ := List.head?_eq_some_iff.mp hname
  rw [readBody]
  simp [primary, hkind, htext, chain, Reading.before, Reading.found]

/-- A formula in parentheses is read by all levels. -/
theorem attains_paren {opening closing : Token} {height : Nat}
    (opens : opening.kind = .leftParen) (closes : closing.kind = .rightParen)
    (body : Attains context context.levels tokens e height) :
    Attains context [] (opening :: (tokens ++ [closing])) e (height + 1) := by
  intro position rest _
  obtain ⟨hinner, hheight⟩ := body.read (closed_paren rest closes) (position + 1)
  refine ⟨Plain.read context context.levels (position + 1) (tokens ++ closing :: rest),
    by omega, ?_⟩
  rw [readBody]
  simp only [List.cons_append, List.append_assoc, List.nil_append, primary, opens,
    Reading.andThen_of_ok hinner, tokensFrom_append, ParseContext.peek, List.headD_cons, closes,
    if_true, chain, List.length_cons, List.length_append, List.length_nil]
  congr 2
  omega

/-- A name that is a variable for the tighter levels has no operand behind it. -/
theorem read_behind_name_fails (context : ParseContext) (position : Nat)
    (horder : Orderly (level :: tighter))
    (hnames : level.operators = .names) (hkind : token.kind = .identifier ∨ token.kind = .letter)
    (derivation : Derivation all tighter (token :: tokens) e) (hclosed : Closed tighter rest) :
    (∃ error, (read context (level :: tighter) position (tokens ++ rest)).outcome = .error error) ∧
      (read context (level :: tighter) position (tokens ++ rest)).height = tighter.length + 2 := by
  have htighter := horder.not_prefix_of_names hnames
  have hhead : ∀ next, (tokens ++ rest).head? = some next →
      next.kind = .rightParen ∨ next.kind = .operator := by
    intro next hnext
    cases tokens with
    | nil => exact (hclosed next hnext).imp_right And.left
    | cons other more =>
      cases hnext
      exact .inr (derivation.operator_behind_name htighter rfl hkind)
  refine read_fails fun next hnext => (hhead next hnext).imp_right fun hoperator =>
    ⟨hoperator, fun l hl hbefore => ?_⟩
  rcases List.mem_cons.mp hl with rfl | hl
  · simp [hnames, OperatorSet.contains, hoperator]
  · exact absurd hbefore (htighter l hl)

/-- The signs of a prefix level begin nothing that the tighter levels derive. -/
theorem names_of_contains_head (horder : Orderly (level :: tighter))
    (hfixity : level.fixity = .prefixOp) (hcontains : level.operators.contains token = true)
    (derivation : Derivation all tighter (token :: tokens) e) :
    level.operators = .names ∧ (token.kind = .identifier ∨ token.kind = .letter) := by
  rcases OperatorSet.kind_of_contains hcontains with hnames | ⟨op, hop, hmem⟩
  · exact hnames
  · obtain ⟨other, hother, hbefore, hmember⟩ :=
      derivation.head_operator rfl (Token.kind_of_operator? hop)
    have hside : other.fixity.sameSide level.fixity = true := by
      simp [hbefore, hfixity, Fixity.sameSide]
    have hshared := (OperatorSet.contains_iff hop).mp hmember
    exact absurd hmem ((horder.head_apart hother).symbols hside op hshared)

/-- What the tighter levels read is read by a level too, if the first token is no prefix
operator of the level. -/
theorem attains_passed {height : Nat} (hne : tokens ≠ [])
    (hhead : level.fixity = .prefixOp → ∀ token, tokens.head? = some token →
      level.operators.contains token = false)
    (body : Attains context tighter tokens e height) :
    Attains context (level :: tighter) tokens e (height + 1) := by
  intro position rest hpending
  obtain ⟨hread, hheight⟩ := body.read hpending.tail position
  refine ⟨Plain.read context tighter position (tokens ++ rest), by rw [hheight], ?_⟩
  by_cases hfixity : level.fixity = .prefixOp
  · obtain ⟨token, others, rfl⟩ := List.exists_cons_of_ne_nil hne
    have hcontains := hhead hfixity token rfl
    have hchain : ∀ next, chain context (level :: tighter) e next rest = .found e next := by
      intro next
      simp only [chain, hfixity]
    rw [readBody, hfixity, hchain, Reading.before_found hread]
    simp only [List.cons_append, prefixed, hcontains, Bool.false_eq_true, if_false]
  · rw [readBody_eq_chain hfixity, Reading.andThen_of_ok hread, tokensFrom_append]

/-- A prefix level that applies functions looks for an operand behind a name in vain, and
then reads what the tighter levels read. -/
theorem attains_fallback {height : Nat} (horder : Orderly (level :: tighter))
    (hfixity : level.fixity = .prefixOp) (hcontains : level.operators.contains token = true)
    (derivation : Derivation all tighter (token :: tokens) e)
    (body : Attains context tighter (token :: tokens) e height) :
    Attains context (level :: tighter) (token :: tokens) e
      (max height (tighter.length + 2) + 1) := by
  intro position rest hpending
  obtain ⟨hread, hheight⟩ := body.read hpending.tail position
  have hchain : ∀ next, chain context (level :: tighter) e next rest = .found e next := by
    intro next
    simp only [chain, hfixity]
  obtain ⟨hnames, hkind⟩ := names_of_contains_head horder hfixity hcontains derivation
  obtain ⟨⟨error, herror⟩, hattempt⟩ := read_behind_name_fails context (position + 1) horder
    hnames hkind derivation hpending.tail
  refine ⟨(Plain.read context (level :: tighter) (position + 1) (tokens ++ rest)).before
    (Plain.read context tighter position (token :: tokens ++ rest)), ?_, ?_⟩
  · simp only [Reading.before, hattempt, hheight]
    omega
  · rw [readBody, hfixity, hchain, Reading.before_found (by exact hread)]
    simp only [List.cons_append, prefixed, hcontains, if_true, Reading.orElse_of_error herror]

/-- A prefix operator is read with its operand. -/
theorem attains_prefixed {op : PrefixOp} {height : Nat} (hfixity : level.fixity = .prefixOp)
    (hcontains : level.operators.contains token = true) (spells : token.Spells (.prefixed op))
    (operand : Attains context (level :: tighter) tokens e height) :
    Attains context (level :: tighter) (token :: tokens) (.prefixed op e) (height + 1) := by
  intro position rest hpending
  have hclosed := hpending.closed (by simp [repeats, hfixity])
  obtain ⟨hread, hheight⟩ := operand.read hclosed (position + 1)
  refine ⟨Plain.read context (level :: tighter) (position + 1) (tokens ++ rest), by omega, ?_⟩
  have hmeaning := prefixOp?_of_spells hcontains spells
  rw [readBody, hfixity, chain_of_closed hclosed]
  simp only [List.cons_append, prefixed, hcontains, if_true, Reading.orElse_of_ok hread, hmeaning,
    List.length_cons]
  congr 2
  omega

/-- A postfix operator is applied to the operand that was read. -/
theorem attains_postfixed {op : PostfixOp} {height : Nat} (horder : Orderly (level :: tighter))
    (hfixity : level.fixity = .postfixOp) (hcontains : level.operators.contains token = true)
    (spells : token.Spells (.postfixed op))
    (operand : Attains context (level :: tighter) tokens e height) :
    Attains context (level :: tighter) (tokens ++ [token]) (.postfixed e op) height := by
  intro position rest hpending
  have hnext : Pending (level :: tighter) (token :: rest) := by
    simpa [Pending, repeats, hfixity] using
      closed_operator rest horder (by simp [hfixity]) hcontains
  obtain ⟨first, hheight, hbody⟩ := operand position (token :: rest) hnext
  refine ⟨first, hheight, ?_⟩
  have hmeaning : token.operator?.bind Operator.asPostfix? = some op := spells
  rw [List.append_assoc, List.singleton_append, hbody]
  simp only [chain, hfixity, postfixChain, hcontains, if_true, hmeaning, List.length_append,
    List.length_singleton, Nat.add_assoc]

/-- An infix operator grouped to the left is applied to the operand that was read
and to one of the tighter levels. -/
theorem attains_left {op : BinaryOp} {behind : List Token} {r : Expr} {height other : Nat}
    (horder : Orderly (level :: tighter)) (hfixity : level.fixity = .infixOp .left)
    (hcontains : level.operators.contains token = true) (spells : token.Spells (.binary op))
    (first : Attains context (level :: tighter) tokens e height)
    (second : Attains context tighter behind r other) :
    Attains context (level :: tighter) (tokens ++ token :: behind) (.binary op e r)
      (max height (other + 1)) := by
  intro position rest hpending
  have hnext : Pending (level :: tighter) (token :: (behind ++ rest)) := by
    simpa [Pending, repeats, hfixity] using
      closed_operator (behind ++ rest) horder (by simp [hfixity]) hcontains
  obtain ⟨reading, hheight, hbody⟩ := first position (token :: (behind ++ rest)) hnext
  obtain ⟨hread, hright⟩ := second.read hpending.tail (position + tokens.length + 1)
  refine ⟨reading.before
    (Plain.read context tighter (position + tokens.length + 1) (behind ++ rest)), ?_, ?_⟩
  · simp only [Reading.before]
    omega
  · have hmeaning : token.operator?.bind Operator.asBinary? = some op := spells
    rw [List.append_assoc, List.cons_append, hbody, Reading.before_assoc]
    simp only [chain, hfixity, leftChain, hcontains, if_true, Reading.orElse_of_ok hread, hmeaning,
      tokensFrom_append, List.length_append, List.length_cons]
    congr 3
    omega

/-- An infix operator grouped to the right is applied to an operand of the
tighter levels and to one of its own level. -/
theorem attains_right {op : BinaryOp} {behind : List Token} {r : Expr} {height other : Nat}
    (horder : Orderly (level :: tighter)) (hfixity : level.fixity = .infixOp .right)
    (hcontains : level.operators.contains token = true) (spells : token.Spells (.binary op))
    (first : Attains context tighter tokens e height)
    (second : Attains context (level :: tighter) behind r other) :
    Attains context (level :: tighter) (tokens ++ token :: behind) (.binary op e r)
      (max height other + 1) := by
  intro position rest hpending
  have hclosed := hpending.closed (by simp [repeats, hfixity])
  obtain ⟨hleft, hheight⟩ := first.read
    (closed_operator (behind ++ rest) horder (by simp [hfixity]) hcontains) position
  obtain ⟨hread, hright⟩ := second.read hclosed (position + tokens.length + 1)
  refine ⟨(Plain.read context tighter position (tokens ++ token :: (behind ++ rest))).before
    (Plain.read context (level :: tighter) (position + tokens.length + 1) (behind ++ rest)),
    ?_, ?_⟩
  · simp only [Reading.before]
    omega
  · have hmeaning : token.operator?.bind Operator.asBinary? = some op := spells
    rw [List.append_assoc, List.cons_append, readBody_eq_chain (by simp [hfixity]),
      Reading.andThen_of_ok hleft, tokensFrom_append, chain_of_closed hclosed, Reading.before_assoc]
    simp only [chain, hfixity, rightOperand, hcontains, if_true, Reading.orElse_of_ok hread,
      hmeaning, List.length_append, List.length_cons]
    congr 3
    omega

/-- The tokens of a derivation are read as the derived tree. How many rules are active on
the way depends on nothing but the tokens and the levels. -/
theorem exists_attains (derivation : Derivation all levels tokens e) (hall : Orderly all)
    (horder : Orderly levels) : ∃ height ≤ derivation.height,
      ∀ context : ParseContext, context.levels = all → Attains context levels tokens e height := by
  induction derivation with
  | literal spells => exact ⟨1, Nat.le_refl _, fun _ _ => attains_literal spells⟩
  | var spells => exact ⟨1, Nat.le_refl _, fun _ _ => attains_var spells⟩
  | paren opens closes body ih =>
    obtain ⟨height, hle, hbody⟩ := ih hall
    refine ⟨height + 1, Nat.succ_le_succ hle, ?_⟩
    rintro context rfl
    exact attains_paren opens closes (hbody context rfl)
  | @tighter level tighter tokens e body ih =>
    obtain ⟨height, hle, hbody⟩ := ih horder.tail
    obtain ⟨token, others, rfl⟩ := List.exists_cons_of_ne_nil body.tokens_ne_nil
    -- If the first token may be a prefix operator, the level tries it and has to fail there.
    by_cases hhead : level.fixity = .prefixOp ∧ level.operators.contains token = true
    · refine ⟨max height (tighter.length + 2) + 1, ?_, fun context hcontext =>
        attains_fallback horder hhead.1 hhead.2 body (hbody context hcontext)⟩
      simp only [Derivation.height]
      omega
    · refine ⟨height + 1, ?_, fun context hcontext =>
        attains_passed (List.cons_ne_nil _ _) (fun hfixity next hnext => ?_)
          (hbody context hcontext)⟩
      · simp only [Derivation.height]
        omega
      · cases hnext
        simpa [hfixity] using hhead
  | prefixed fixity member spells operand ih =>
    obtain ⟨height, hle, hbody⟩ := ih horder
    exact ⟨height + 1, Nat.succ_le_succ hle, fun context hcontext =>
      attains_prefixed fixity member spells (hbody context hcontext)⟩
  | postfixed fixity member spells operand ih =>
    obtain ⟨height, hle, hbody⟩ := ih horder
    exact ⟨height, hle, fun context hcontext =>
      attains_postfixed horder fixity member spells (hbody context hcontext)⟩
  | left fixity member spells first second ihl ihr =>
    obtain ⟨height, hle, hfirst⟩ := ihl horder
    obtain ⟨other, hother, hsecond⟩ := ihr horder.tail
    refine ⟨max height (other + 1), ?_, fun context hcontext =>
      attains_left horder fixity member spells (hfirst context hcontext)
        (hsecond context hcontext)⟩
    simp only [Derivation.height]
    omega
  | right fixity member spells first second ihl ihr =>
    obtain ⟨height, hle, hfirst⟩ := ihl horder.tail
    obtain ⟨other, hother, hsecond⟩ := ihr horder
    refine ⟨max height other + 1, ?_, fun context hcontext =>
      attains_right horder fixity member spells (hfirst context hcontext)
        (hsecond context hcontext)⟩
    simp only [Derivation.height]
    omega

/-- A tree that is read from all tokens in front of the end is what the grammar reads. -/
theorem readAll_of_read {grammar : Grammar} {tokens : List Token}
    (h : (read (Parse.context grammar tokens) grammar.loosestFirst 0
      (Token.beforeEnding tokens)).outcome = .ok (e, 0 + (Token.beforeEnding tokens).length)) :
    readAll grammar tokens = read (Parse.context grammar tokens) grammar.loosestFirst 0
      (Token.beforeEnding tokens) := by
  have hrest : tokensFrom (Token.beforeEnding tokens) 0
      (0 + (Token.beforeEnding tokens).length) = [] := by simp [tokensFrom]
  rw [readAll, checkEnding, Reading.andThen_of_ok h, hrest, Reading.before_found h]

/-- A separated grammar reads the whole of what it derives. -/
theorem readAll_of_derivation {grammar : Grammar} (hseparated : grammar.Separated)
    {tokens : List Token}
    (derivation : Derivation grammar.loosestFirst grammar.loosestFirst
      (Token.beforeEnding tokens) e) :
    (∃ finish, (readAll grammar tokens).outcome = .ok (e, finish)) ∧
      (readAll grammar tokens).height ≤ derivation.height := by
  obtain ⟨height, hle, hattains⟩ :=
    exists_attains derivation hseparated.orderly hseparated.orderly
  obtain ⟨hread, hheight⟩ := (hattains (Parse.context grammar tokens) rfl).read closed_nil 0
  rw [List.append_nil] at hread hheight
  rw [readAll_of_read hread]
  exact ⟨⟨_, hread⟩, Nat.le_trans (Nat.le_of_eq hheight) hle⟩

end Plain

end Parse

end Formula
