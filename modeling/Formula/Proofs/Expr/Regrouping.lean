import Formula.Proofs.Expr.RoundTrip
import Formula.Proofs.Parse.Operands

/-!
# Rendered formulas under any table

The operands of a rendered operator are atoms or stand in parentheses, so that no table
regroups them, with one exception. Where a level of names is looser than the level of a
sign, a variable in front of that sign is applied as a function to the signed operand:
the difference `f - x` is read as `f (-x)`. Every other tree comes back under every
table that offers its operators.
-/

namespace Formula

/-- Whether a level has the operator of a symbol at the side where it stands. Literals and
variables need no level. -/
def Level.Offers (level : Level) : Symbol → Prop
  | .literal _ => True
  | .var _ => True
  | .prefixed (.apply _) => level.operators = .names
  | .prefixed .plus => level.fixity = .prefixOp ∧ .plus ∈ level.operators.list
  | .prefixed .minus => level.fixity = .prefixOp ∧ .minus ∈ level.operators.list
  | .postfixed .factorial => level.fixity = .postfixOp ∧ .bang ∈ level.operators.list
  | .binary op =>
    (level.fixity = .infixOp .left ∨ level.fixity = .infixOp .right) ∧
      op.operator ∈ level.operators.list

instance (level : Level) : (symbol : Symbol) → Decidable (level.Offers symbol)
  | .literal _ => inferInstanceAs (Decidable True)
  | .var _ => inferInstanceAs (Decidable True)
  | .prefixed (.apply _) => inferInstanceAs (Decidable (level.operators = .names))
  | .prefixed .plus =>
    inferInstanceAs (Decidable (level.fixity = .prefixOp ∧ .plus ∈ level.operators.list))
  | .prefixed .minus =>
    inferInstanceAs (Decidable (level.fixity = .prefixOp ∧ .minus ∈ level.operators.list))
  | .postfixed .factorial =>
    inferInstanceAs (Decidable (level.fixity = .postfixOp ∧ .bang ∈ level.operators.list))
  | .binary op =>
    inferInstanceAs (Decidable
      ((level.fixity = .infixOp .left ∨ level.fixity = .infixOp .right) ∧
        op.operator ∈ level.operators.list))

namespace Grammar

variable {grammar : Grammar} {e operand left right : Expr} {op : BinaryOp}

/-- Some level has each operator of the tree at the side where the tree uses it. -/
def Offers (grammar : Grammar) (e : Expr) : Prop :=
  ∀ symbol ∈ e.symbols, ∃ level ∈ grammar.loosestFirst, level.Offers symbol

instance (grammar : Grammar) (e : Expr) : Decidable (grammar.Offers e) :=
  inferInstanceAs (Decidable (∀ symbol ∈ e.symbols, ∃ level ∈ grammar.loosestFirst,
    level.Offers symbol))

/-- A table offers a prefix operation if it offers its operator and its operand. -/
theorem offers_prefixed {op : PrefixOp} : grammar.Offers (.prefixed op operand) ↔
    (∃ level ∈ grammar.loosestFirst, level.Offers (.prefixed op)) ∧ grammar.Offers operand := by
  simp [Offers, Expr.symbols]

/-- A table offers a postfix operation if it offers its operand and its operator. -/
theorem offers_postfixed {op : PostfixOp} : grammar.Offers (.postfixed operand op) ↔
    grammar.Offers operand ∧
      ∃ level ∈ grammar.loosestFirst, level.Offers (.postfixed op) := by
  simp [Offers, Expr.symbols, or_imp, forall_and]

/-- A table offers a binary operation if it offers its operator and both operands. -/
theorem offers_binary : grammar.Offers (.binary op left right) ↔
    grammar.Offers left ∧ (∃ level ∈ grammar.loosestFirst, level.Offers (.binary op)) ∧
      grammar.Offers right := by
  simp [Offers, Expr.symbols, or_imp, forall_and]

/-- The sign that a binary operator is behind a variable, if the table takes it for one. -/
def signTaken? (grammar : Grammar) (op : BinaryOp) : Option PrefixOp :=
  if takesSign op.operator grammar.loosestFirst then op.operator.asPrefix? else none

/-- The tree that the rendered tree is read as. -/
def regroup (grammar : Grammar) : Expr → Expr
  | .literal value => .literal value
  | .var name => .var name
  | .prefixed op operand => .prefixed op (grammar.regroup operand)
  | .postfixed operand op => .postfixed (grammar.regroup operand) op
  | .binary op left right =>
    match left, grammar.signTaken? op with
    | .var name, some sign =>
      .prefixed (.apply (String.singleton name)) (.prefixed sign (grammar.regroup right))
    | _, _ => .binary op (grammar.regroup left) (grammar.regroup right)

/-- No variable of the tree stands in front of an operator that the table takes for a sign. -/
def Keeps (grammar : Grammar) : Expr → Prop
  | .literal _ => True
  | .var _ => True
  | .prefixed _ operand => grammar.Keeps operand
  | .postfixed operand _ => grammar.Keeps operand
  | .binary op left right =>
    (left.isVar = true → grammar.signTaken? op = none) ∧ grammar.Keeps left ∧ grammar.Keeps right

/-- An operator that is no sign behind a variable is not taken for one by any level. -/
theorem takesSign_eq_false_of_signTaken? (h : grammar.signTaken? op = none) :
    takesSign op.operator grammar.loosestFirst = false := by
  by_contra htaken
  rw [signTaken?, if_pos (by simpa using htaken)] at h
  exact htaken (takesSign_eq_false grammar.valid_loosestFirst h)

/-- An operator that is a sign behind a variable is taken for this sign by a level. -/
theorem takesSign_of_signTaken? {sign : PrefixOp} (h : grammar.signTaken? op = some sign) :
    takesSign op.operator grammar.loosestFirst = true ∧ op.operator.asPrefix? = some sign := by
  rw [signTaken?] at h
  split at h
  · exact ⟨‹_›, h⟩
  · cases h

/-- A variable in front of an operator that is taken for a sign is read as a function. -/
theorem regroup_taken {name : Char} {sign : PrefixOp} (h : grammar.signTaken? op = some sign) :
    grammar.regroup (.binary op (.var name) right) =
      .prefixed (.apply (String.singleton name)) (.prefixed sign (grammar.regroup right)) := by
  simp [regroup, h]

/-- A binary operator that is not taken for a sign is read between its operands. -/
theorem regroup_kept (h : left.isVar = true → grammar.signTaken? op = none) :
    grammar.regroup (.binary op left right) =
      .binary op (grammar.regroup left) (grammar.regroup right) := by
  cases left with
  | var name => simp [regroup, h rfl]
  | _ => simp [regroup]

/-- A binary operator is kept, or it is a sign taken behind a variable. -/
theorem kept_or_taken (grammar : Grammar) (op : BinaryOp) (left : Expr) :
    (left.isVar = true → grammar.signTaken? op = none) ∨
      ∃ name sign, left = .var name ∧ grammar.signTaken? op = some sign := by
  cases left with
  | var name =>
    cases hsign : grammar.signTaken? op with
    | none => exact .inl fun _ => rfl
    | some sign => exact .inr ⟨name, sign, rfl, rfl⟩
  | _ => exact .inl nofun

/-- The tree that is read is a variable if the tree that was rendered is one. -/
theorem isVar_regroup : (grammar.regroup e).isVar = e.isVar := by
  cases e with
  | binary op left right =>
    rcases grammar.kept_or_taken op left with hkept | ⟨name, sign, rfl, htaken⟩
    · rw [regroup_kept hkept]
      rfl
    · rw [regroup_taken htaken]
      rfl
  | _ => rfl

/-- A tree is its own regrouping if all its binary operators are kept. -/
theorem regroup_eq_self_iff : grammar.regroup e = e ↔ grammar.Keeps e := by
  induction e with
  | literal | var => simp [regroup, Keeps]
  | prefixed op operand ih | postfixed operand op ih => simp [regroup, Keeps, ih]
  | binary op left right ihl ihr =>
    rcases grammar.kept_or_taken op left with hkept | ⟨name, sign, rfl, htaken⟩
    · simpa [regroup_kept hkept, Keeps, ihl, ihr] using fun _ _ => hkept
    · simp [regroup_taken htaken, Keeps, htaken, Expr.isVar]

end Grammar

open Parse Parse.Plain

variable {grammar : Grammar} {context : ParseContext} {tokens rest : List Token} {e : Expr}

/-- The tokens of an operand are one for the rules, if the tokens of the tree are read as
the regrouped tree. -/
theorem operand_of_pieces (hwf : e.WellFormed)
    (h : tokens.map Token.piece = Expr.enclosePieces e.isAtom e.pieces)
    (htree : ∀ inner rest : List Token, inner.map Token.piece = e.pieces → Ended rest →
      ReadsAs context context.levels inner rest (grammar.regroup e)) :
    Operand context tokens (grammar.regroup e) := by
  rcases operand_cases hwf h with ⟨token, value, rfl, rfl, spells⟩ |
    ⟨token, name, rfl, rfl, spells⟩ | ⟨opening, inner, closing, rfl, opens, closes, hinner⟩
  · exact .literal spells
  · exact .var spells
  · exact .paren opens closes fun rest hend => htree inner rest hinner hend

/-- A level that has a prefix operator has the token that is written for it. -/
theorem contains_of_offers {level : Level} {op : PrefixOp} {token : Token}
    (hvalid : level.Valid) (h : level.Offers (.prefixed op)) (hpiece : token.piece = op.piece) :
    level.fixity = .prefixOp ∧ level.operators.contains token = true := by
  cases op with
  | plus => exact ⟨h.1, (OperatorSet.contains_iff (Token.operator?_of_piece hpiece)).mpr h.2⟩
  | minus => exact ⟨h.1, (OperatorSet.contains_iff (Token.operator?_of_piece hpiece)).mpr h.2⟩
  | apply name =>
    have hnames : level.operators = .names := h
    have hspells : token.Spells (.prefixed (.apply name)) := Token.spells_prefixed hpiece
    refine ⟨by simpa [Level.Valid, hnames] using hvalid, ?_⟩
    rcases hspells.1 with hk | hk <;> simp [hnames, OperatorSet.contains, hk]

/-- The tokens of a rendered tree are read as the regrouped tree. -/
theorem readsAs_pieces (hcontext : context.levels = grammar.loosestFirst) (hwf : e.WellFormed)
    (hoffers : grammar.Offers e) (h : tokens.map Token.piece = e.pieces) (hend : Ended rest) :
    ReadsAs context context.levels tokens rest (grammar.regroup e) := by
  have hvalid : ∀ level ∈ context.levels, level.Valid := by
    rw [hcontext]
    exact grammar.valid_loosestFirst
  induction e generalizing tokens rest with
  | literal value =>
    obtain ⟨token, rfl, hpiece⟩ := List.map_eq_singleton_iff.mp h
    have operand : Operand context [token] (.literal value) :=
      .literal (Token.spells_literal hwf hpiece)
    exact operand.readsAs_of_ended hend
  | var name =>
    obtain ⟨token, rfl, hpiece⟩ := List.map_eq_singleton_iff.mp h
    have operand : Operand context [token] (.var name) := .var (Token.spells_var hpiece)
    exact operand.readsAs_of_ended hend
  | prefixed op inner ih =>
    obtain ⟨⟨level, hlevel, hoffered⟩, hinner⟩ := Grammar.offers_prefixed.mp hoffers
    have hwfinner : inner.WellFormed := hwf.2
    obtain ⟨token, behind, rfl, hpiece, hbehind⟩ := List.map_eq_cons_iff.mp h
    have operand := operand_of_pieces hwfinner hbehind fun _ _ => ih hwfinner hinner
    rw [← hcontext] at hlevel
    exact readsAs_prefixed (Token.spells_prefixed hpiece) operand hend
      ⟨level, hlevel, contains_of_offers (hvalid level hlevel) hoffered hpiece⟩
  | postfixed inner op ih =>
    cases op
    obtain ⟨hinner, hoffered⟩ := Grammar.offers_postfixed.mp hoffers
    obtain ⟨before, last, rfl, hbefore, hlast⟩ := List.map_eq_append_iff.mp h
    obtain ⟨token, rfl, hpiece⟩ := List.map_eq_singleton_iff.mp hlast
    have hwfinner : inner.WellFormed := hwf
    have operand := operand_of_pieces hwfinner hbefore fun _ _ => ih hwfinner hinner
    rw [← hcontext] at hoffered
    exact readsAs_factorial hvalid (Token.operator?_of_piece hpiece) operand hend hoffered
  | binary op left right ihl ihr =>
    obtain ⟨hwfleft, hwfright⟩ := hwf
    obtain ⟨hleft, hoffered, hright⟩ := Grammar.offers_binary.mp hoffers
    obtain ⟨before, others, rfl, hbefore, hothers⟩ := List.map_eq_append_iff.mp h
    obtain ⟨token, behind, rfl, hpiece, hbehind⟩ := List.map_eq_cons_iff.mp hothers
    have second := operand_of_pieces hwfright hbehind fun _ _ => ihr hwfright hright
    have hop := Token.operator?_of_piece hpiece
    rw [← hcontext] at hoffered
    -- The left operand is read as it is, unless it is a variable and loses the operator.
    rcases grammar.kept_or_taken op left with hkept | ⟨name, sign, rfl, htaken⟩
    · have first := operand_of_pieces hwfleft hbefore fun _ _ => ihl hwfleft hleft
      rw [Grammar.regroup_kept hkept]
      refine readsAs_binary op.asBinary?_operator hvalid hop first second hend (fun hvar => ?_)
        hoffered
      rw [Grammar.isVar_regroup] at hvar
      rw [hcontext]
      exact Grammar.takesSign_eq_false_of_signTaken? (hkept hvar)
    · obtain ⟨first, rfl, hfirst⟩ := List.map_eq_singleton_iff.mp hbefore
      obtain ⟨hkind, htext⟩ := Prod.mk.inj hfirst
      obtain ⟨htakes, hsign⟩ := Grammar.takesSign_of_signTaken? htaken
      rw [← hcontext] at htakes
      have hreads := readsAs_taken hvalid (by simpa using hkind) hop hsign second hend htakes
      rwa [Grammar.regroup_taken htaken, ← htext]

/-- The plain parser finds the regrouped tree in the tokens of a rendered tree. -/
theorem plain_parseTokens_of_pieces (hwf : e.WellFormed) (hoffers : grammar.Offers e)
    (h : (Token.beforeEnding tokens).map Token.piece = e.pieces) :
    Plain.parseTokens grammar tokens = .ok (grammar.regroup e) := by
  have hreads : ReadsAs (Parse.context grammar tokens) grammar.loosestFirst
      (Token.beforeEnding tokens) [] (grammar.regroup e) :=
    readsAs_pieces rfl hwf hoffers h ended_nil
  have hread := hreads 0
  rw [List.append_nil] at hread
  rw [Plain.parseTokens, readAll_of_read hread, hread]

/-- Under a table that offers its operators a rendered tree is read as the regrouped tree,
unless it is nested too deeply. -/
theorem parseWith_render_or_tooDeep (hwf : e.WellFormed) (hoffers : grammar.Offers e) :
    parseWith grammar e.render = .ok (grammar.regroup e) ∨
      ∃ found, parseWith grammar e.render = .error (.parse ⟨.tooDeep, found⟩) := by
  obtain ⟨tokens, place, hpieces, htokens⟩ := tokenize_render hwf
  rcases parseTokens_cases grammar (tokens ++ [⟨.ending, "", place⟩]) with
    ⟨-, -, -, hsame⟩ | ⟨⟨found, hdeep⟩, -⟩
  · refine .inl ((parseWith_eq_ok_iff htokens).mpr (hsame.trans ?_))
    exact plain_parseTokens_of_pieces hwf hoffers (by rwa [beforeEnding_of_tokenize htokens])
  · exact .inr ⟨found, (parseWith_eq_error_iff htokens).mpr hdeep⟩

/-- A table under which a function takes a signed operand without parentheses: signs are
tighter than functions, and functions are tighter than differences. -/
def Grammar.signedOperands : Grammar where
  levels := [⟨.symbols [.minus], .prefixOp⟩, ⟨.names, .prefixOp⟩,
    ⟨.symbols [.minus], .infixOp .left⟩]
  nonempty := by simp
  valid := by
    have hfault : Level.firstFault? 1 [⟨.symbols [.minus], .prefixOp⟩, ⟨.names, .prefixOp⟩,
      ⟨.symbols [.minus], .infixOp .left⟩] = none := by decide
    exact Level.firstFault?_eq_none_iff.mp hfault

/-- Under a table that offers its operators a rendered tree is read as the regrouped tree,
unless it is nested too deeply. It comes back as it is exactly if no variable of it stands
in front of an operator that the table takes for a sign. -/
theorem parseWith_render (grammar : Grammar) (e : Expr) (hwf : e.WellFormed)
    (hoffers : grammar.Offers e) :
    (parseWith grammar e.render = .ok (grammar.regroup e) ∨
      ∃ found, parseWith grammar e.render = .error (.parse ⟨.tooDeep, found⟩)) ∧
    (grammar.regroup e = e ↔ grammar.Keeps e) := by
  constructor
  · exact parseWith_render_or_tooDeep hwf hoffers
  · exact Grammar.regroup_eq_self_iff

/-- The difference of a variable and a signed one becomes the value of a function. -/
theorem parseWith_render_difference :
    let e : Expr := .binary .sub (.var 'f') (.prefixed .minus (.var 'x'))
    let again : Expr := .prefixed (.apply "f") (.prefixed .minus (.prefixed .minus (.var 'x')))
    e.WellFormed ∧ Grammar.signedOperands.Offers e ∧
      (parseWith .signedOperands e.render = .ok again ∨
        ∃ found, parseWith .signedOperands e.render = .error (.parse ⟨.tooDeep, found⟩)) ∧
      ¬ Grammar.signedOperands.Keeps e := by
  intro e again
  have hwf : e.WellFormed := by decide
  have hoffers : Grammar.signedOperands.Offers e := by decide
  have hregroup : Grammar.signedOperands.regroup e = again := rfl
  obtain ⟨hparse, hkeeps⟩ := parseWith_render .signedOperands e hwf hoffers
  refine ⟨hwf, hoffers, hregroup ▸ hparse, ?_⟩
  rw [← hkeeps, hregroup]
  decide

/-- A tree need not come back under a table that offers its operators: the formula `f - x`
is parsed as the function `f` of `-x`. -/
theorem not_parseWith_render_self :
    ¬ ∀ (grammar : Grammar) (e : Expr), e.WellFormed → grammar.Offers e →
      parseWith grammar e.render = .ok e ∨
        ∃ found, parseWith grammar e.render = .error (.parse ⟨.tooDeep, found⟩) := by
  intro hself
  have hparse : parseWith .signedOperands (Expr.binary .sub (.var 'f') (.var 'x')).render =
      .ok (.prefixed (.apply "f") (.prefixed .minus (.var 'x'))) :=
    parseWith_eq_of_plain (by decide +kernel)
  rcases hself .signedOperands (.binary .sub (.var 'f') (.var 'x')) (by decide) (by decide) with
    hok | ⟨found, hdeep⟩
  · rw [hparse] at hok
    cases hok
  · rw [hparse] at hdeep
    cases hdeep

end Formula
