import Formula.Diagnostic
import Formula.Proofs.Expr.Pieces
import Formula.Proofs.Parse.Recognition
import Formula.Proofs.Token.Lossless

/-!
# Rendered formulas parse back

The usual grammar derives every well-formed tree from the pieces of its rendering.
The operands stand there as primaries, so that a level of the tree passes each level
of the grammar once and adds eight active rules at most. Since the usual grammar is
separated, the parser finds the tree, unless it is nested too deeply.
-/

namespace Formula

/-- There is a derivation of bounded height. -/
def DerivedWithin (all levels : List Level) (tokens : List Token) (e : Expr) (bound : Nat) : Prop :=
  ∃ derivation : Derivation all levels tokens e, derivation.height ≤ bound

namespace DerivedWithin

variable {all levels outer rest : List Level} {level : Level} {tokens before behind : List Token}
  {token opening closing : Token} {e l r : Expr} {bound limit : Nat}

/-- A bound on the height may be raised. -/
theorem mono (h : DerivedWithin all levels tokens e bound) (hle : bound ≤ limit) :
    DerivedWithin all levels tokens e limit := by
  obtain ⟨derivation, hheight⟩ := h
  exact ⟨derivation, Nat.le_trans hheight hle⟩

/-- A primary is derived by any levels, each of which adds a rule. -/
theorem ofPrimary (h : DerivedWithin all [] tokens e bound) (hbound : 2 ≤ bound)
    (levels : List Level) : DerivedWithin all levels tokens e (bound + levels.length) := by
  obtain ⟨derivation, hheight⟩ := h
  have hwidened : DerivedWithin all (levels ++ []) tokens e (bound + levels.length) :=
    ⟨derivation.widen levels, derivation.height_widen_le hheight hbound levels⟩
  rwa [List.append_nil] at hwidened

/-- What a level derives is derived by looser levels. -/
theorem widen (h : DerivedWithin all (level :: rest) tokens e (bound + rest.length + 2))
    (hbound : 2 ≤ bound) (hlimit : bound + outer.length + rest.length + 2 ≤ limit) :
    DerivedWithin all (outer ++ level :: rest) tokens e limit := by
  obtain ⟨derivation, hheight⟩ := h
  have hlevels : (level :: rest).length + 2 ≤ bound + rest.length + 2 := by
    rw [List.length_cons]
    omega
  have hwidened := derivation.height_widen_le hheight hlevels outer
  exact ⟨derivation.widen outer, by omega⟩

/-- Parentheses around a tree make a primary of it and add one rule. -/
theorem paren (opens : opening.kind = .leftParen) (closes : closing.kind = .rightParen)
    (h : DerivedWithin all all tokens e bound) :
    DerivedWithin all [] (opening :: (tokens ++ [closing])) e (bound + 1) := by
  obtain ⟨derivation, hheight⟩ := h
  exact ⟨.paren opens closes derivation, Nat.succ_le_succ hheight⟩

variable (outer level) (hbound : 2 ≤ bound)
  (hlimit : bound + outer.length + rest.length + 2 ≤ limit)
  (hcontains : level.operators.contains token = true)
include hbound hlimit hcontains

/-- A level with the prefix operator derives it in front of a primary. -/
theorem prefixed {op : PrefixOp} (hfixity : level.fixity = .prefixOp)
    (spells : token.Spells (.prefixed op)) (h : DerivedWithin all [] tokens e bound) :
    DerivedWithin all (outer ++ level :: rest) (token :: tokens) (.prefixed op e) limit := by
  obtain ⟨operand, hheight⟩ := h.ofPrimary hbound (level :: rest)
  refine widen ⟨.prefixed hfixity hcontains spells operand, ?_⟩ hbound hlimit
  simp only [List.length_cons] at hheight
  simp only [Derivation.height]
  omega

/-- A level with the postfix operator derives it behind a primary. -/
theorem postfixed {op : PostfixOp} (hfixity : level.fixity = .postfixOp)
    (spells : token.Spells (.postfixed op)) (h : DerivedWithin all [] tokens e bound) :
    DerivedWithin all (outer ++ level :: rest) (tokens ++ [token]) (.postfixed e op) limit := by
  obtain ⟨operand, hheight⟩ := h.ofPrimary hbound (level :: rest)
  refine widen ⟨.postfixed hfixity hcontains spells operand, ?_⟩ hbound hlimit
  simp only [List.length_cons] at hheight
  simp only [Derivation.height]
  omega

/-- A level that groups to the left derives its operator between primaries. -/
theorem left {op : BinaryOp} (hfixity : level.fixity = .infixOp .left)
    (spells : token.Spells (.binary op)) (hl : DerivedWithin all [] before l bound)
    (hr : DerivedWithin all [] behind r bound) :
    DerivedWithin all (outer ++ level :: rest) (before ++ token :: behind) (.binary op l r)
      limit := by
  obtain ⟨first, hfirst⟩ := hl.ofPrimary hbound (level :: rest)
  obtain ⟨second, hsecond⟩ := hr.ofPrimary hbound rest
  refine widen ⟨.left hfixity hcontains spells first second, ?_⟩ hbound hlimit
  simp only [List.length_cons] at hfirst
  simp only [Derivation.height]
  omega

/-- A level that groups to the right derives its operator between primaries. -/
theorem right {op : BinaryOp} (hfixity : level.fixity = .infixOp .right)
    (spells : token.Spells (.binary op)) (hl : DerivedWithin all [] before l bound)
    (hr : DerivedWithin all [] behind r bound) :
    DerivedWithin all (outer ++ level :: rest) (before ++ token :: behind) (.binary op l r)
      limit := by
  obtain ⟨first, hfirst⟩ := hl.ofPrimary hbound rest
  obtain ⟨second, hsecond⟩ := hr.ofPrimary hbound (level :: rest)
  refine widen ⟨.right hfixity hcontains spells first second, ?_⟩ hbound hlimit
  simp only [List.length_cons] at hsecond
  simp only [Derivation.height]
  omega

end DerivedWithin

namespace Token

variable {token : Token}

/-- A token with the piece of an operator is this operator. -/
theorem operator?_of_piece {op : Operator} (h : token.piece = (.operator, op.symbol)) :
    token.operator? = some op := by
  obtain ⟨hkind, htext⟩ := Prod.mk.inj h
  rw [operator?, if_pos hkind, htext, Operator.ofText?_symbol]

/-- The operator that is written for a binary operator spells it. -/
theorem spells_binary {op : BinaryOp} (h : token.operator? = some op.operator) :
    token.Spells (.binary op) := by
  rw [Spells, h]
  exact op.asBinary?_operator

/-- A token with the piece of a prefix operator spells it. -/
theorem spells_prefixed {op : PrefixOp} (h : token.piece = op.piece) :
    token.Spells (.prefixed op) := by
  cases op with
  | plus =>
    change token.operator?.bind Operator.asPrefix? = _
    rw [operator?_of_piece h]
    rfl
  | minus =>
    change token.operator?.bind Operator.asPrefix? = _
    rw [operator?_of_piece h]
    rfl
  | apply name =>
    obtain ⟨hkind, htext⟩ := Prod.mk.inj h
    refine ⟨?_, htext⟩
    rw [hkind]
    split
    · exact .inr rfl
    · exact .inl rfl

/-- A token with the piece of a one-letter name spells the variable. -/
theorem spells_var {name : Char} (h : token.piece = namePiece (String.singleton name)) :
    token.Spells (.var name) := by
  obtain ⟨hkind, htext⟩ := Prod.mk.inj h
  exact ⟨by simpa using hkind, by simp [htext]⟩

/-- A token with the piece of a literal is read as its value. -/
theorem spells_literal {value : Literal} (hvalue : value.WellFormed)
    (h : token.piece = value.piece) : token.Spells (.literal value) := by
  cases value with
  | integer value =>
    obtain ⟨hkind, htext⟩ := Prod.mk.inj h
    simp only [Spells, literal?, hkind, htext, Literal.render, Numeral.int64?_integer]
    rfl
  | real value =>
    obtain ⟨hkind, htext⟩ := Prod.mk.inj h
    obtain ⟨hfinite, hsign⟩ := hvalue
    cases value with
    | nan => cases hfinite
    | infinite negative => cases hfinite
    | finite negative rank =>
      obtain rfl : negative = false := hsign
      obtain ⟨written, hproper, hvalue, hwritten⟩ :=
        Numeral.Layout.magnitude_eq_text Numeral.formulaReal rfl rank
      have hread : token.text = String.ofList written.text := by
        rw [htext, ← hwritten]
        simp [Literal.render, Numeral.Layout.write]
      simp only [Spells, literal?, hkind, hread, String.toList_ofList, hproper.binary64?, hvalue]
      rfl

end Token

/-- The levels of the usual grammar from the loosest to the tightest. -/
abbrev usualLevels : List Level := [
  ⟨.symbols [.plus, .minus], .infixOp .left⟩,
  ⟨.symbols [.star, .slash], .infixOp .left⟩,
  ⟨.symbols [.plus, .minus], .prefixOp⟩,
  ⟨.symbols [.caret], .infixOp .right⟩,
  ⟨.symbols [.bang], .postfixOp⟩,
  ⟨.names, .prefixOp⟩]

/-- The usual grammar has the usual levels. -/
theorem Grammar.standard_loosestFirst : Grammar.standard.loosestFirst = usualLevels := rfl

section

variable {tokens before behind : List Token} {token : Token} {e l r : Expr} {bound : Nat}

/-- The usual grammar derives a binary operator with primaries as operands. -/
theorem derivedWithin_binary {op : BinaryOp} (hop : token.operator? = some op.operator)
    (hbound : 2 ≤ bound) (hl : DerivedWithin usualLevels [] before l bound)
    (hr : DerivedWithin usualLevels [] behind r bound) :
    DerivedWithin usualLevels usualLevels (before ++ token :: behind) (.binary op l r)
      (bound + 7) := by
  have spells := Token.spells_binary hop
  have hcontains {list : List Operator} (hmem : op.operator ∈ list) :
      (OperatorSet.symbols list).contains token = true := (OperatorSet.contains_iff hop).mpr hmem
  cases op with
  | add =>
    exact .left [] ⟨.symbols [.plus, .minus], .infixOp .left⟩ hbound
      (by simp) (hcontains (by decide)) rfl spells hl hr
  | sub =>
    exact .left [] ⟨.symbols [.plus, .minus], .infixOp .left⟩ hbound
      (by simp) (hcontains (by decide)) rfl spells hl hr
  | mul =>
    exact .left (usualLevels.take 1) ⟨.symbols [.star, .slash], .infixOp .left⟩
      hbound (by simp) (hcontains (by decide)) rfl spells hl hr
  | div =>
    exact .left (usualLevels.take 1) ⟨.symbols [.star, .slash], .infixOp .left⟩
      hbound (by simp) (hcontains (by decide)) rfl spells hl hr
  | pow =>
    exact .right (usualLevels.take 3) ⟨.symbols [.caret], .infixOp .right⟩
      hbound (by simp) (hcontains (by decide)) rfl spells hl hr

/-- The usual grammar derives a prefix operator with a primary as its operand. -/
theorem derivedWithin_prefixed {op : PrefixOp} (h : token.piece = op.piece) (hbound : 2 ≤ bound)
    (hoperand : DerivedWithin usualLevels [] tokens e bound) :
    DerivedWithin usualLevels usualLevels (token :: tokens) (.prefixed op e) (bound + 7) := by
  have spells := Token.spells_prefixed h
  cases op with
  | apply name =>
    exact .prefixed (usualLevels.take 5) ⟨.names, .prefixOp⟩ hbound (by simp)
      (by rcases spells.1 with hk | hk <;> simp [OperatorSet.contains, hk]) rfl spells hoperand
  | plus =>
    have hop := Token.operator?_of_piece h
    exact .prefixed (usualLevels.take 2) ⟨.symbols [.plus, .minus], .prefixOp⟩
      hbound (by simp) ((OperatorSet.contains_iff hop).mpr (by decide)) rfl spells
      hoperand
  | minus =>
    have hop := Token.operator?_of_piece h
    exact .prefixed (usualLevels.take 2) ⟨.symbols [.plus, .minus], .prefixOp⟩
      hbound (by simp) ((OperatorSet.contains_iff hop).mpr (by decide)) rfl spells
      hoperand

/-- The usual grammar derives a factorial of a primary. -/
theorem derivedWithin_factorial (h : token.piece = (.operator, Operator.bang.symbol))
    (hbound : 2 ≤ bound) (hoperand : DerivedWithin usualLevels [] tokens e bound) :
    DerivedWithin usualLevels usualLevels (tokens ++ [token]) (.postfixed e .factorial)
      (bound + 7) := by
  have hop := Token.operator?_of_piece h
  exact .postfixed (usualLevels.take 4) ⟨.symbols [.bang], .postfixOp⟩ hbound
    (by simp) ((OperatorSet.contains_iff hop).mpr (by decide)) rfl
    (by rw [Token.Spells, hop]; rfl) hoperand

/-- What stands for an operand are the pieces of a literal, the token of a variable, or else
the tokens of the tree between parentheses. -/
theorem operand_casesWith {cut : Literal → List (TokenKind × String)}
    (h : tokens.map Token.piece = Expr.enclosePieces e.isAtom (e.piecesWith cut)) :
    (∃ value, e = .literal value ∧ tokens.map Token.piece = cut value) ∨
    (∃ token name, tokens = [token] ∧ e = .var name ∧ token.Spells (.var name)) ∨
    e.isAtom = false ∧ ∃ opening inner closing, tokens = opening :: (inner ++ [closing]) ∧
      opening.kind = .leftParen ∧ closing.kind = .rightParen ∧
      inner.map Token.piece = e.piecesWith cut := by
  cases hatom : e.isAtom with
  | false =>
    rw [hatom] at h
    obtain ⟨opening, behind, rfl, hopening, hbehind⟩ := List.map_eq_cons_iff.mp h
    obtain ⟨inner, last, rfl, hinner, hlast⟩ := List.map_eq_append_iff.mp hbehind
    obtain ⟨closing, rfl, hclosing⟩ := List.map_eq_singleton_iff.mp hlast
    exact .inr (.inr ⟨rfl, opening, inner, closing, rfl, (Prod.mk.inj hopening).1,
      (Prod.mk.inj hclosing).1, hinner⟩)
  | true =>
    rw [hatom] at h
    cases e with
    | literal value => exact .inl ⟨value, rfl, h⟩
    | var name =>
      obtain ⟨token, rfl, hpiece⟩ := List.map_eq_singleton_iff.mp h
      exact .inr (.inl ⟨token, name, rfl, rfl, Token.spells_var hpiece⟩)
    | _ => cases hatom

/-- What stands for an operand is the token of a literal or of a variable, or else the
tokens of the tree between parentheses. -/
theorem operand_cases (hwf : e.WellFormed)
    (h : tokens.map Token.piece = Expr.enclosePieces e.isAtom e.pieces) :
    (∃ token value, tokens = [token] ∧ e = .literal value ∧ token.Spells (.literal value)) ∨
    (∃ token name, tokens = [token] ∧ e = .var name ∧ token.Spells (.var name)) ∨
    ∃ opening inner closing, tokens = opening :: (inner ++ [closing]) ∧
      opening.kind = .leftParen ∧ closing.kind = .rightParen ∧
      inner.map Token.piece = e.pieces := by
  rcases operand_casesWith h with ⟨value, rfl, hpieces⟩ | hvar | ⟨-, hparen⟩
  · obtain ⟨token, rfl, hpiece⟩ := List.map_eq_singleton_iff.mp hpieces
    exact .inl ⟨token, value, rfl, rfl, Token.spells_literal hwf hpiece⟩
  · exact .inr (.inl hvar)
  · exact .inr (.inr hparen)

/-- The operand of a rendered operator is a primary: an atom, or a tree in parentheses
that the usual grammar derives. -/
theorem derivedWithin_operand (hwf : e.WellFormed)
    (h : tokens.map Token.piece = Expr.enclosePieces e.isAtom e.pieces)
    (htree : ∀ inner : List Token, inner.map Token.piece = e.pieces →
      DerivedWithin usualLevels usualLevels inner e bound) :
    DerivedWithin usualLevels [] tokens e (bound + 1) := by
  rcases operand_cases hwf h with ⟨token, value, rfl, rfl, spells⟩ |
    ⟨token, name, rfl, rfl, spells⟩ | ⟨opening, inner, closing, rfl, opens, closes, hinner⟩
  · exact ⟨.literal spells, Nat.le_add_left _ _⟩
  · exact ⟨.var spells, Nat.le_add_left _ _⟩
  · exact .paren opens closes (htree inner hinner)

/-- The usual grammar derives a well-formed tree from its pieces, with eight active
rules for each level of the tree. -/
theorem derivedWithin_pieces (hwf : e.WellFormed) (h : tokens.map Token.piece = e.pieces) :
    DerivedWithin usualLevels usualLevels tokens e (8 * e.depth) := by
  induction e generalizing tokens with
  | literal value =>
    obtain ⟨token, rfl, hpiece⟩ := List.map_eq_singleton_iff.mp h
    have hprimary : DerivedWithin usualLevels [] [token] (.literal value) 2 :=
      ⟨.literal (Token.spells_literal hwf hpiece), Nat.le_succ _⟩
    exact hprimary.ofPrimary (Nat.le_refl _) usualLevels
  | var name =>
    obtain ⟨token, rfl, hpiece⟩ := List.map_eq_singleton_iff.mp h
    have hprimary : DerivedWithin usualLevels [] [token] (.var name) 2 :=
      ⟨.var (Token.spells_var hpiece), Nat.le_succ _⟩
    exact hprimary.ofPrimary (Nat.le_refl _) usualLevels
  | prefixed op operand ih =>
    have hoperand : operand.WellFormed := hwf.2
    obtain ⟨token, behind, rfl, hpiece, hbehind⟩ := List.map_eq_cons_iff.mp h
    have hprimary : DerivedWithin usualLevels [] behind operand (8 * operand.depth + 1) :=
      derivedWithin_operand hoperand hbehind fun inner hinner => ih hoperand hinner
    have hdepth := operand.depth_pos
    have htree := derivedWithin_prefixed hpiece (by omega) hprimary
    refine htree.mono ?_
    rw [Expr.depth]
    omega
  | postfixed operand op ih =>
    cases op
    obtain ⟨before, last, rfl, hbefore, hlast⟩ := List.map_eq_append_iff.mp h
    obtain ⟨token, rfl, hpiece⟩ := List.map_eq_singleton_iff.mp hlast
    have hoperand : operand.WellFormed := hwf
    have hprimary : DerivedWithin usualLevels [] before operand (8 * operand.depth + 1) :=
      derivedWithin_operand hoperand hbefore fun inner hinner => ih hoperand hinner
    have hdepth := operand.depth_pos
    have htree := derivedWithin_factorial hpiece (by omega) hprimary
    refine htree.mono ?_
    rw [Expr.depth]
    omega
  | binary op left right ihl ihr =>
    obtain ⟨hleft, hright⟩ := hwf
    obtain ⟨before, others, rfl, hbefore, hothers⟩ := List.map_eq_append_iff.mp h
    obtain ⟨token, behind, rfl, hpiece, hbehind⟩ := List.map_eq_cons_iff.mp hothers
    have hl : DerivedWithin usualLevels [] before left (8 * left.depth + 1) :=
      derivedWithin_operand hleft hbefore fun inner hinner => ihl hleft hinner
    have hr : DerivedWithin usualLevels [] behind right (8 * right.depth + 1) :=
      derivedWithin_operand hright hbehind fun inner hinner => ihr hright hinner
    have hwide : ∀ depth ≤ max left.depth right.depth,
        8 * depth + 1 ≤ 8 * max left.depth right.depth + 1 := by
      intro depth hle
      omega
    have hdepth := left.depth_pos
    have htree := derivedWithin_binary (Token.operator?_of_piece hpiece) (by omega)
      (hl.mono (hwide _ (Nat.le_max_left _ _))) (hr.mono (hwide _ (Nat.le_max_right _ _)))
    refine htree.mono ?_
    rw [Expr.depth]
    omega

end

/-- Where no other token is an end of the input, the last one is. -/
theorem Token.beforeEnding_concat {tokens : List Token} {ending : Token}
    (h : ∀ token ∈ tokens, token.isEnding = false) (hending : ending.isEnding = true) :
    Token.beforeEnding (tokens ++ [ending]) = tokens := by
  rw [Token.beforeEnding, List.takeWhile_append_of_pos fun token hmem => by simp [h token hmem]]
  simp [hending]

/-- No token of a formula but the last one is an end of the input. -/
theorem isEnding_of_tokenize {source : String} {tokens : List Token} {place : Location}
    (h : tokenize source = .ok (tokens ++ [⟨.ending, "", place⟩])) :
    ∀ token ∈ tokens, token.isEnding = false := by
  obtain ⟨lexemes, htokens, hlexemes⟩ := Scan.tokens_eq_append h
  obtain ⟨rfl, -⟩ := List.append_inj' htokens rfl
  intro token hmem
  simpa [Token.isEnding] using (hlexemes token hmem).kind_ne_ending

/-- The tokens of a formula are those in front of the end of the input. -/
theorem beforeEnding_of_tokenize {source : String} {tokens : List Token} {place : Location}
    (h : tokenize source = .ok (tokens ++ [⟨.ending, "", place⟩])) :
    Token.beforeEnding (tokens ++ [⟨.ending, "", place⟩]) = tokens :=
  Token.beforeEnding_concat (isEnding_of_tokenize h) rfl

/-- A formula whose tokens are derived is parsed if the nesting limit allows. -/
theorem parse_of_derivedWithin {source : String} {tokens : List Token} {place : Location}
    {e : Expr} {bound : Nat}
    (htokens : tokenize source = .ok (tokens ++ [⟨.ending, "", place⟩]))
    (hderived : DerivedWithin usualLevels usualLevels tokens e bound) :
    parse source = .ok e ∨
      (∃ found, parse source = .error (.parse ⟨.tooDeep, found⟩)) ∧ nestingLimit < bound := by
  have hbefore : DerivedWithin Grammar.standard.loosestFirst Grammar.standard.loosestFirst
      (Token.beforeEnding (tokens ++ [⟨.ending, "", place⟩])) e bound := by
    rwa [beforeEnding_of_tokenize htokens, Grammar.standard_loosestFirst]
  obtain ⟨derivation, hheight⟩ := hbefore
  rcases Parse.parseTokens_of_derivation Grammar.standard_separated derivation with
    hok | ⟨⟨found, hdeep⟩, hlimit⟩
  · exact .inl ((parseWith_eq_ok_iff htokens).mpr hok)
  · exact .inr ⟨⟨found, (parseWith_eq_error_iff htokens).mpr hdeep⟩,
      Nat.lt_of_lt_of_le hlimit hheight⟩

/-- A well-formed tree that is rendered and parsed comes back, unless it is so deep that
the nesting limit stops the parser. -/
theorem parse_render_or_tooDeep {e : Expr} (hwf : e.WellFormed) :
    parse e.render = .ok e ∨
      (∃ found, parse e.render = .error (.parse ⟨.tooDeep, found⟩)) ∧ 50 < e.depth := by
  obtain ⟨tokens, place, hpieces, htokens⟩ := tokenize_render hwf
  refine (parse_of_derivedWithin htokens (derivedWithin_pieces hwf hpieces)).imp_right ?_
  rintro ⟨hdeep, hlimit⟩
  refine ⟨hdeep, ?_⟩
  rw [nestingLimit] at hlimit
  omega

/-- A well-formed tree that is rendered and parsed comes back, or it is nested too
deeply. Up to a depth of fifty it always comes back. -/
theorem parse_render (e : Expr) (hwf : e.WellFormed) :
    (parse e.render = .ok e ∨ ∃ found, parse e.render = .error (.parse ⟨.tooDeep, found⟩)) ∧
      (e.depth ≤ 50 → parse e.render = .ok e) := by
  rcases parse_render_or_tooDeep hwf with hok | ⟨hdeep, hdepth⟩
  · exact ⟨.inl hok, fun _ => hok⟩
  · refine ⟨.inr hdeep, fun hshallow => ?_⟩
    omega

/-- The product of a function value and the factorial of one half comes back. -/
theorem parse_render_product :
    let half : Binary64 := .finite false ⟨1022 * 2 ^ 52, by decide⟩
    let e : Expr := .binary .mul
      (.prefixed (.apply "f") (.binary .sub (.var 'x') (.literal (.integer 7))))
      (.postfixed (.literal (.real half)) .factorial)
    e.WellFormed ∧ parse e.render = .ok e := by
  intro half e
  have hwf : e.WellFormed := by decide
  exact ⟨hwf, (parse_render e hwf).2 (by decide)⟩

end Formula
