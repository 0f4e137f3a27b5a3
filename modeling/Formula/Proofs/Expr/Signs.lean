import Formula.Proofs.Grammar.Neighbours

/-!
# Negative literals

A negative integer is written as an atom, with a minus in front of its digits. When the
formula is parsed the minus is a sign like any other and takes in all that binds tighter:
the factorial of minus five comes back as the opposite of a factorial, and a power of minus
five as the opposite of a power. There is no place for a sign in an exponent, so that the
formula is not parsed, and none behind the name of a function, so that it is not parsed
either, or the name is a letter and comes back as a variable. Everywhere else the sign comes
back at the literal.
-/

namespace Formula

namespace Literal

/-- A literal that is written with a numeral, and with a sign in front of it if it is a
negative integer. -/
def Signable : Literal → Prop
  | .integer value => Int64.minValue < value
  | .real value => value.isFinite ∧ value.isNegative = false

instance : DecidablePred Signable
  | .integer value => inferInstanceAs (Decidable (Int64.minValue < value))
  | .real value => inferInstanceAs (Decidable (value.isFinite ∧ value.isNegative = false))

/-- What stands behind the sign of a negative integer. -/
def unsigned? : Literal → Option Literal
  | .integer value => if value < 0 then some (.integer (-value)) else none
  | .real _ => none

/-- The pieces of a literal, the sign apart from the digits. -/
def cut (value : Literal) : List (TokenKind × String) :=
  match value.unsigned? with
  | none => [value.piece]
  | some number => [PrefixOp.minus.piece, number.piece]

/-- The tree of a literal, with a sign for a negative integer. -/
def signed (value : Literal) : Expr :=
  match value.unsigned? with
  | none => .literal value
  | some number => .prefixed .minus (.literal number)

variable {value number : Literal}

/-- A literal without a sign is written as it stands. -/
theorem Signable.wellFormed (h : value.Signable) (hnumber : value.unsigned? = none) :
    value.WellFormed := by
  cases value with
  | integer value =>
    have hneg : ¬ value < 0 := by simpa [unsigned?] using hnumber
    exact Int64.not_lt.mp hneg
  | real value => exact h

/-- A negative integer has a numeral with a minus in front, since it is not the least one. -/
theorem Signable.unsigned (h : value.Signable) (hnumber : value.unsigned? = some number) :
    number.WellFormed ∧ value.render.toList = '-' :: number.render.toList := by
  cases value with
  | real value => cases hnumber
  | integer value =>
    simp only [unsigned?] at hnumber
    split at hnumber
    · rename_i hneg
      cases hnumber
      have hmin : Int64.minValue.toInt < value.toInt := Int64.lt_iff_toInt_lt.mp h
      have hzero : value.toInt < 0 := Int64.lt_iff_toInt_lt.mp hneg
      have hopposite : (-value).toInt = -value.toInt := by
        rw [Int64.toInt_neg, Int.bmod_eq_of_le]
        · omega
        · simp at hmin
          omega
      refine ⟨Int64.le_iff_toInt_le.mpr ?_, ?_⟩
      · rw [hopposite]
        exact Int.le_of_lt (Int.neg_pos_of_neg hzero)
      · simp [render, hopposite, Numeral.integer, hzero, Int.lt_asymm hzero]
    · cases hnumber

end Literal

namespace Expr

/-- What stands behind the sign of a negative literal. -/
def unsigned? : Expr → Option Literal
  | .literal value => value.unsigned?
  | _ => none

/-- The tree with a sign for each negative literal. -/
def signed : Expr → Expr
  | .literal value => value.signed
  | .var name => .var name
  | .prefixed op operand => .prefixed op operand.signed
  | .postfixed operand op => .postfixed operand.signed op
  | .binary op left right => .binary op left.signed right.signed

/-- The variable that a name is if no operand follows it. -/
def letter? (name : String) : Option Char :=
  match name.toList with
  | [c] => some c
  | _ => none

/-- The tree that the usual grammar derives from the rendered tree, if there is one. -/
def reread : Expr → Option Expr
  | .literal value => some value.signed
  | .var name => some (.var name)
  | .prefixed (.apply name) operand =>
    match operand.unsigned? with
    | none => operand.reread.map (.prefixed (.apply name))
    | some number => (letter? name).map fun c => .binary .sub (.var c) (.literal number)
  | .prefixed op operand => operand.reread.map (.prefixed op)
  | .postfixed operand op =>
    match operand.unsigned? with
    | none => operand.reread.map (.postfixed · op)
    | some number => some (.prefixed .minus (.postfixed (.literal number) op))
  | .binary op left right =>
    match op, left.unsigned?, right.unsigned? with
    | .pow, _, some _ => none
    | .pow, some number, none =>
      right.reread.map fun r => .prefixed .minus (.binary .pow (.literal number) r)
    | _, _, _ => left.reread.bind fun l => right.reread.map (.binary op l)

/-- No negative literal is the operand of a function, of a factorial or of a power. -/
def Sheltered : Expr → Prop
  | .literal _ => True
  | .var _ => True
  | .prefixed (.apply _) operand => operand.unsigned? = none ∧ operand.Sheltered
  | .prefixed _ operand => operand.Sheltered
  | .postfixed operand _ => operand.unsigned? = none ∧ operand.Sheltered
  | .binary op left right =>
    (op = .pow → left.unsigned? = none ∧ right.unsigned? = none) ∧
      left.Sheltered ∧ right.Sheltered

variable {e : Expr} {number : Literal}

/-- A binary operator comes back between its operands, as long as no power has a literal with a
sign as an operand. -/
theorem reread_binary {op : BinaryOp} {left right : Expr}
    (h : op = .pow → left.unsigned? = none ∧ right.unsigned? = none) :
    (Expr.binary op left right).reread =
      left.reread.bind fun l => right.reread.map (.binary op l) := by
  by_cases hpow : op = .pow
  · obtain ⟨hleft, hright⟩ := h hpow
    simp [reread, hpow, hleft, hright]
  · cases op <;> simp [reread] at hpow ⊢

/-- A sheltered tree comes back with the signs at its literals, and no other one does. -/
theorem reread_eq_signed_iff : e.reread = some e.signed ↔ e.Sheltered := by
  induction e with
  | literal | var => simp [reread, signed, Sheltered]
  | prefixed op operand ih =>
    cases op with
    | apply name =>
      cases hnumber : operand.unsigned? with
      | none => simp [reread, signed, Sheltered, hnumber, ih]
      | some number => simp [reread, signed, Sheltered, hnumber]
    | plus => simp [reread, signed, Sheltered, ih]
    | minus => simp [reread, signed, Sheltered, ih]
  | postfixed operand op ih =>
    cases hnumber : operand.unsigned? with
    | none => simp [reread, signed, Sheltered, hnumber, ih]
    | some number => simp [reread, signed, Sheltered, hnumber]
  | binary op left right ihl ihr =>
    have hboth : left.reread.bind (fun l => right.reread.map (binary op l)) =
        some (binary op left.signed right.signed) ↔ left.Sheltered ∧ right.Sheltered := by
      rw [← ihl, ← ihr]
      cases left.reread <;> cases right.reread <;> simp
    by_cases hpow : op = .pow
    · subst hpow
      cases hleft : left.unsigned? <;> cases hright : right.unsigned? <;>
        simp [reread, signed, Sheltered, hleft, hright, hboth]
    · rw [reread_binary fun h => absurd h hpow, signed, hboth]
      simp [Sheltered, hpow]

/-- A negative literal is written bare, in two pieces, and comes back under a sign. -/
theorem cut_of_unsigned? (h : e.unsigned? = some number) (hwf : e.WrittenWith Literal.Signable) :
    e.isAtom = true ∧ e.piecesWith Literal.cut = [PrefixOp.minus.piece, number.piece] ∧
      number.WellFormed ∧ e.reread = some (.prefixed .minus (.literal number)) := by
  cases e with
  | literal value =>
    have hnumber : value.unsigned? = some number := h
    refine ⟨rfl, ?_, (Literal.Signable.unsigned hwf hnumber).1, ?_⟩
    · rw [piecesWith, Literal.cut, hnumber]
    · rw [reread, Literal.signed, hnumber]
  | _ => cases h

end Expr

open Scan

/-- A literal is cut into its sign and its numeral. -/
theorem reads_cut {value : Literal} {rest : List Char} (hvalue : value.Signable)
    (h : Stops rest) : Reads value.render.toList value.cut rest := by
  unfold Literal.cut
  split
  · rename_i hnumber
    exact reads_literal (hvalue.wellFormed hnumber) h
  · rename_i number hnumber
    obtain ⟨hwf, hrender⟩ := hvalue.unsigned hnumber
    rw [hrender]
    exact (reads_operator .minus _).append (reads_literal hwf h)

/-- These levels of the usual grammar derive the tree from the tokens. -/
def Derivable (levels : List Level) (tokens : List Token) (e : Expr) : Prop :=
  Nonempty (Derivation usualLevels levels tokens e)

namespace Derivable

variable {levels : List Level} {tokens before behind : List Token} {token : Token}
  {e l r : Expr}

/-- What levels derive is derived by looser levels around them. -/
theorem outward (h : Derivable levels tokens e) (looser : List Level) :
    Derivable (looser ++ levels) tokens e :=
  h.map (·.widen looser)

/-- Any levels derive a literal. -/
theorem literal {value : Literal} (spells : token.Spells (.literal value)) (levels : List Level) :
    Derivable levels [token] (.literal value) := by
  have hwidened : Derivable (levels ++ []) [token] (.literal value) :=
    ⟨(Derivation.literal spells).widen levels⟩
  rwa [List.append_nil] at hwidened

/-- A variable is a primary. -/
theorem var {name : Char} (spells : token.Spells (.var name)) :
    Derivable [] [token] (.var name) := ⟨.var spells⟩

/-- A function whose name is one letter may be a variable. -/
theorem spells_letter {name : String} {c : Char}
    (hpiece : token.piece = (PrefixOp.apply name).piece) (hname : Expr.letter? name = some c) :
    token.Spells (.var c) := by
  have hlist : name.toList = [c] := by
    unfold Expr.letter? at hname
    split at hname
    · rename_i hlist
      cases hname
      exact hlist
    · cases hname
  obtain ⟨hkind, htext⟩ := Prod.mk.inj hpiece
  exact ⟨by simpa [hlist] using hkind, by rw [htext, hlist]; rfl⟩

/-- A sign takes in what the levels below it derive, and further signs. -/
theorem sign {op : PrefixOp} (hsign : op = .plus ∨ op = .minus) (hpiece : token.piece = op.piece)
    (h : Derivable (usualLevels.drop 2) tokens e) :
    Derivable (usualLevels.drop 2) (token :: tokens) (.prefixed op e) := by
  obtain ⟨operand⟩ := h
  have hcontains : (OperatorSet.symbols [.plus, .minus]).contains token = true := by
    rcases hsign with rfl | rfl
    · exact (OperatorSet.contains_iff (Token.operator?_of_piece hpiece)).mpr (by decide)
    · exact (OperatorSet.contains_iff (Token.operator?_of_piece hpiece)).mpr (by decide)
  exact ⟨.prefixed rfl hcontains (Token.spells_prefixed hpiece) operand⟩

/-- A function takes a primary. -/
theorem application {name : String} (hpiece : token.piece = (PrefixOp.apply name).piece)
    (h : Derivable [] tokens e) :
    Derivable (usualLevels.drop 5) (token :: tokens) (.prefixed (.apply name) e) := by
  obtain ⟨operand⟩ := h
  have spells : token.Spells (.prefixed (.apply name)) := Token.spells_prefixed hpiece
  have hcontains : OperatorSet.names.contains token = true := by
    rcases spells.1 with hk | hk <;> simp [OperatorSet.contains, hk]
  exact ⟨.prefixed rfl hcontains spells operand.tighter⟩

/-- A factorial takes a primary. -/
theorem factorial (hpiece : token.piece = (.operator, Operator.bang.symbol))
    (h : Derivable [] tokens e) :
    Derivable (usualLevels.drop 4) (tokens ++ [token]) (.postfixed e .factorial) := by
  obtain ⟨operand⟩ := h
  have hop := Token.operator?_of_piece hpiece
  have spells : token.Spells (.postfixed .factorial) := by
    rw [Token.Spells, hop]
    rfl
  exact ⟨.postfixed rfl ((OperatorSet.contains_iff hop).mpr (by decide)) spells
    operand.tighter.tighter⟩

/-- A power takes two primaries. -/
theorem power (hop : token.operator? = some .caret) (hl : Derivable [] before l)
    (hr : Derivable [] behind r) :
    Derivable (usualLevels.drop 3) (before ++ token :: behind) (.binary .pow l r) := by
  obtain ⟨first⟩ := hl
  obtain ⟨second⟩ := hr
  exact ⟨.right rfl ((OperatorSet.contains_iff hop).mpr (by decide))
    (Token.spells_binary hop) first.tighter.tighter second.tighter.tighter.tighter⟩

/-- Sums and products take operands with signs. -/
theorem sumOrProduct {op : BinaryOp} (hop : token.operator? = some op.operator) (hpow : op ≠ .pow)
    (hl : Derivable (usualLevels.drop 2) before l) (hr : Derivable (usualLevels.drop 2) behind r) :
    Derivable usualLevels (before ++ token :: behind) (.binary op l r) := by
  obtain ⟨first⟩ := hl
  obtain ⟨second⟩ := hr
  have spells := Token.spells_binary hop
  have hcontains {list : List Operator} (hmem : op.operator ∈ list) :
      (OperatorSet.symbols list).contains token = true := (OperatorSet.contains_iff hop).mpr hmem
  cases op with
  | add =>
    exact ⟨.left rfl (hcontains (by decide)) spells first.tighter.tighter second.tighter⟩
  | sub =>
    exact ⟨.left rfl (hcontains (by decide)) spells first.tighter.tighter second.tighter⟩
  | mul => exact ⟨.tighter (.left rfl (hcontains (by decide)) spells first.tighter second)⟩
  | div => exact ⟨.tighter (.left rfl (hcontains (by decide)) spells first.tighter second)⟩
  | pow => exact absurd rfl hpow

/-- From the pieces of the rendered tree the usual grammar derives what it is reread as. -/
def Rereads (e : Expr) : Prop :=
  ∀ (tokens : List Token) (again : Expr), tokens.map Token.piece = e.piecesWith Literal.cut →
    e.reread = some again → Derivable usualLevels tokens again

/-- What stands for an operand is a primary, or the sign and the digits of a negative literal. -/
theorem operand_cases (hwf : e.WrittenWith Literal.Signable)
    (h : tokens.map Token.piece = Expr.enclosePieces e.isAtom (e.piecesWith Literal.cut))
    (htree : Rereads e) :
    (e.unsigned? = none ∧ ∀ again, e.reread = some again → Derivable [] tokens again) ∨
    ∃ sign token number, e.unsigned? = some number ∧ tokens = [sign, token] ∧
      sign.piece = PrefixOp.minus.piece ∧ token.Spells (.literal number) ∧
      e.reread = some (.prefixed .minus (.literal number)) := by
  cases hnumber : e.unsigned? with
  | some number =>
    obtain ⟨hatom, hpieces, hnumeral, hreread⟩ := Expr.cut_of_unsigned? hnumber hwf
    rw [hatom, hpieces] at h
    obtain ⟨sign, rest, rfl, hsign, hrest⟩ := List.map_eq_cons_iff.mp h
    obtain ⟨token, rfl, htoken⟩ := List.map_eq_singleton_iff.mp hrest
    exact .inr ⟨sign, token, number, rfl, rfl, hsign, Token.spells_literal hnumeral htoken, hreread⟩
  | none =>
    refine .inl ⟨rfl, fun again hagain => ?_⟩
    rcases operand_casesWith h with ⟨value, rfl, hpieces⟩ | ⟨token, name, rfl, rfl, spells⟩ |
      ⟨-, opening, inner, closing, rfl, opens, closes, hinner⟩
    · have hpositive : value.unsigned? = none := hnumber
      rw [Literal.cut, hpositive] at hpieces
      rw [Expr.reread, Literal.signed, hpositive] at hagain
      obtain ⟨token, rfl, hpiece⟩ := List.map_eq_singleton_iff.mp hpieces
      cases hagain
      exact literal (Token.spells_literal (hwf.wellFormed hpositive) hpiece) []
    · cases hagain
      exact var spells
    · obtain ⟨body⟩ := htree inner again hinner hagain
      exact ⟨.paren opens closes body⟩

/-- An operand stands where signs may stand. -/
theorem operand (hwf : e.WrittenWith Literal.Signable)
    (h : tokens.map Token.piece = Expr.enclosePieces e.isAtom (e.piecesWith Literal.cut))
    (htree : Rereads e)
    {again : Expr} (hagain : e.reread = some again) :
    Derivable (usualLevels.drop 2) tokens again := by
  rcases operand_cases hwf h htree with
    ⟨-, hprimary⟩ | ⟨minus, token, number, -, rfl, hminus, spells, hreread⟩
  · exact (hprimary again hagain).outward (usualLevels.drop 2)
  · rw [hreread] at hagain
    cases hagain
    exact sign (.inr rfl) hminus (literal spells _)

/-- A literal is derived where signs may stand. -/
theorem of_cut {value : Literal} (hvalue : value.Signable)
    (h : tokens.map Token.piece = value.cut) :
    Derivable (usualLevels.drop 2) tokens value.signed := by
  unfold Literal.cut at h
  unfold Literal.signed
  split at h
  · rename_i hnumber
    obtain ⟨token, rfl, hpiece⟩ := List.map_eq_singleton_iff.mp h
    exact literal (Token.spells_literal (hvalue.wellFormed hnumber) hpiece) _
  · rename_i number hnumber
    obtain ⟨minus, rest, rfl, hminus, hrest⟩ := List.map_eq_cons_iff.mp h
    obtain ⟨token, rfl, hpiece⟩ := List.map_eq_singleton_iff.mp hrest
    exact sign (.inr rfl) hminus
      (literal (Token.spells_literal (hvalue.unsigned hnumber).1 hpiece) _)

/-- The usual grammar derives the tree that a rendered tree is reread as. -/
theorem rereads (hwf : e.WrittenWith Literal.Signable) : Rereads e := by
  intro tokens again h hagain
  induction e generalizing tokens again with
  | literal value =>
    cases hagain
    exact (of_cut hwf h).outward (usualLevels.take 2)
  | var name =>
    cases hagain
    obtain ⟨token, rfl, hpiece⟩ := List.map_eq_singleton_iff.mp h
    exact (var (Token.spells_var hpiece)).outward usualLevels
  | prefixed op inner ih =>
    obtain ⟨token, behind, rfl, hpiece, hbehind⟩ := List.map_eq_cons_iff.mp h
    have hinner : inner.WrittenWith Literal.Signable := hwf.2
    have hsigned (hsign : op = .plus ∨ op = .minus) {r : Expr} (hr : inner.reread = some r) :
        Derivable usualLevels (token :: behind) (.prefixed op r) :=
      (sign hsign hpiece (operand hinner hbehind (ih hinner) hr)).outward (usualLevels.take 2)
    cases op with
    | plus =>
      obtain ⟨r, hr, rfl⟩ := Option.map_eq_some_iff.mp hagain
      exact hsigned (.inl rfl) hr
    | minus =>
      obtain ⟨r, hr, rfl⟩ := Option.map_eq_some_iff.mp hagain
      exact hsigned (.inr rfl) hr
    | apply name =>
      rcases operand_cases hinner hbehind (ih hinner) with
        ⟨hnone, hprimary⟩ | ⟨minus, digits, number, hsome, rfl, hminus, spells, -⟩
      · obtain ⟨r, hr, rfl⟩ : ∃ r, inner.reread = some r ∧ .prefixed (.apply name) r = again := by
          simpa [Expr.reread, hnone] using hagain
        exact (application hpiece (hprimary r hr)).outward (usualLevels.take 5)
      · obtain ⟨c, hc, rfl⟩ : ∃ c, Expr.letter? name = some c ∧
            .binary .sub (.var c) (.literal number) = again := by
          simpa [Expr.reread, hsome] using hagain
        -- The name is a variable, and the sign behind it stands between two operands.
        have hname : (token :: [minus, digits]) = [token] ++ minus :: [digits] := rfl
        have hvar : token.Spells (.var c) := spells_letter hpiece hc
        rw [hname]
        exact sumOrProduct (Token.operator?_of_piece hminus) (by decide)
          ((var hvar).outward (usualLevels.drop 2)) (literal spells _)
  | postfixed inner op ih =>
    cases op
    obtain ⟨before, last, rfl, hbefore, hlast⟩ := List.map_eq_append_iff.mp h
    obtain ⟨token, rfl, hpiece⟩ := List.map_eq_singleton_iff.mp hlast
    have hinner : inner.WrittenWith Literal.Signable := hwf
    rcases operand_cases hinner hbefore (ih hinner) with
      ⟨hnone, hprimary⟩ | ⟨minus, digits, number, hsome, rfl, hminus, spells, -⟩
    · obtain ⟨r, hr, rfl⟩ : ∃ r, inner.reread = some r ∧ .postfixed r .factorial = again := by
        simpa [Expr.reread, hnone] using hagain
      exact (factorial hpiece (hprimary r hr)).outward (usualLevels.take 4)
    · obtain rfl : .prefixed .minus (.postfixed (.literal number) .factorial) = again := by
        simpa [Expr.reread, hsome] using hagain
      -- The sign stands in front of the factorial and takes in all of it.
      have hfactorial := (factorial hpiece (literal spells [])).outward
        ((usualLevels.drop 2).take 2)
      exact (sign (.inr rfl) hminus hfactorial).outward (usualLevels.take 2)
  | binary op left right ihl ihr =>
    obtain ⟨hwfleft, hwfright⟩ := hwf
    obtain ⟨before, others, rfl, hbefore, hothers⟩ := List.map_eq_append_iff.mp h
    obtain ⟨token, behind, rfl, hpiece, hbehind⟩ := List.map_eq_cons_iff.mp hothers
    have hop := Token.operator?_of_piece hpiece
    by_cases hpow : op = .pow
    · subst hpow
      rcases operand_cases hwfright hbehind (ihr hwfright) with
        ⟨hright, hprimary⟩ | ⟨-, -, number, hright, -⟩
      · rcases operand_cases hwfleft hbefore (ihl hwfleft) with
          ⟨hleft, hbase⟩ | ⟨minus, digits, number, hleft, rfl, hminus, spells, -⟩
        · rw [Expr.reread_binary fun _ => ⟨hleft, hright⟩] at hagain
          obtain ⟨l, hl, hagain⟩ := Option.bind_eq_some_iff.mp hagain
          obtain ⟨r, hr, rfl⟩ := Option.map_eq_some_iff.mp hagain
          exact (power hop (hbase l hl) (hprimary r hr)).outward (usualLevels.take 3)
        · obtain ⟨r, hr, rfl⟩ : ∃ r, right.reread = some r ∧
              .prefixed .minus (.binary .pow (.literal number) r) = again := by
            simpa [Expr.reread, hleft, hright] using hagain
          -- The sign stands in front of the power and takes in all of it.
          have hpower := (power hop (literal spells []) (hprimary r hr)).outward
            ((usualLevels.drop 2).take 1)
          exact (sign (.inr rfl) hminus hpower).outward (usualLevels.take 2)
      · simp [Expr.reread, hright] at hagain
    · rw [Expr.reread_binary fun h => absurd h hpow] at hagain
      obtain ⟨l, hl, hagain⟩ := Option.bind_eq_some_iff.mp hagain
      obtain ⟨r, hr, rfl⟩ := Option.map_eq_some_iff.mp hagain
      exact sumOrProduct hop hpow (operand hwfleft hbefore (ihl hwfleft) hl)
        (operand hwfright hbehind (ihr hwfright) hr)

end Derivable

/-! ### Formulas that are not parsed -/

namespace Expr

variable {e : Expr} {number : Literal}

/-- Pieces that can stand in parentheses can stand without them. -/
theorem isChain_of_enclosePieces {atom : Bool} {pieces : List (TokenKind × String)}
    (h : (enclosePieces atom pieces).IsChain Neighbours) : pieces.IsChain Neighbours := by
  cases atom with
  | true => exact h
  | false => exact (List.isChain_cons.mp h).2.left_of_append

/-- No sign stands behind a piece that expects an operand. -/
theorem not_isChain_sign {piece : TokenKind × String} {rest : List (TokenKind × String)}
    (hexpects : ExpectsOperand piece) :
    ¬ (piece :: PrefixOp.minus.piece :: rest).IsChain Neighbours := by
  intro h
  exact (List.isChain_cons.mp h).1 PrefixOp.minus.piece rfl hexpects rfl

/-- The pieces of a negative operand begin with its sign. -/
theorem enclosePieces_of_unsigned? (h : e.unsigned? = some number)
    (hwf : e.WrittenWith Literal.Signable) :
    enclosePieces e.isAtom (e.piecesWith Literal.cut) =
      PrefixOp.minus.piece :: [number.piece] := by
  obtain ⟨hatom, hpieces, -⟩ := cut_of_unsigned? h hwf
  rw [hatom, hpieces]
  rfl

/-- A name that is no variable is one of several characters. -/
theorem expectsOperand_of_letter? {name : String} (hname : isName name)
    (h : letter? name = none) : ExpectsOperand (PrefixOp.apply name).piece := by
  left
  unfold letter? at h
  split at h
  · cases h
  · rename_i hlist
    unfold isName at hname
    split at hname
    · cases hname
    · rename_i c others hcons
      cases others with
      | nil => exact absurd hcons (hlist c)
      | cons next others => simp [PrefixOp.piece, namePiece, hcons]

/-- What is not reread has a sign where no formula has one. -/
theorem not_isChain_of_reread (hwf : e.WrittenWith Literal.Signable) (h : e.reread = none) :
    ¬ (e.piecesWith Literal.cut).IsChain Neighbours := by
  intro hchain
  induction e with
  | literal | var => cases h
  | prefixed op operand ih =>
    have hoperand := (List.isChain_cons.mp hchain).2
    have hbelow (hnone : operand.reread = none) : False :=
      ih hwf.2 hnone (isChain_of_enclosePieces hoperand)
    cases op with
    | plus => exact hbelow (Option.map_eq_none_iff.mp h)
    | minus => exact hbelow (Option.map_eq_none_iff.mp h)
    | apply name =>
      obtain ⟨hname, hwfoperand⟩ := hwf
      cases hnumber : operand.unsigned? with
      | none => exact hbelow (by simpa [reread, hnumber] using h)
      | some number =>
        -- The sign stands behind a name that is no variable.
        have hletter : letter? name = none := by simpa [reread, hnumber] using h
        rw [piecesWith, enclosePieces_of_unsigned? hnumber hwfoperand] at hchain
        exact not_isChain_sign (expectsOperand_of_letter? hname hletter) hchain
  | postfixed operand op ih =>
    cases op
    cases hnumber : operand.unsigned? with
    | some number => simp [reread, hnumber] at h
    | none =>
      have hnone : operand.reread = none := by simpa [reread, hnumber] using h
      exact ih hwf hnone (isChain_of_enclosePieces hchain.left_of_append)
  | binary op left right ihl ihr =>
    obtain ⟨hwfleft, hwfright⟩ := hwf
    rw [piecesWith] at hchain
    have hleft (hnone : left.reread = none) : False :=
      ihl hwfleft hnone (isChain_of_enclosePieces hchain.left_of_append)
    have hright (hnone : right.reread = none) : False :=
      ihr hwfright hnone
        (isChain_of_enclosePieces (List.isChain_cons.mp hchain.right_of_append).2)
    have hboth : left.reread.bind (fun l => right.reread.map (binary op l)) ≠ none := by
      cases hl : left.reread with
      | none => exact (hleft hl).elim
      | some l =>
        cases hr : right.reread with
        | none => exact (hright hr).elim
        | some r => simp
    by_cases hpow : op = .pow
    · subst hpow
      cases hnumber : right.unsigned? with
      | some number =>
        -- The sign stands behind the operator of a power.
        rw [enclosePieces_of_unsigned? hnumber hwfright] at hchain
        exact not_isChain_sign (.inr rfl) hchain.right_of_append
      | none =>
        cases hbase : left.unsigned? with
        | none => exact hboth ((reread_binary fun _ => ⟨hbase, hnumber⟩).symm.trans h)
        | some number => exact hright (by simpa [reread, hbase, hnumber] using h)
    · exact hboth ((reread_binary fun hop => absurd hop hpow).symm.trans h)

end Expr

/-- A negative literal comes back as a sign in front of its digits. Where the tree can be
reread so, its formula is parsed as what it is reread as, unless it is nested too deeply, and
where it cannot, the formula is not parsed. The signs come back at the literals exactly if
no negative literal is the operand of a function, of a factorial or of a power. -/
theorem parse_render_signed (e : Expr) (hwf : e.WrittenWith Literal.Signable) :
    (∀ again, e.reread = some again → parse e.render = .ok again ∨
      ∃ found, parse e.render = .error (.parse ⟨.tooDeep, found⟩)) ∧
    (e.reread = none → ∃ error, parse e.render = .error (.parse error)) ∧
    (e.reread = some e.signed ↔ e.Sheltered) := by
  obtain ⟨tokens, place, hpieces, htokens⟩ :=
    tokenize_of_reads (reads_renderWith (fun _ hvalue _ => reads_cut hvalue) hwf stops_nil)
  refine ⟨fun again hagain => ?_, fun hnone => ?_, Expr.reread_eq_signed_iff⟩
  · obtain ⟨derivation⟩ := Derivable.rereads hwf tokens again hpieces hagain
    exact (parse_of_derivedWithin htokens ⟨derivation, Nat.le_refl _⟩).imp_right And.left
  · have hbefore := beforeEnding_of_tokenize htokens
    cases hresult : parseTokens .standard (tokens ++ [⟨.ending, "", place⟩]) with
    | error error => exact ⟨error, (parseWith_eq_error_iff htokens).mpr hresult⟩
    | ok again =>
      obtain ⟨derivation⟩ := Parse.derives_of_parseTokens hresult
      rw [hbefore] at derivation
      have hchain := derivation.isChain_neighbours List.suffix_rfl List.suffix_rfl
      rw [← List.isChain_map, hpieces] at hchain
      exact absurd hchain (Expr.not_isChain_of_reread hwf hnone)

/-- The product of minus three and a power comes back with the sign at the three. -/
theorem parse_render_signed_product :
    let e : Expr := .binary .mul (.literal (.integer (-3)))
      (.binary .pow (.var 'x') (.literal (.integer 2)))
    e.WrittenWith Literal.Signable ∧ e.Sheltered ∧ (parse e.render = .ok e.signed ∨
      ∃ found, parse e.render = .error (.parse ⟨.tooDeep, found⟩)) := by
  intro e
  have hthree : Literal.Signable (.integer (-3)) := by decide
  have htwo : Literal.Signable (.integer 2) := by decide
  have hwf : e.WrittenWith Literal.Signable := ⟨hthree, rfl, htwo⟩
  have hsheltered : e.Sheltered := by
    simp [e, Expr.Sheltered, Expr.unsigned?, Literal.unsigned?]
  obtain ⟨hreread, -, hiff⟩ := parse_render_signed e hwf
  exact ⟨hwf, hsheltered, hreread e.signed (hiff.mpr hsheltered)⟩

/-- The sign need not come back at the literal: the factorial of minus five is written as
`-5!` and parsed as the opposite of the factorial of five. -/
theorem not_parse_render_signed :
    ¬ ∀ e : Expr, e.WrittenWith Literal.Signable → parse e.render = .ok e.signed ∨
      ∃ found, parse e.render = .error (.parse ⟨.tooDeep, found⟩) := by
  intro hsigned
  let e : Expr := .postfixed (.literal (.integer (-5))) .factorial
  have hparse : parse e.render =
      .ok (.prefixed .minus (.postfixed (.literal (.integer 5)) .factorial)) :=
    Parse.parseWith_eq_of_plain (by decide +kernel)
  have hfive : Literal.Signable (.integer (-5)) := by decide
  rcases hsigned e hfive with hok | ⟨found, hdeep⟩
  · rw [hparse] at hok
    cases hok
  · rw [hparse] at hdeep
    cases hdeep

/-- A power has no place for a sign in its exponent. -/
example : Expr.reread (.binary .pow (.var 'x') (.literal (.integer (-3)))) = none := by decide

end Formula
