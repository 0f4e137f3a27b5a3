import Formula.Proofs.Expr.RoundTrip
import Mathlib.Data.List.Chain
import Mathlib.Data.List.Infix

/-!
# What stands side by side in a formula

Under the usual grammar a name of more than one character and a power are followed by an
operand that does not begin with a sign. So no derived formula has an operator right behind
one of them.
-/

namespace Formula

/-- A piece behind which an operand without a sign has to follow: a name of more than one
character, or a power. -/
def ExpectsOperand (piece : TokenKind × String) : Prop :=
  piece.1 = .identifier ∨ piece = (.operator, Operator.caret.symbol)

/-- Whether a formula may have the second piece right behind the first one. -/
def Neighbours (first second : TokenKind × String) : Prop :=
  ExpectsOperand first → second.1 ≠ .operator

variable {token next : Token}

/-- Among the kinds of tokens, names and operators may expect an operand without a sign. -/
theorem ExpectsOperand.kind (h : ExpectsOperand token.piece) :
    token.kind = .identifier ∨ token.kind = .operator :=
  h.imp_right fun hcaret => congrArg Prod.fst hcaret

/-- The only operator that expects an operand without a sign is the power. -/
theorem ExpectsOperand.operator? (h : ExpectsOperand token.piece) (hkind : token.kind = .operator) :
    token.operator? = some .caret := by
  rcases h with hname | hcaret
  · have hname : token.kind = .identifier := hname
    rw [hkind] at hname
    cases hname
  · exact Token.operator?_of_piece hcaret

/-- An operator with a meaning that a power does not have expects no such operand. -/
theorem not_expectsOperand {α : Type} {meaning : Operator → Option α} {op : α}
    (h : token.operator?.bind meaning = some op) (hcaret : meaning .caret = none) :
    ¬ ExpectsOperand token.piece := by
  intro hexpects
  rw [hexpects.operator? (Token.kind_of_operator?_bind h), Option.bind_some, hcaret] at h
  cases h

/-- Below a power and below a name, no level of the usual grammar has signs. -/
theorem names_of_prefix_below : ∀ levels ∈ usualLevels.tails, ∀ level ∈ levels.head?,
    level.operators = .names ∨ level.fixity = .infixOp .right →
    ∀ other ∈ levels, other.fixity = .prefixOp → other.operators = .names := by
  decide

/-- In the usual grammar a power is grouped to the right. -/
theorem caret_notMem_left : ∀ level ∈ usualLevels, level.fixity = .infixOp .left →
    .caret ∉ level.operators.list := by
  decide

namespace Derivation

variable {all levels : List Level} {tokens : List Token} {e : Expr}

/-- No operand has to follow behind a derived formula. -/
theorem not_expectsOperand_of_last (derivation : Derivation all levels tokens e)
    (hlast : tokens.getLast? = some token) : ¬ ExpectsOperand token.piece := by
  induction derivation with
  | literal spells =>
    cases hlast
    intro hexpects
    have hkind := hexpects.kind
    rcases Token.kind_of_literal? spells with hk | hk <;> simp [hk] at hkind
  | var spells =>
    cases hlast
    intro hexpects
    have hkind := hexpects.kind
    simp [spells.1] at hkind
  | @paren opening closing inner e opens closes body ih =>
    rw [← List.cons_append, List.getLast?_concat] at hlast
    cases hlast
    intro hexpects
    have hkind := hexpects.kind
    simp [closes] at hkind
  | tighter body ih => exact ih hlast
  | prefixed fixity member spells operand ih =>
    exact ih (by rwa [List.getLast?_cons_of_ne_nil operand.tokens_ne_nil] at hlast)
  | postfixed fixity member spells operand ih =>
    rw [List.getLast?_concat] at hlast
    cases hlast
    exact not_expectsOperand spells rfl
  | left fixity member spells first second ihl ihr =>
    rw [List.getLast?_append_of_ne_nil _ (List.cons_ne_nil _ _),
      List.getLast?_cons_of_ne_nil second.tokens_ne_nil] at hlast
    exact ihr hlast
  | right fixity member spells first second ihl ihr =>
    rw [List.getLast?_append_of_ne_nil _ (List.cons_ne_nil _ _),
      List.getLast?_cons_of_ne_nil second.tokens_ne_nil] at hlast
    exact ihr hlast

/-- Behind a formula that is derived may stand anything, since its last token expects no
operand. -/
theorem neighbours_last (derivation : Derivation all levels tokens e) (rest : List Token) :
    ∀ last ∈ tokens.getLast?, ∀ next ∈ rest.head?, Neighbours last.piece next.piece :=
  fun _ hlast _ _ hexpects => absurd hexpects (derivation.not_expectsOperand_of_last hlast)

/-- Where the prefix operators are names, nothing that is derived begins with an operator. -/
theorem head_ne_operator (derivation : Derivation all levels tokens e)
    (hnames : ∀ level ∈ levels, level.fixity = .prefixOp → level.operators = .names)
    (hhead : tokens.head? = some token) : token.kind ≠ .operator := by
  intro hkind
  obtain ⟨level, hmem, hfixity, hcontains⟩ := derivation.head_operator hhead hkind
  simp [hnames level hmem hfixity, OperatorSet.contains, hkind] at hcontains

/-- In what the usual grammar derives no operator stands right behind a name of more than
one character or a power. -/
theorem isChain_neighbours (derivation : Derivation all levels tokens e)
    (hall : all <:+ usualLevels) (hlevels : levels <:+ usualLevels) :
    tokens.IsChain fun first second => Neighbours first.piece second.piece := by
  induction derivation with
  | literal | var => exact .singleton _
  | paren opens closes body ih =>
    refine List.isChain_cons.mpr ⟨fun next _ hexpects => ?_,
      (ih hall).append (.singleton _) (body.neighbours_last _)⟩
    have hkind := hexpects.kind
    simp [opens] at hkind
  | tighter body ih => exact ih ((List.suffix_cons _ _).trans hlevels)
  | @prefixed level rest token tokens op e fixity member spells operand ih =>
    refine List.isChain_cons.mpr ⟨fun next hnext hexpects => ?_, ih hlevels⟩
    have hnames : level.operators = .names := by
      cases op with
      | plus => exact absurd hexpects (not_expectsOperand spells rfl)
      | minus => exact absurd hexpects (not_expectsOperand spells rfl)
      | apply name =>
        rcases OperatorSet.kind_of_contains member with ⟨hnames, -⟩ | ⟨op, hop, -⟩
        · exact hnames
        · have hkind := Token.kind_of_operator? hop
          rcases spells.1 with hk | hk <;> simp [hk] at hkind
    exact operand.head_ne_operator
      (names_of_prefix_below _ ((List.mem_tails _ _).mpr hlevels) level rfl (.inl hnames)) hnext
  | postfixed fixity member spells operand ih =>
    exact (ih hlevels).append (.singleton _) (operand.neighbours_last _)
  | @left level rest token before behind op l r fixity member spells first second ihl ihr =>
    have htail : rest <:+ usualLevels := (List.suffix_cons _ _).trans hlevels
    refine (ihl hlevels).append (List.isChain_cons.mpr ⟨fun next _ hexpects => ?_, ihr htail⟩)
      (first.neighbours_last _)
    have hcaret := hexpects.operator? (Token.kind_of_operator?_bind spells)
    exact absurd ((OperatorSet.contains_iff hcaret).mp member)
      (caret_notMem_left level (hlevels.mem List.mem_cons_self) fixity)
  | @right level rest token before behind op l r fixity member spells first second ihl ihr =>
    have htail : rest <:+ usualLevels := (List.suffix_cons _ _).trans hlevels
    refine (ihl htail).append (List.isChain_cons.mpr ⟨fun next hnext _ => ?_, ihr hlevels⟩)
      (first.neighbours_last _)
    exact second.head_ne_operator
      (names_of_prefix_below _ ((List.mem_tails _ _).mpr hlevels) level rfl (.inr fixity)) hnext

end Derivation

end Formula
