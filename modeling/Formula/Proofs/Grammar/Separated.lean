import Formula.Proofs.Grammar.Derivation
import Mathlib.Data.List.Basic

/-!
# Separated grammars

In a separated grammar every symbol has one prefix level, one infix level and one
postfix level at most, and a name that applies a function cannot be taken for the
left operand of a sign. Then the token behind an operand tells which rule goes on.
-/

namespace Formula

/-- The operator symbols of a level. Names are none. -/
def OperatorSet.list : OperatorSet → List Operator
  | .names => []
  | .symbols list => list

/-- Whether two fixities put their operators at the same side of an operand. -/
def Fixity.sameSide : Fixity → Fixity → Bool
  | .prefixOp, .prefixOp => true
  | .postfixOp, .postfixOp => true
  | .infixOp _, .infixOp _ => true
  | _, _ => false

/-- What a level and a looser one of a separated grammar have to do with each
other: they share no symbol at one side of an operand, at most one of them
applies functions, and if the looser one does, then the tighter one has no signs. -/
structure Level.Apart (tighter looser : Level) : Prop where
  symbols : tighter.fixity.sameSide looser.fixity →
    ∀ op ∈ tighter.operators.list, op ∉ looser.operators.list
  applications : tighter.operators = .names → looser.operators ≠ .names
  signs : looser.operators = .names → tighter.fixity = .prefixOp → tighter.operators = .names

instance (tighter looser : Level) : Decidable (tighter.Apart looser) :=
  decidable_of_iff
    ((tighter.fixity.sameSide looser.fixity →
        ∀ op ∈ tighter.operators.list, op ∉ looser.operators.list) ∧
      (tighter.operators = .names → looser.operators ≠ .names) ∧
      (looser.operators = .names → tighter.fixity = .prefixOp → tighter.operators = .names))
    ⟨fun ⟨h₁, h₂, h₃⟩ => ⟨h₁, h₂, h₃⟩, fun ⟨h₁, h₂, h₃⟩ => ⟨h₁, h₂, h₃⟩⟩

/-- Any two levels are apart. Levels are listed from the tightest to the loosest. -/
def Grammar.Separated (grammar : Grammar) : Prop := grammar.levels.Pairwise Level.Apart

instance (grammar : Grammar) : Decidable grammar.Separated :=
  inferInstanceAs (Decidable (grammar.levels.Pairwise Level.Apart))

/-- The usual table is separated. -/
theorem Grammar.standard_separated : Grammar.standard.Separated := by decide

/-- The levels of a list, loosest first, are valid and apart. -/
structure Orderly (levels : List Level) : Prop where
  valid : ∀ level ∈ levels, level.Valid
  apart : levels.Pairwise fun looser tighter => tighter.Apart looser

/-- The levels of a separated grammar are orderly when they are listed from the loosest to the
tightest. -/
theorem Grammar.Separated.orderly {grammar : Grammar} (h : grammar.Separated) :
    Orderly grammar.loosestFirst := by
  constructor
  · intro level hlevel
    exact grammar.valid level (List.mem_reverse.mp hlevel)
  · exact List.pairwise_reverse.mpr h

namespace Orderly

variable {level : Level} {tighter : List Level}

/-- The levels below an orderly list are orderly themselves. -/
theorem tail (h : Orderly (level :: tighter)) : Orderly tighter := by
  constructor
  · intro l hl
    exact h.valid l (List.mem_cons_of_mem _ hl)
  · exact (List.pairwise_cons.mp h.apart).2

/-- The first level of an orderly list is apart from all the tighter ones. -/
theorem head_apart (h : Orderly (level :: tighter)) {other : Level} (hother : other ∈ tighter) :
    other.Apart level :=
  (List.pairwise_cons.mp h.apart).1 other hother

/-- Below a level of names no level is prefix. -/
theorem not_prefix_of_names (h : Orderly (level :: tighter)) (hnames : level.operators = .names) :
    ∀ other ∈ tighter, other.fixity ≠ .prefixOp := by
  intro other hother hprefix
  have hapart := h.head_apart hother
  exact hapart.applications (hapart.signs hnames hprefix) hnames

/-- The tightest levels of an orderly list are orderly by themselves. -/
theorem of_suffix {levels all : List Level} (h : Orderly all) (hlevels : levels <:+ all) :
    Orderly levels where
  valid level hlevel := h.valid level (hlevels.mem hlevel)
  apart := h.apart.sublist hlevels.sublist

end Orderly

namespace OperatorSet

/-- An operator token belongs to the levels that list its operator. -/
theorem contains_iff {operators : OperatorSet} {token : Token} {op : Operator}
    (h : token.operator? = some op) : operators.contains token = true ↔ op ∈ operators.list := by
  cases operators with
  | names => simp [contains, list, Token.kind_of_operator? h]
  | symbols list => simp [contains, OperatorSet.list, h]

/-- What belongs to a level is a name or an operator token. -/
theorem kind_of_contains {operators : OperatorSet} {token : Token}
    (h : operators.contains token = true) :
    (operators = .names ∧ (token.kind = .identifier ∨ token.kind = .letter)) ∨
      ∃ op, token.operator? = some op ∧ op ∈ operators.list := by
  cases operators with
  | names => exact .inl ⟨rfl, by simpa [contains] using h⟩
  | symbols list =>
    obtain ⟨op, hop, hmem⟩ : ∃ op, token.operator? = some op ∧ list.contains op = true := by
      simpa [contains, Option.any_eq_true] using h
    exact .inr ⟨op, hop, by simpa [OperatorSet.list] using hmem⟩

/-- A parenthesis is no operator. -/
theorem contains_eq_false_of_isParen {operators : OperatorSet} {token : Token}
    (h : token.isParen) : operators.contains token = false := by
  rcases Bool.or_eq_true_iff.mp h with hk | hk <;>
    cases operators <;> simp [contains, Token.operator?, eq_of_beq hk]

/-- No level has a parenthesis for an operator. -/
theorem isParen_eq_false_of_contains {operators : OperatorSet} {token : Token}
    (h : operators.contains token = true) : token.isParen = false := by
  cases hparen : token.isParen with
  | false => rfl
  | true =>
    rw [contains_eq_false_of_isParen hparen] at h
    cases h

end OperatorSet

namespace Level

variable {level other : Level} {token : Token}

/-- A level that is not prefix has operator symbols only. -/
theorem Valid.operator_of_contains (h : level.Valid) (hfixity : level.fixity ≠ .prefixOp)
    (hcontains : level.operators.contains token = true) :
    ∃ op, token.operator? = some op ∧ op ∈ level.operators.list := by
  rcases OperatorSet.kind_of_contains hcontains with ⟨hnames, -⟩ | hop
  · simp only [Valid, hnames] at h
    exact absurd h hfixity
  · exact hop

/-- The operators of a valid level have a meaning in its fixity. -/
theorem Valid.accepts (h : level.Valid) {op : Operator} (hop : op ∈ level.operators.list) :
    level.fixity.accepts op = true := by
  unfold Valid at h
  split at h
  · rename_i hnames
    simp [hnames, OperatorSet.list] at hop
  · rename_i list hlist
    exact h.2 op (by simpa [hlist, OperatorSet.list] using hop)

/-- No level apart from a level that goes on behind an operand goes on with the
same token. -/
theorem Apart.contains_eq_false (h : other.Apart level) (hvalid : level.Valid)
    (hother : other.Valid) (hfixity : level.fixity ≠ .prefixOp)
    (hbehind : other.fixity ≠ .prefixOp) (hcontains : level.operators.contains token = true) :
    other.operators.contains token = false := by
  obtain ⟨op, hop, hmem⟩ := hvalid.operator_of_contains hfixity hcontains
  have haccepts := hvalid.accepts hmem
  by_contra hne
  have hin : op ∈ other.operators.list := (OperatorSet.contains_iff hop).mp (by simpa using hne)
  have hboth := hother.accepts hin
  -- A factorial is no infix operator, so that both levels stand at one side of the operand.
  have hside : other.fixity.sameSide level.fixity = true := by
    cases hl : level.fixity <;> cases ho : other.fixity <;> cases op <;>
      simp_all [Fixity.sameSide, Fixity.accepts, Operator.asPostfix?, Operator.asBinary?]
  exact h.symbols hside op hin hmem

end Level

namespace Derivation

variable {all levels : List Level} {tokens : List Token} {e : Expr}

/-- What begins with an operator token begins with a prefix operator of one of the levels. -/
theorem head_operator (derivation : Derivation all levels tokens e) {token : Token}
    (hhead : tokens.head? = some token) (hkind : token.kind = .operator) :
    ∃ level ∈ levels, level.fixity = .prefixOp ∧ level.operators.contains token = true := by
  induction derivation with
  | literal spells =>
    cases hhead
    rcases Token.kind_of_literal? spells with hk | hk <;> simp [hk] at hkind
  | var spells =>
    cases hhead
    simp [spells.1] at hkind
  | paren opens closes body ih =>
    cases hhead
    simp [opens] at hkind
  | tighter body ih =>
    obtain ⟨level, hmem, h⟩ := ih hhead
    exact ⟨level, List.mem_cons_of_mem _ hmem, h⟩
  | prefixed fixity member spells operand ih =>
    cases hhead
    exact ⟨_, List.mem_cons_self, fixity, member⟩
  | postfixed fixity member spells operand ih =>
    exact ih (by rwa [List.head?_append_of_ne_nil _ operand.tokens_ne_nil] at hhead)
  | left fixity member spells first second ihl ihr =>
    exact ihl (by rwa [List.head?_append_of_ne_nil _ first.tokens_ne_nil] at hhead)
  | right fixity member spells first second ihl ihr =>
    obtain ⟨level, hmem, h⟩ :=
      ihl (by rwa [List.head?_append_of_ne_nil _ first.tokens_ne_nil] at hhead)
    exact ⟨level, List.mem_cons_of_mem _ hmem, h⟩

/-- Where no level is prefix, a name is a variable: what stands behind it is an
operator token. -/
theorem operator_behind_name (derivation : Derivation all levels tokens e)
    (hlevels : ∀ level ∈ levels, level.fixity ≠ .prefixOp) {token next : Token}
    {rest : List Token} (htokens : tokens = token :: next :: rest)
    (hkind : token.kind = .identifier ∨ token.kind = .letter) : next.kind = .operator := by
  induction derivation generalizing token next rest with
  | literal spells => simp at htokens
  | var spells => simp at htokens
  | paren opens closes body ih =>
    obtain ⟨rfl, -⟩ := List.cons_eq_cons.mp htokens
    simp [opens] at hkind
  | tighter body ih =>
    exact ih (fun level hlevel => hlevels level (List.mem_cons_of_mem _ hlevel)) htokens hkind
  | prefixed fixity member spells operand ih => exact absurd fixity (hlevels _ List.mem_cons_self)
  | @postfixed _ _ _ before _ _ fixity member spells operand ih =>
    match before, operand.tokens_ne_nil with
    | [_], _ =>
      obtain ⟨-, rfl, -⟩ : _ ∧ _ ∧ _ := by simpa using htokens
      exact Token.kind_of_operator?_bind spells
    | _ :: _ :: _, _ =>
      obtain ⟨rfl, rfl, -⟩ : _ ∧ _ ∧ _ := by simpa using htokens
      exact ih hlevels rfl hkind
  | @left _ _ _ before _ _ _ _ fixity member spells first second ihl ihr =>
    match before, first.tokens_ne_nil with
    | [_], _ =>
      obtain ⟨-, rfl, -⟩ : _ ∧ _ ∧ _ := by simpa using htokens
      exact Token.kind_of_operator?_bind spells
    | _ :: _ :: _, _ =>
      obtain ⟨rfl, rfl, -⟩ : _ ∧ _ ∧ _ := by simpa using htokens
      exact ihl hlevels rfl hkind
  | @right _ tighter _ before _ _ _ _ fixity member spells first second ihl ihr =>
    have htail : ∀ level ∈ tighter, level.fixity ≠ .prefixOp :=
      fun level hlevel => hlevels level (List.mem_cons_of_mem _ hlevel)
    match before, first.tokens_ne_nil with
    | [_], _ =>
      obtain ⟨-, rfl, -⟩ : _ ∧ _ ∧ _ := by simpa using htokens
      exact Token.kind_of_operator?_bind spells
    | _ :: _ :: _, _ =>
      obtain ⟨rfl, rfl, -⟩ : _ ∧ _ ∧ _ := by simpa using htokens
      exact ihl htail rfl hkind

end Derivation

end Formula
