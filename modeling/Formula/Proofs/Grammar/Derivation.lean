import Formula.Parse.Transcript
import Mathlib.Data.List.Forall2

/-!
# Stratified grammars

A precedence table stands for a grammar with one nonterminal for each level. A
level derives what the next tighter level derives, and its own operators applied
to operands; below the tightest level stand numbers, variables and formulas in
parentheses. Derivations are trees of rule applications. The symbols of the tree
that a derivation yields are spelled by its tokens, parentheses left aside.
-/

namespace Formula

/-- What a token other than a parenthesis stands for in a formula. -/
inductive Symbol where
  | literal (value : Literal)
  | var (name : Char)
  | prefixed (op : PrefixOp)
  | postfixed (op : PostfixOp)
  | binary (op : BinaryOp)
deriving DecidableEq, Repr

/-- The literals, variables and operators of a tree from left to right. -/
def Expr.symbols : Expr → List Symbol
  | .literal value => [.literal value]
  | .var name => [.var name]
  | .prefixed op operand => .prefixed op :: operand.symbols
  | .postfixed operand op => operand.symbols ++ [.postfixed op]
  | .binary op left right => left.symbols ++ .binary op :: right.symbols

/-- Each node has one symbol. -/
theorem Expr.length_symbols (e : Expr) : e.symbols.length = e.nodeCount := by
  induction e with
  | literal | var => rfl
  | prefixed op operand ih | postfixed operand op ih =>
    simp [symbols, nodeCount, ih, Nat.add_comm]
  | binary op left right hl hr =>
    simp only [symbols, nodeCount, List.length_append, List.length_cons, hl, hr]
    omega

namespace Token

/-- Whether a token may stand for a symbol: a number token for its value, a name
of one letter for the variable, any name for the application of a function, and
an operator token for what its operator means at that side. -/
def Spells (token : Token) : Symbol → Prop
  | .literal value => token.literal? = some value
  | .var name => token.kind = .letter ∧ token.text.toList.head? = some name
  | .prefixed (.apply name) =>
    (token.kind = .identifier ∨ token.kind = .letter) ∧ token.text = name
  | .prefixed op => token.operator?.bind Operator.asPrefix? = some op
  | .postfixed op => token.operator?.bind Operator.asPostfix? = some op
  | .binary op => token.operator?.bind Operator.asBinary? = some op

/-- Whether a token is a parenthesis. -/
def isParen (token : Token) : Bool := token.kind == .leftParen || token.kind == .rightParen

/-- Only the tokens of operators stand for one. -/
theorem kind_of_operator? {token : Token} {op : Operator} (h : token.operator? = some op) :
    token.kind = .operator := by
  unfold operator? at h
  split at h
  · assumption
  · cases h

/-- Only the tokens of numbers have a value. -/
theorem kind_of_literal? {token : Token} {value : Literal} (h : token.literal? = some value) :
    token.kind = .integer ∨ token.kind = .real := by
  unfold literal? at h
  split at h
  · exact .inl ‹_›
  · exact .inr ‹_›
  · cases h

/-- A sign, a factorial or an infix operator is spelled by an operator token. -/
theorem kind_of_operator?_bind {α : Type} {token : Token} {meaning : Operator → Option α} {op : α}
    (h : token.operator?.bind meaning = some op) : token.kind = .operator := by
  obtain ⟨_, hop, -⟩ := Option.bind_eq_some_iff.mp h
  exact kind_of_operator? hop

/-- A token that spells a symbol is a number, a name or an operator. -/
theorem Spells.kind_mem {token : Token} {symbol : Symbol} (h : token.Spells symbol) :
    token.kind ∈ [.integer, .real, .letter, .identifier, .operator] := by
  cases symbol with
  | literal value => rcases kind_of_literal? h with hk | hk <;> simp [hk]
  | var name => simp [h.1]
  | prefixed op =>
    cases op with
    | apply name => rcases h.1 with hk | hk <;> simp [hk]
    | plus => simp [kind_of_operator?_bind h]
    | minus => simp [kind_of_operator?_bind h]
  | postfixed op => simp [kind_of_operator?_bind h]
  | binary op => simp [kind_of_operator?_bind h]

/-- A token that spells a symbol is no parenthesis. -/
theorem Spells.isParen_eq_false {token : Token} {symbol : Symbol} (h : token.Spells symbol) :
    token.isParen = false := by
  have hkind := h.kind_mem
  cases hk : token.kind <;> simp_all [isParen]

/-- The end of the input spells no symbol. -/
theorem Spells.isEnding_eq_false {token : Token} {symbol : Symbol} (h : token.Spells symbol) :
    token.isEnding = false := by
  have hkind := h.kind_mem
  cases hk : token.kind <;> simp_all [isEnding]

end Token

/-- A derivation of a tree from tokens by the rules of the given levels, loosest
first. Without levels it is a derivation of a primary. All levels stand between
parentheses. -/
inductive Derivation (all : List Level) : List Level → List Token → Expr → Type
  | literal {token : Token} {value : Literal} (spells : token.Spells (.literal value)) :
    Derivation all [] [token] (.literal value)
  | var {token : Token} {name : Char} (spells : token.Spells (.var name)) :
    Derivation all [] [token] (.var name)
  | paren {opening closing : Token} {inner : List Token} {e : Expr}
    (opens : opening.kind = .leftParen) (closes : closing.kind = .rightParen)
    (body : Derivation all all inner e) :
    Derivation all [] (opening :: (inner ++ [closing])) e
  | tighter {level : Level} {rest : List Level} {tokens : List Token} {e : Expr}
    (body : Derivation all rest tokens e) :
    Derivation all (level :: rest) tokens e
  | prefixed {level : Level} {rest : List Level} {token : Token} {tokens : List Token}
    {op : PrefixOp} {e : Expr} (fixity : level.fixity = .prefixOp)
    (member : level.operators.contains token) (spells : token.Spells (.prefixed op))
    (operand : Derivation all (level :: rest) tokens e) :
    Derivation all (level :: rest) (token :: tokens) (.prefixed op e)
  | postfixed {level : Level} {rest : List Level} {token : Token} {tokens : List Token}
    {op : PostfixOp} {e : Expr} (fixity : level.fixity = .postfixOp)
    (member : level.operators.contains token) (spells : token.Spells (.postfixed op))
    (operand : Derivation all (level :: rest) tokens e) :
    Derivation all (level :: rest) (tokens ++ [token]) (.postfixed e op)
  | left {level : Level} {rest : List Level} {token : Token} {before behind : List Token}
    {op : BinaryOp} {l r : Expr} (fixity : level.fixity = .infixOp .left)
    (member : level.operators.contains token) (spells : token.Spells (.binary op))
    (first : Derivation all (level :: rest) before l) (second : Derivation all rest behind r) :
    Derivation all (level :: rest) (before ++ token :: behind) (.binary op l r)
  | right {level : Level} {rest : List Level} {token : Token} {before behind : List Token}
    {op : BinaryOp} {l r : Expr} (fixity : level.fixity = .infixOp .right)
    (member : level.operators.contains token) (spells : token.Spells (.binary op))
    (first : Derivation all rest before l) (second : Derivation all (level :: rest) behind r) :
    Derivation all (level :: rest) (before ++ token :: behind) (.binary op l r)

/-- The loosest level of a grammar derives a tree from tokens. -/
def Grammar.Derives (grammar : Grammar) (tokens : List Token) (e : Expr) : Prop :=
  Nonempty (Derivation grammar.loosestFirst grammar.loosestFirst tokens e)

namespace Derivation

variable {all levels : List Level} {tokens : List Token} {e : Expr}

/-- Nothing is derived from no tokens. -/
theorem tokens_ne_nil (derivation : Derivation all levels tokens e) : tokens ≠ [] := by
  induction derivation with
  | tighter body ih => exact ih
  | _ => simp

/-- There is no end of the input among derived tokens. -/
theorem isEnding_eq_false (derivation : Derivation all levels tokens e) {token : Token}
    (hmem : token ∈ tokens) : token.isEnding = false := by
  induction derivation with
  | literal spells =>
    obtain rfl := List.mem_singleton.mp hmem
    exact spells.isEnding_eq_false
  | var spells =>
    obtain rfl := List.mem_singleton.mp hmem
    exact spells.isEnding_eq_false
  | paren opens closes body ih =>
    rcases List.mem_cons.mp hmem with rfl | hmem
    · simp [Token.isEnding, opens]
    rcases List.mem_append.mp hmem with hmem | hmem
    · exact ih hmem
    · obtain rfl := List.mem_singleton.mp hmem
      simp [Token.isEnding, closes]
  | tighter body ih => exact ih hmem
  | prefixed fixity member spells operand ih =>
    rcases List.mem_cons.mp hmem with rfl | hmem
    · exact spells.isEnding_eq_false
    · exact ih hmem
  | postfixed fixity member spells operand ih =>
    rcases List.mem_append.mp hmem with hmem | hmem
    · exact ih hmem
    · obtain rfl := List.mem_singleton.mp hmem
      exact spells.isEnding_eq_false
  | left fixity member spells first second ihl ihr =>
    rcases List.mem_append.mp hmem with hmem | hmem
    · exact ihl hmem
    rcases List.mem_cons.mp hmem with rfl | hmem
    · exact spells.isEnding_eq_false
    · exact ihr hmem
  | right fixity member spells first second ihl ihr =>
    rcases List.mem_append.mp hmem with hmem | hmem
    · exact ihl hmem
    rcases List.mem_cons.mp hmem with rfl | hmem
    · exact spells.isEnding_eq_false
    · exact ihr hmem

/-- A bound on how many rules are active at once while the tokens are read. A
rule may look for an operand of a name in vain and go down to the primaries. -/
def height {levels : List Level} {tokens : List Token} {e : Expr} :
    Derivation all levels tokens e → Nat
  | .literal _ => 1
  | .var _ => 1
  | .paren _ _ body => body.height + 1
  | @tighter _ _ rest _ _ body => max body.height (rest.length + 2) + 1
  | .prefixed _ _ _ operand => operand.height + 1
  | .postfixed _ _ _ operand => operand.height
  | .left _ _ _ first second => max first.height (second.height + 1)
  | .right _ _ _ first second => max first.height second.height + 1

/-- Looser levels derive all that tighter ones do. -/
def widen (derivation : Derivation all levels tokens e) :
    (looser : List Level) → Derivation all (looser ++ levels) tokens e
  | [] => derivation
  | _ :: looser => .tighter (derivation.widen looser)

/-- Each looser level adds a rule, if the derivation is at least as high as the levels
are many. -/
theorem height_widen_le (derivation : Derivation all levels tokens e) {bound : Nat}
    (h : derivation.height ≤ bound) (hlevels : levels.length + 2 ≤ bound) (looser : List Level) :
    (derivation.widen looser).height ≤ bound + looser.length := by
  induction looser with
  | nil => exact h
  | cons level looser ih =>
    have hlength : (looser ++ levels).length + 2 ≤ bound + looser.length := by
      rw [List.length_append]
      omega
    exact Nat.succ_le_succ (Nat.max_le.mpr ⟨ih, hlength⟩)

/-- The symbols of the tree are the tokens without the parentheses, in order. -/
theorem spells_symbols (derivation : Derivation all levels tokens e) :
    List.Forall₂ Token.Spells (tokens.filter (!·.isParen)) e.symbols := by
  induction derivation with
  | literal spells => simpa [spells.isParen_eq_false, Expr.symbols] using spells
  | var spells => simpa [spells.isParen_eq_false, Expr.symbols] using spells
  | paren opens closes body ih => simpa [Token.isParen, opens, closes] using ih
  | tighter body ih => exact ih
  | prefixed fixity member spells operand ih =>
    simpa [spells.isParen_eq_false, Expr.symbols] using ⟨spells, ih⟩
  | postfixed fixity member spells operand ih =>
    rw [List.filter_append]
    exact List.rel_append ih (by simpa [spells.isParen_eq_false] using spells)
  | left fixity member spells first second ihl ihr =>
    rw [List.filter_append]
    exact List.rel_append ihl (by simpa [spells.isParen_eq_false] using ⟨spells, ihr⟩)
  | right fixity member spells first second ihl ihr =>
    rw [List.filter_append]
    exact List.rel_append ihl (by simpa [spells.isParen_eq_false] using ⟨spells, ihr⟩)

end Derivation

end Formula
