import Formula.Nested
import Formula.Proofs.Expr.Written

/-!
# Trees and nested sequences are inverse

The nested sequences of a tree are read back as the tree if its variables are letters
and its functions have names. Whatever is read as a tree is the nested form of this
tree, so that no two nested sequences are read alike.
-/

namespace Formula

/-- A text is an operator only if it is the symbol of the operator. -/
theorem Operator.eq_symbol_of_ofText? {text : String} {op : Operator}
    (h : ofText? text = some op) : text = op.symbol := by
  unfold ofText? at h
  split at h
  · rename_i c hc
    obtain rfl := ofChar?_eq_some_iff.mp h
    rw [← String.ofList_toList (s := text), hc]
    rfl
  · cases h

/-- A letter is no operator. -/
theorem Operator.ofChar?_of_isAlpha {c : Char} (h : c.isAlpha = true) : ofChar? c = none := by
  cases hop : ofChar? c with
  | none => rfl
  | some op =>
    obtain rfl := ofChar?_eq_some_iff.mp hop
    cases op <;> cases h

/-- A name is no operator. -/
theorem Operator.ofText?_of_isName {text : String} (h : isName text = true) :
    ofText? text = none := by
  unfold isName at h
  split at h
  · cases h
  · rename_i c rest htext
    obtain ⟨hc, -⟩ := Bool.and_eq_true_iff.mp h
    rw [ofText?, htext]
    cases rest with
    | nil => exact ofChar?_of_isAlpha hc
    | cons next rest => rfl

namespace Nested

variable {text : String} {n m : Nested} {e : Expr}

/-- A symbol has its own text. -/
@[simp] theorem symbol?_symbol (text : String) : (symbol text).symbol? = some text := rfl

/-- Only the symbol with a text has this text. -/
theorem eq_symbol_of_symbol? (h : n.symbol? = some text) : n = symbol text := by
  cases n with
  | symbol own =>
    cases h
    rfl
  | _ => cases h

/-- The symbol of a binary operator is read as the operator. -/
theorem binaryOp?_symbol (op : BinaryOp) : binaryOp? op.symbol = some op := by
  cases op <;> rfl

/-- A symbol is read as a binary operator only if it is the symbol of the operator. -/
theorem eq_symbol_of_binaryOp? {op : BinaryOp} (h : binaryOp? text = some op) :
    text = op.symbol := by
  obtain ⟨sign, hsign, hop⟩ := Option.bind_eq_some_iff.mp h
  obtain rfl := Operator.eq_symbol_of_ofText? hsign
  cases sign <;> cases hop <;> rfl

/-- The symbol of a prefix operator with a proper name is read as the operator. -/
theorem prefixOp?_symbol {op : PrefixOp} (h : op.ProperlyNamed) :
    prefixOp? op.symbol = some op := by
  cases op with
  | apply name =>
    have hname : isName name = true := h
    simp [prefixOp?, PrefixOp.symbol, Operator.ofText?_of_isName hname, hname]
  | plus => rfl
  | minus => rfl

/-- A symbol is read as a prefix operator only if it is the symbol of the operator. -/
theorem eq_symbol_of_prefixOp? {op : PrefixOp} (h : prefixOp? text = some op) :
    text = op.symbol ∧ op.ProperlyNamed := by
  unfold prefixOp? at h
  split at h
  · rename_i sign hsign
    obtain rfl := Operator.eq_symbol_of_ofText? hsign
    cases sign <;> cases h <;> exact ⟨rfl, trivial⟩
  · split at h
    · rename_i hname
      cases h
      exact ⟨rfl, hname⟩
    · cases h

/-- A letter is read as a variable. -/
theorem letter?_singleton {name : Char} (h : name.isAlpha = true) :
    letter? (String.singleton name) = some name := by
  simp [letter?, h]

/-- Only a letter is read as a variable. -/
theorem eq_singleton_of_letter? {name : Char} (h : letter? text = some name) :
    text = String.singleton name ∧ name.isAlpha = true := by
  unfold letter? at h
  split at h
  · rename_i c hc
    split at h
    · rename_i halpha
      cases h
      refine ⟨?_, halpha⟩
      rw [← String.ofList_toList (s := text), hc]
      rfl
    · cases h
  · cases h

/-- The nested form of a tree is a factorial sign for no tree with proper names. -/
theorem symbol?_toNested_ne (h : e.ProperlyNamed) :
    e.toNested.symbol? ≠ some PostfixOp.factorial.symbol := by
  cases e with
  | var name =>
    intro hsymbol
    have hname : name.isAlpha = true := h
    have hbang : String.singleton name = "!" := Option.some.inj hsymbol
    obtain rfl : name = '!' := by simpa using congrArg String.toList hbang
    cases hname
  | _ => nofun

/-- The nested form of a tree with proper names is read as the tree. -/
theorem toExpr_toNested (h : e.ProperlyNamed) : e.toNested.toExpr = .ok e := by
  induction e with
  | literal value => rfl
  | var name =>
    have hletter := letter?_singleton h
    simp [Expr.toNested, toExpr, hletter]
  | prefixed op operand ih =>
    obtain ⟨hop, hoperand⟩ := h
    have hsecond := symbol?_toNested_ne hoperand
    have hread := prefixOp?_symbol hop
    simp [Expr.toNested, toExpr, hsecond, hread, ih hoperand, bind, Except.bind]
  | postfixed operand op ih =>
    cases op
    simp [Expr.toNested, toExpr, ih h, bind, Except.bind]
  | binary op left right ihl ihr =>
    obtain ⟨hleft, hright⟩ := h
    have hread := binaryOp?_symbol op
    simp [Expr.toNested, toExpr, hread, ihl hleft, ihr hright, bind, Except.bind]

/-- A computation succeeds only if its first part does. -/
theorem exists_of_bind_eq_ok {ε α β : Type} {first : Except ε α} {next : α → Except ε β} {b : β}
    (h : (first >>= next) = .ok b) : ∃ a, first = .ok a ∧ next a = .ok b := by
  cases first with
  | error error => cases h
  | ok a => exact ⟨a, rfl, h⟩

/-- What is read as a tree is the nested form of the tree, and its names are proper. -/
theorem toNested_of_toExpr (h : n.toExpr = .ok e) : e.toNested = n ∧ e.ProperlyNamed := by
  fun_induction toExpr n generalizing e with
  | case1 value =>
    cases h
    exact ⟨rfl, trivial⟩
  | case2 text name hname =>
    cases h
    obtain ⟨rfl, halpha⟩ := eq_singleton_of_letter? hname
    exact ⟨rfl, halpha⟩
  | case6 left middle right text hmiddle op hop ihl ihr =>
    obtain ⟨l, hl, h⟩ := exists_of_bind_eq_ok h
    obtain ⟨r, hr, h⟩ := exists_of_bind_eq_ok h
    cases h
    obtain ⟨hleft, hleftNames⟩ := ihl hl
    obtain ⟨hright, hrightNames⟩ := ihr hr
    obtain rfl := eq_symbol_of_binaryOp? hop
    rw [Expr.toNested, hleft, hright, eq_symbol_of_symbol? hmiddle]
    exact ⟨rfl, hleftNames, hrightNames⟩
  | case7 first second hbang ih =>
    obtain ⟨operand, hoperand, h⟩ := exists_of_bind_eq_ok h
    cases h
    obtain ⟨hfirst, hnames⟩ := ih hoperand
    rw [Expr.toNested, hfirst, eq_symbol_of_symbol? hbang]
    exact ⟨rfl, hnames⟩
  | case10 first second hbang text hfirst op hop ih =>
    obtain ⟨operand, hoperand, h⟩ := exists_of_bind_eq_ok h
    cases h
    obtain ⟨hsecond, hnames⟩ := ih hoperand
    obtain ⟨rfl, hopNamed⟩ := eq_symbol_of_prefixOp? hop
    rw [Expr.toNested, hsecond, eq_symbol_of_symbol? hfirst]
    exact ⟨rfl, hopNamed, hnames⟩
  -- In the other cases the sequences are refused.
  | _ => cases h

end Nested

/-- A tree that is read from nested sequences has these as its nested form. A tree is
read back from its nested form if and only if its variables are letters and its
functions have names. So reading is injective, and it succeeds on the nested forms of
trees with proper names only. -/
theorem toExpr_inverse_toNested :
    (∀ (n : Nested) (e : Expr), n.toExpr = .ok e → e.toNested = n) ∧
    (∀ e : Expr, (∃ other, e.toNested.toExpr = .ok other ∧ other = e) ↔ e.ProperlyNamed) ∧
    (∀ (n m : Nested) (e : Expr), n.toExpr = .ok e → m.toExpr = .ok e → n = m) ∧
    ∀ n : Nested, (∃ e, n.toExpr = .ok e) ↔ ∃ e : Expr, e.ProperlyNamed ∧ e.toNested = n := by
  refine ⟨fun n e h => (Nested.toNested_of_toExpr h).1, fun e => ⟨?_, fun hnames => ?_⟩,
    fun n m e hn hm => ?_, fun n => ⟨?_, ?_⟩⟩
  · rintro ⟨other, hother, rfl⟩
    exact (Nested.toNested_of_toExpr hother).2
  · exact ⟨e, Nested.toExpr_toNested hnames, rfl⟩
  · exact (Nested.toNested_of_toExpr hn).1.symm.trans (Nested.toNested_of_toExpr hm).1
  · rintro ⟨e, h⟩
    obtain ⟨hform, hnames⟩ := Nested.toNested_of_toExpr h
    exact ⟨e, hnames, hform⟩
  · rintro ⟨e, hnames, rfl⟩
    exact ⟨e, Nested.toExpr_toNested hnames⟩

/-- The factorial of a function value is read from its nested form and has it back. A
sign in front of a variable that is written as an exclamation mark is not read back. -/
theorem toExpr_inverse_toNested_sine :
    let n : Nested := .sequence [.sequence [.symbol "sin", .symbol "x"], .symbol "!"]
    let e : Expr := .postfixed (.prefixed (.apply "sin") (.var 'x')) .factorial
    let signed : Expr := .prefixed .plus (.var '!')
    n.toExpr = .ok e ∧ e.toNested = n ∧ e.ProperlyNamed ∧ (∀ m : Nested, m.toExpr = .ok e → m = n) ∧
      ¬ ∃ other, signed.toNested.toExpr = .ok other ∧ other = signed := by
  intro n e signed
  obtain ⟨hform, hproper, hinjective, hrange⟩ := toExpr_inverse_toNested
  have hread : n.toExpr = .ok e := rfl
  have hback : e.toNested = n := hform n e hread
  refine ⟨hread, hback, ?_, fun m hm => hinjective m n e hm hread, fun hsigned => ?_⟩
  · exact (hproper e).mp ⟨e, by rw [hback, hread], rfl⟩
  · obtain ⟨-, hbang⟩ := (hproper signed).mp hsigned
    cases hbang

end Formula
