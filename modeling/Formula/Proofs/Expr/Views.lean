import Formula.Proofs.Expr.Outline
import Formula.Proofs.Expr.RoundTrip
import Formula.Proofs.Json.RoundTrip
import Formula.Proofs.Nested.Parsed
import Formula.Proofs.Token.Parens

/-!
# The views of a tree agree on its size

A tree is shown as nested sequences, as an outline and as a formula. Each node is one atom of
the sequences, one line of the outline and one token of the formula. The parentheses of the
formula are balanced. They stand around the compound operands, so that there are as many pairs.
-/

namespace Formula

namespace Nested

mutual

/-- The number of numbers and symbols in nested sequences. -/
def atomCount : Nested → Nat
  | number _ => 1
  | symbol _ => 1
  | sequence items => itemAtomCount items

/-- The number of numbers and symbols in the items. -/
def itemAtomCount : List Nested → Nat
  | [] => 0
  | item :: items => item.atomCount + itemAtomCount items

end

/-- Each node is an atom of the nested form. -/
theorem atomCount_toNested (e : Expr) : e.toNested.atomCount = e.nodeCount := by
  induction e with
  | literal | var => rfl
  | prefixed op operand ih | postfixed operand op ih =>
    simp [Expr.toNested, atomCount, itemAtomCount, Expr.nodeCount, ih, Nat.add_comm]
  | binary op left right ihl ihr =>
    simp only [Expr.toNested, atomCount, itemAtomCount, Expr.nodeCount, ihl, ihr]
    omega

end Nested

/-- What a token for a symbol is apart from its place. -/
def Symbol.piece : Symbol → TokenKind × String
  | .literal value => value.piece
  | .var name => namePiece (String.singleton name)
  | .prefixed op => op.piece
  | .postfixed .factorial => (.operator, Operator.bang.symbol)
  | .binary op => (.operator, op.operator.symbol)

/-- The piece of a name is no parenthesis. -/
@[simp] theorem paren?_namePiece (name : String) : (namePiece name).1.paren? = none := by
  unfold namePiece
  split <;> rfl

/-- The piece of a literal is no parenthesis. -/
@[simp] theorem Literal.paren?_piece (value : Literal) : value.piece.1.paren? = none := by
  cases value <;> rfl

/-- The piece of a prefix operator is no parenthesis. -/
@[simp] theorem PrefixOp.paren?_piece (op : PrefixOp) : op.piece.1.paren? = none := by
  cases op with
  | plus | minus => rfl
  | apply name => exact paren?_namePiece name

namespace Expr

variable {e : Expr}

/-- An outline has as many lines as the tree has nodes. -/
theorem length_lines_outline (h : e.ProperlyNamed) :
    (Text.lines e.outline).length = e.nodeCount := by
  have hlines : Text.endedLines (Text.pieces e.outline.toList) =
      (e.outlineLines.map String.toList).map Text.dropReturn := by
    rw [pieces_outline h, Text.endedLines_append (List.cons_ne_nil _ _)]
    exact List.append_nil _
  rw [Text.lines, hlines, List.length_map, List.length_map, List.length_map, outlineLines_eq_map,
    List.length_map, length_preorder]

/-- The pairs of parentheses around an operand, and within it. -/
def enclosed (atom : Bool) (brackets : DyckWord) : DyckWord :=
  if atom then brackets else brackets.nest

/-- The parentheses in the formula of the tree. -/
def brackets : Expr → DyckWord
  | literal _ => 0
  | var _ => 0
  | prefixed _ operand => enclosed operand.isAtom operand.brackets
  | postfixed operand _ => enclosed operand.isAtom operand.brackets
  | binary _ left right =>
    enclosed left.isAtom left.brackets + enclosed right.isAtom right.brackets

/-- The number of operands that are no atoms. -/
def compoundOperands : Expr → Nat
  | literal _ => 0
  | var _ => 0
  | prefixed _ operand => (!operand.isAtom).toNat + operand.compoundOperands
  | postfixed operand _ => (!operand.isAtom).toNat + operand.compoundOperands
  | binary _ left right =>
    (!left.isAtom).toNat + left.compoundOperands +
      ((!right.isAtom).toNat + right.compoundOperands)

/-- An operand that is no atom adds one pair. -/
theorem semilength_enclosed (atom : Bool) (brackets : DyckWord) :
    (enclosed atom brackets).semilength = (!atom).toNat + brackets.semilength := by
  cases atom <;> simp [enclosed, Nat.add_comm]

/-- There is a pair for each compound operand. -/
theorem semilength_brackets (e : Expr) : e.brackets.semilength = e.compoundOperands := by
  induction e with
  | literal | var => rfl
  | prefixed op operand ih | postfixed operand op ih =>
    rw [brackets, semilength_enclosed, ih, compoundOperands]
  | binary op left right ihl ihr =>
    rw [brackets, DyckWord.semilength_add, semilength_enclosed, semilength_enclosed, ihl, ihr,
      compoundOperands]

/-- Without the parentheses, an operand has the same pieces whether it is enclosed or not. -/
theorem filter_enclosePieces (atom : Bool) (pieces : List (TokenKind × String)) :
    (enclosePieces atom pieces).filter (fun piece => piece.1.paren?.isNone) =
      pieces.filter fun piece => piece.1.paren?.isNone := by
  cases atom <;> simp [enclosePieces]

/-- Without the parentheses, the pieces are those of the symbols in order. -/
theorem filter_pieces (e : Expr) :
    e.pieces.filter (fun piece => piece.1.paren?.isNone) = e.symbols.map Symbol.piece := by
  induction e with
  | literal | var => simp [piecesWith, symbols, Symbol.piece]
  | prefixed op operand ih => simp [piecesWith, symbols, Symbol.piece, filter_enclosePieces, ih]
  | postfixed operand op ih =>
    cases op
    simp [piecesWith, symbols, Symbol.piece, filter_enclosePieces, ih]
  | binary op left right ihl ihr =>
    simp [piecesWith, symbols, Symbol.piece, List.filter_cons, filter_enclosePieces, ihl, ihr]

/-- The parentheses around an operand enclose those within it. -/
theorem filterMap_enclosePieces {pieces : List (TokenKind × String)} {brackets : DyckWord}
    (atom : Bool) (h : pieces.filterMap (fun piece => piece.1.paren?) = brackets.toList) :
    (enclosePieces atom pieces).filterMap (fun piece => piece.1.paren?) =
      (enclosed atom brackets).toList := by
  cases atom <;> simp [enclosePieces, enclosed, h, DyckWord.nest]

/-- The parentheses among the pieces are balanced. -/
theorem filterMap_pieces (e : Expr) :
    e.pieces.filterMap (fun piece => piece.1.paren?) = e.brackets.toList := by
  induction e with
  | literal | var =>
    simp only [piecesWith, List.filterMap_cons, Literal.paren?_piece, paren?_namePiece]
    rfl
  | prefixed op operand ih =>
    rw [pieces, piecesWith, List.filterMap_cons, PrefixOp.paren?_piece,
      filterMap_enclosePieces _ ih]
    rfl
  | postfixed operand op ih =>
    cases op
    rw [pieces, piecesWith, List.filterMap_append, filterMap_enclosePieces _ ih]
    exact List.append_nil _
  | binary op left right ihl ihr =>
    rw [pieces, piecesWith, List.filterMap_append, List.filterMap_cons, TokenKind.paren?_operator,
      filterMap_enclosePieces _ ihl, filterMap_enclosePieces _ ihr]
    rfl

end Expr

/-- The views of a tree agree on its size, however deep it is. Each node of a well-formed tree is
one atom of its nested form, one line of its outline, and one token of its formula. The tokens in
front of the end of the input are the pieces of the tree, where a pair of parentheses stands
around each operand that is no atom; without the parentheses they are the literals, variables and
operators of the tree in order. The parentheses of the formula are balanced, and there are as many
pairs as operands that are no atoms. The tree is one higher than the sequences that are open at
once in the nested form. -/
theorem views_agree (e : Expr) (hwf : e.WellFormed) :
    e.toNested.atomCount = e.nodeCount ∧
    (Text.lines e.outline).length = e.nodeCount ∧
    (∃ tokens, tokenize e.render = .ok tokens ∧
      (Token.beforeEnding tokens).map Token.piece = e.pieces ∧
      let named := tokens.filter fun token => !token.isParen && !token.isEnding
      named.length = e.nodeCount ∧ named.map Token.piece = e.symbols.map Symbol.piece ∧
        List.Forall₂ Token.Spells named e.symbols) ∧
    (∃ word : DyckWord, Text.parens e.render.toList = word.toList ∧
      word.semilength = e.compoundOperands) ∧
    e.depth = 1 + e.toNested.nesting := by
  obtain ⟨lexemes, place, hpieces, htokens⟩ := tokenize_render hwf
  obtain ⟨derivation, -⟩ := derivedWithin_pieces hwf hpieces
  have hnamed : (lexemes ++ [(⟨.ending, "", place⟩ : Token)]).filter
      (fun token => !token.isParen && !token.isEnding) = lexemes.filter (!·.isParen) := by
    rw [List.filter_append, List.filter_congr fun token hmem => by
      rw [isEnding_of_tokenize htokens token hmem]]
    simp [Token.isEnding]
  have hspelled : (lexemes.filter (!·.isParen)).map Token.piece = e.symbols.map Symbol.piece := by
    rw [← Expr.filter_pieces, ← hpieces, List.filter_map]
    exact congrArg _ (List.filter_congr fun token _ => by simp [token.isParen_eq, Token.piece])
  refine ⟨Nested.atomCount_toNested e, Expr.length_lines_outline hwf.properlyNamed,
    ⟨_, htokens, ?_⟩, ⟨e.brackets, ?_, e.semilength_brackets⟩, ?_⟩
  · rw [beforeEnding_of_tokenize htokens, hnamed]
    refine ⟨hpieces, ?_, hspelled, derivation.spells_symbols⟩
    rw [← List.length_map Token.piece, hspelled, List.length_map, Expr.length_symbols]
  · rw [parens_of_tokenize htokens, ← Expr.filterMap_pieces, ← hpieces, List.filterMap_map,
      List.filterMap_append]
    exact List.append_nil _
  · rw [← Nested.nesting_toNested, Nat.add_comm]

/-- The product of a function value and the factorial of a power of one half: seven nodes in four
levels, with parentheses around the two factors and around the power. -/
theorem views_agree_product :
    let half : Binary64 := .finite false ⟨1022 * 2 ^ 52, by decide⟩
    let e : Expr := .binary .mul (.prefixed (.apply "sin") (.var 'x'))
      (.postfixed (.binary .pow (.literal (.real half)) (.var 'y')) .factorial)
    e.WellFormed ∧ e.toNested.atomCount = 7 ∧ (Text.lines e.outline).length = 7 ∧
      (∃ tokens, tokenize e.render = .ok tokens ∧
        (Token.beforeEnding tokens).map Token.piece = e.pieces ∧
        (tokens.filter fun token => !token.isParen && !token.isEnding).length = 7) ∧
      (∃ word : DyckWord, Text.parens e.render.toList = word.toList ∧ word.semilength = 3) ∧
      e.depth = 4 ∧ e.toNested.nesting = 3 := by
  intro half e
  have hwf : e.WellFormed := by decide
  obtain ⟨hatoms, hlines, ⟨tokens, htokens, hpieces, hlength, -⟩, ⟨word, hword, hpairs⟩, -⟩ :=
    views_agree e hwf
  exact ⟨hwf, hatoms, hlines, ⟨tokens, htokens, hpieces, hlength⟩, ⟨word, hword, hpairs⟩, rfl, rfl⟩

end Formula
