import Formula.Expr.Render
import Formula.Proofs.Expr.Written
import Formula.Proofs.Token.Scanning

/-!
# Rendered formulas are scanned piece by piece

The pieces of a rendered tree are the symbols of the tree in order and the parentheses
around compound operands. A formula can contain all literals and names of a well-formed
tree, and its rendering is cut into exactly these pieces.
-/

namespace Formula

/-- The operator that is written for a binary operator. -/
def BinaryOp.operator : BinaryOp → Operator
  | .add => .plus
  | .sub => .minus
  | .mul => .star
  | .div => .slash
  | .pow => .caret

/-- A binary operator and the operator that is written for it have the same symbol. -/
theorem BinaryOp.symbol_eq (op : BinaryOp) : op.symbol = op.operator.symbol := by
  cases op <;> rfl

/-- Between two operands the operator stands for the binary operator. -/
@[simp] theorem BinaryOp.asBinary?_operator (op : BinaryOp) :
    op.operator.asBinary? = some op := by
  cases op <;> rfl

/-- What a token for a name is apart from its place. -/
def namePiece (name : String) : TokenKind × String :=
  (if name.toList.tail.isEmpty then .letter else .identifier, name)

/-- What a token for a prefix operator is apart from its place. -/
def PrefixOp.piece : PrefixOp → TokenKind × String
  | .plus => (.operator, Operator.plus.symbol)
  | .minus => (.operator, Operator.minus.symbol)
  | .apply name => namePiece name

/-- What a token for a literal is apart from its place. -/
def Literal.piece : Literal → TokenKind × String
  | .integer value => (.integer, (Literal.integer value).render)
  | .real value => (.real, (Literal.real value).render)

namespace Expr

/-- The pieces of an operand. -/
def enclosePieces (atom : Bool) (pieces : List (TokenKind × String)) : List (TokenKind × String) :=
  if atom then pieces else (.leftParen, "(") :: (pieces ++ [(.rightParen, ")")])

/-- The pieces of the rendered tree, if its literals are cut in this way. -/
def piecesWith (cut : Literal → List (TokenKind × String)) : Expr → List (TokenKind × String)
  | .literal value => cut value
  | .var name => [namePiece (String.singleton name)]
  | .prefixed op operand => op.piece :: enclosePieces operand.isAtom (operand.piecesWith cut)
  | .postfixed operand .factorial =>
    enclosePieces operand.isAtom (operand.piecesWith cut) ++
      [(.operator, Operator.bang.symbol)]
  | .binary op left right =>
    enclosePieces left.isAtom (left.piecesWith cut) ++
      (.operator, op.operator.symbol) :: enclosePieces right.isAtom (right.piecesWith cut)

/-- The pieces of the rendered tree, one for each literal. -/
abbrev pieces (e : Expr) : List (TokenKind × String) :=
  e.piecesWith fun value => [value.piece]

end Expr

open Scan

variable {rest : List Char}

/-- A name is cut off as one piece. -/
theorem reads_namePiece {name : String} (hname : isName name = true) (h : Stops rest) :
    Reads name.toList [namePiece name] rest := by
  unfold isName at hname
  split at hname
  · cases hname
  · rename_i c others hcons
    obtain ⟨hc, hothers⟩ := Bool.and_eq_true_iff.mp hname
    have hread := reads_name hc (List.all_eq_true.mp hothers) h
    rw [← hcons, String.ofList_toList] at hread
    rwa [namePiece, hcons, List.tail_cons, ← hcons]

/-- A literal is cut off as one piece. -/
theorem reads_literal {value : Literal} (hvalue : value.WellFormed) (h : Stops rest) :
    Reads value.render.toList [value.piece] rest := by
  cases value with
  | integer value =>
    obtain ⟨n, hn⟩ := Int.eq_ofNat_of_zero_le (Int64.le_iff_toInt_le.mp hvalue)
    have hrender : (Literal.integer value).render = Numeral.natural n := by
      rw [Literal.render, hn, Numeral.integer_natCast]
    rw [Literal.piece, hrender, Numeral.natural_toList]
    exact reads_integer hn h
  | real value =>
    obtain ⟨hfinite, hsign⟩ := hvalue
    cases value with
    | nan => cases hfinite
    | infinite negative => cases hfinite
    | finite negative rank =>
      obtain rfl : negative = false := hsign
      obtain ⟨written, hproper, hvalue, htext⟩ :=
        Numeral.Layout.magnitude_eq_text Numeral.formulaReal rfl rank
      have hrender : (Literal.real (.finite false rank)).render = String.ofList written.text := by
        rw [← htext]
        simp [Literal.render, Numeral.Layout.write]
      rw [Literal.piece, hrender, String.toList_ofList]
      exact reads_real hproper (by rw [hvalue]; rfl) h

/-- A text in parentheses is cut into its pieces if it is in front of the closing one. -/
theorem reads_paren {text : String} {pieces : List (TokenKind × String)}
    (h : Reads text.toList pieces (')' :: rest)) :
    Reads ("(" ++ text ++ ")").toList ((.leftParen, "(") :: (pieces ++ [(.rightParen, ")")]))
      rest := by
  have hclosing : Reads text.toList pieces ([')'] ++ rest) := h
  have hinner := hclosing.append (reads_rightParen rest)
  have hread := (reads_leftParen (text.toList ++ [')'] ++ rest)).append hinner
  simpa using hread

/-- An operand is cut into its pieces if it is without parentheses. -/
theorem reads_enclose {text : String} {pieces : List (TokenKind × String)} (atom : Bool)
    (htext : ∀ rest, Stops rest → Reads text.toList pieces rest) (h : Stops rest) :
    Reads (Expr.enclose atom text).toList (Expr.enclosePieces atom pieces) rest := by
  cases atom with
  | true => exact htext rest h
  | false => exact reads_paren (htext _ stops_paren)

/-- A rendered tree is cut into pieces where its literals are. -/
theorem reads_renderWith {e : Expr} {p : Literal → Prop}
    {cut : Literal → List (TokenKind × String)}
    (hcut : ∀ value, p value → ∀ rest, Stops rest → Reads value.render.toList (cut value) rest)
    (hwf : e.WrittenWith p) (h : Stops rest) :
    Reads e.render.toList (e.piecesWith cut) rest := by
  induction e generalizing rest with
  | literal value => exact hcut value hwf rest h
  | var name =>
    have hname : isName (String.singleton name) = true := by
      have halpha : name.isAlpha = true := hwf
      simp [isName, halpha]
    exact reads_namePiece hname h
  | prefixed op operand ih =>
    obtain ⟨hname, hoperand⟩ := hwf
    cases op with
    | apply name =>
      have hread := reads_enclose operand.isAtom (fun rest h => ih hoperand h) h
      have hbehind := reads_space.append hread
      have hbefore := (reads_namePiece hname stops_blank).append hbehind
      simpa [Expr.render, Expr.piecesWith, PrefixOp.piece] using hbefore
    | plus =>
      have hsymbol : PrefixOp.plus.symbol = Operator.plus.symbol := rfl
      have hread := reads_enclose operand.isAtom (fun rest h => ih hoperand h) h
      simpa [Expr.render, Expr.piecesWith, PrefixOp.piece, hsymbol] using
        (reads_operator .plus _).append hread
    | minus =>
      have hsymbol : PrefixOp.minus.symbol = Operator.minus.symbol := rfl
      have hread := reads_enclose operand.isAtom (fun rest h => ih hoperand h) h
      simpa [Expr.render, Expr.piecesWith, PrefixOp.piece, hsymbol] using
        (reads_operator .minus _).append hread
  | postfixed operand op ih =>
    cases op
    have hsymbol : PostfixOp.factorial.symbol = Operator.bang.symbol := rfl
    have hstops : Stops (Operator.bang.symbol.toList ++ rest) := stops_bang
    have hread := reads_enclose operand.isAtom (fun rest h => ih hwf h) hstops
    simpa [Expr.render, Expr.piecesWith, hsymbol] using hread.append (reads_operator .bang rest)
  | binary op left right ihl ihr =>
    obtain ⟨hleft, hright⟩ := hwf
    have hbehind := reads_space.append (reads_enclose right.isAtom (fun rest h => ihr hright h) h)
    have hop := reads_space.append ((reads_operator op.operator _).append hbehind)
    have hread := (reads_enclose left.isAtom (fun rest h => ihl hleft h) stops_blank).append hop
    simpa [Expr.render, Expr.piecesWith, BinaryOp.symbol_eq] using hread

/-- A rendered tree is cut into its pieces. -/
theorem reads_render {e : Expr} (hwf : e.WellFormed) (h : Stops rest) :
    Reads e.render.toList e.pieces rest := by
  exact reads_renderWith (fun _ hvalue _ => reads_literal hvalue) hwf h

/-- A text that is cut into pieces is scanned without a failure, and its tokens are the
pieces. -/
theorem tokenize_of_reads {source : String} {pieces : List (TokenKind × String)}
    (h : Reads source.toList pieces []) : ∃ tokens place,
    tokens.map Token.piece = pieces ∧
      tokenize source = .ok (tokens ++ [⟨.ending, "", place⟩]) := by
  obtain ⟨found, hpieces, htokens⟩ := h Location.start
  refine ⟨found, Location.start.after source.toList, hpieces, ?_⟩
  rw [List.append_nil] at htokens
  rw [tokenize, htokens, Scan.tokens]
  rfl

/-- A rendered tree is scanned without a failure, and its tokens are its pieces. -/
theorem tokenize_render {e : Expr} (hwf : e.WellFormed) : ∃ tokens place,
    tokens.map Token.piece = e.pieces ∧
      tokenize e.render = .ok (tokens ++ [⟨.ending, "", place⟩]) :=
  tokenize_of_reads (reads_render hwf stops_nil)

end Formula
