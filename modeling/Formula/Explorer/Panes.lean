import Formula.Explorer.Analysis
import Formula.Explorer.Palette

/-!
# Panes of the explorer

Each pane is drawn into a rectangle. Panes that scroll also say which offset they
used, since the last page of their lines is kept full.
-/

namespace Formula

/-- Text in one color. -/
def Color.ink (color : Color) : Style := { fg := some color }

namespace InputPane

/-- The look of the character at fault. -/
def errorStyle : Style where
  fg := some .black
  bg := some Palette.error
  bold := true

/-- The characters of a text, counted from a column on. -/
def charSpans (errorColumn : Option Nat) (column : Nat) : List Char → List Span
  | [] => if errorColumn = some column then [⟨" ", errorStyle⟩] else []
  | c :: text =>
    ⟨String.singleton c, if errorColumn = some column then errorStyle else Palette.text.ink⟩ ::
      charSpans errorColumn (column + 1) text

/-- The text with the column at fault marked. A column right behind the text is
marked by a blank. -/
def spans (input : String) (errorColumn : Option Nat) : List Span :=
  charSpans errorColumn 1 input.toList

/-- The column of the screen for a cursor, kept left of the border. Cursors are
counted in sixteen bits. -/
def cursorColumn (area : Area) (cursor : Nat) : Nat :=
  area.x + 1 + min (cursor % UInt16.size) (area.width - 2)

/-- The place of the screen for a cursor. -/
def cursorPlace (area : Area) (cursor : Nat) : Nat × Nat :=
  (cursorColumn area cursor, area.y + 1)

/-- The line that is edited, in a border that tells whether it has a tree. -/
def draw (area : Area) (input : String) (errorColumn : Option Nat) : Layer :=
  let color := if errorColumn.isSome then Palette.error else Palette.success
  Layer.stack [
    Layer.border area color.ink " Expression ",
    Layer.line area.inside 0 (spans input errorColumn)]

end InputPane

namespace ListPane

/-- The border of a pane with or without the focus. -/
def borderStyle (focused : Bool) : Style :=
  if focused then { fg := some Palette.focusedBorder, bold := true } else Palette.plainBorder.ink

/-- How many items a pane of the given height shows, at least one. -/
def visible (height : Nat) : Nat := max (height - 2) 1

/-- The offset that is used in place of a wanted one. -/
def clamp (total height scroll : Nat) : Nat :=
  if visible height < total then min scroll (total - visible height) else 0

/-- A remark in place of a list. -/
def drawRemark (area : Area) (title : String) (focused : Bool) (color : Color) (text : String) :
    Layer :=
  Layer.stack [
    Layer.fill area color.ink,
    Layer.border area (borderStyle focused) title,
    Layer.line area.inside 0 [⟨text, {}⟩]]

/-- Items below each other, each in a row of its own. -/
def drawItems (area : Area) (title : String) (focused : Bool) (rowStyle : Style)
    (items : List (List Span)) : Layer :=
  let inside := area.inside.padded
  Layer.stack (Layer.border area (borderStyle focused) title ::
    items.zipIdx.map fun (item, index) =>
      let row := inside.row index
      Layer.stack [Layer.fill row rowStyle, Layer.line row 0 item])

/-- The items that are shown at an offset. -/
def page {α : Type} (height scroll : Nat) (items : List α) : List α :=
  (items.drop scroll).take (visible height)

end ListPane

namespace TextPane

/-- Lines in a pane with a title, and the offset that was used. -/
def draw (area : Area) (title : String) (lines : List String) (focused : Bool) (scroll : Nat) :
    Layer × Nat :=
  if lines.isEmpty then
    (ListPane.drawRemark area title focused Palette.comment "(nothing parsed)", scroll)
  else
    let offset := ListPane.clamp lines.length area.height scroll
    let shown := (ListPane.page area.height offset lines).map fun line => [Span.mk line {}]
    (ListPane.drawItems area title focused Palette.text.ink shown, offset)

end TextPane

namespace TokensPane

/-- The color of a kind of tokens. -/
def kindColor : TokenKind → Color
  | .integer => Palette.number
  | .real => Palette.number
  | .letter => Palette.letter
  | .identifier => Palette.function
  | .operator => Palette.operator
  | .leftParen => Palette.text
  | .rightParen => Palette.text
  | .ending => Palette.comment

/-- A token with its offset and its kind. -/
def item (token : Token) : List Span := [
  ⟨Text.padStart 3 (Numeral.natural token.location.offset) ++ " ", Palette.comment.ink⟩,
  ⟨Text.padEnd 10 token.kind.name ++ " ", (kindColor token.kind).ink⟩,
  ⟨token.text, Palette.text.ink⟩]

/-- The tokens or the failure to scan, and the offset that was used. -/
def draw (area : Area) (tokens : Except LexError (List Token)) (focused : Bool) (scroll : Nat) :
    Layer × Nat :=
  match tokens with
  | .error error =>
    (ListPane.drawRemark area " Tokens " focused Palette.error error.message, scroll)
  | .ok list =>
    let offset := ListPane.clamp list.length area.height scroll
    let shown := (ListPane.page area.height offset list).map item
    (ListPane.drawItems area " Tokens " focused {} shown, offset)

end TokensPane

namespace StatusBar

/-- What the status bar says of a formula. -/
inductive Status where
  | empty
  | parsed (nodes depth : Nat)
  | failed (diagnostic : Diagnostic)

/-- The badge of a status with its color. -/
def badge : Status → String × Color
  | .empty => (" EMPTY ", Palette.comment)
  | .parsed _ _ => (" OK ", Palette.success)
  | .failed diagnostic =>
    match diagnostic.stage with
    | .scanner => (" LEX ERROR ", Palette.error)
    | .parser => (" PARSE ERROR ", Palette.error)

/-- The status in words. -/
def message : Status → String
  | .empty => "type an expression"
  | .parsed nodes depth =>
    Numeral.natural nodes ++ " nodes, depth " ++ Numeral.natural depth
  | .failed diagnostic =>
    "col " ++ Numeral.natural diagnostic.location.column ++ ": " ++ diagnostic.detail

/-- The keys that the status bar explains. -/
def help : String := " Tab: focus  ↑↓: scroll  Esc: quit "

/-- Text in one color on the ground of the status bar. -/
def onGround (color : Color) : Style where
  fg := some color
  bg := some Palette.statusGround

/-- Badge and message, with a bar between them. -/
def spans (status : Status) : List Span := [
  ⟨(badge status).1, { fg := some .black, bg := some (badge status).2, bold := true }⟩,
  ⟨" | ", onGround Palette.comment⟩,
  ⟨" " ++ message status ++ " ", onGround Palette.text⟩]

/-- The width of the left part of the bar, six tenths rounded to the nearest. -/
def leftWidth (width : Nat) : Nat := (6 * width + 5) / 10

/-- The status on the left and the keys on the right. -/
def draw (area : Area) (status : Status) : Layer :=
  let width := leftWidth area.width
  let left : Area := { area with width := width }
  let right : Area := { area with x := area.x + width, width := area.width - width }
  let ground : Style := { bg := some Palette.statusGround }
  Layer.stack [
    Layer.fill left ground,
    Layer.line left 0 (spans status),
    Layer.fill right ground,
    Layer.line right (right.width - help.length) [⟨help, onGround Palette.comment⟩]]

end StatusBar

end Formula
