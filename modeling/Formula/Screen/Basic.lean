/-!
# Screens

A screen is a grid of cells that layers are drawn over. A layer says what becomes
of the cell in each column and row, so that drawing outside the grid does nothing
and of two layers the later one prevails.
-/

namespace Formula

/-- A color of a cell. -/
inductive Color where
  | standard
  | black
  | rgb (red green blue : Nat)
deriving DecidableEq, Repr

/-- What a layer sets of the look of a cell. What it does not name stays. -/
structure Style where
  fg : Option Color := none
  bg : Option Color := none
  bold : Bool := false
deriving DecidableEq, Repr

/-- A place of a screen with its character and its look. -/
structure Cell where
  char : Char := ' '
  fg : Color := .standard
  bg : Color := .standard
  bold : Bool := false
deriving DecidableEq, Repr

namespace Cell

/-- The cell with the look of a style. -/
def withStyle (cell : Cell) (style : Style) : Cell :=
  { cell with
    fg := style.fg.getD cell.fg
    bg := style.bg.getD cell.bg
    bold := cell.bold || style.bold }

/-- The cell with another character, in the look of a style. -/
def put (cell : Cell) (char : Char) (style : Style) : Cell :=
  { cell with char := char }.withStyle style

end Cell

/-- A piece of text in one look. -/
structure Span where
  text : String
  style : Style
deriving DecidableEq, Repr

/-- The characters of spans with their look. Line feeds take no cell. -/
def Span.glyphs (spans : List Span) : List (Char × Style) :=
  spans.flatMap fun span => (span.text.toList.filter (· != '\n')).map (·, span.style)

/-- A rectangle of a screen. -/
structure Area where
  x : Nat
  y : Nat
  width : Nat
  height : Nat
deriving DecidableEq, Repr

namespace Area

/-- Whether a place lies in the rectangle. -/
def contains (area : Area) (x y : Nat) : Bool :=
  area.x ≤ x && x < area.x + area.width && area.y ≤ y && y < area.y + area.height

/-- Whether the rectangle has no place. -/
def isEmpty (area : Area) : Bool := area.width == 0 || area.height == 0

/-- The rectangle without its outermost cells. -/
def inside (area : Area) : Area :=
  ⟨area.x + 1, area.y + 1, area.width - 2, area.height - 2⟩

/-- The rectangle without its leftmost column. -/
def padded (area : Area) : Area := ⟨area.x + 1, area.y, area.width - 1, area.height⟩

/-- A row of the rectangle, counted from zero at the top. -/
def row (area : Area) (index : Nat) : Area :=
  ⟨area.x, area.y + index, area.width, if index < area.height then 1 else 0⟩

end Area

/-- What becomes of the cell in a column and row. -/
abbrev Layer := Nat → Nat → Cell → Cell

namespace Layer

/-- Layers drawn one after the other. -/
def stack (layers : List Layer) : Layer := fun x y cell =>
  layers.foldl (fun cell layer => layer x y cell) cell

/-- A rectangle in the look of a style. -/
def fill (area : Area) (style : Style) : Layer := fun x y cell =>
  if area.contains x y then cell.withStyle style else cell

/-- A line of text in the first row of a rectangle, from an offset on. What does
not fit is cut off. -/
def line (area : Area) (offset : Nat) (spans : List Span) : Layer := fun x y cell =>
  if area.contains x y && y == area.y && area.x + offset ≤ x then
    match (Span.glyphs spans)[x - (area.x + offset)]? with
    | some (char, style) => cell.put char style
    | none => cell
  else cell

/-- The border character at a place of a rectangle. Where a rectangle is so small
that sides fall together, corners prevail, and the upper left ones over others. -/
def borderChar? (area : Area) (x y : Nat) : Option Char :=
  let left := x == area.x
  let top := y == area.y
  let right := x + 1 == area.x + area.width
  let bottom := y + 1 == area.y + area.height
  if !area.contains x y then none
  else if left && top then some '┌'
  else if left && bottom then some '└'
  else if right && top then some '┐'
  else if right && bottom then some '┘'
  else if top || bottom then some '─'
  else if left || right then some '│'
  else none

/-- A border along the edge of a rectangle with a title in its upper side. -/
def border (area : Area) (style : Style) (title : String) : Layer :=
  stack [
    fun x y cell =>
      match borderChar? area x y with
      | some char => cell.put char style
      | none => cell,
    line ⟨area.x + 1, area.y, area.width - 2, area.height⟩ 0 [⟨title, {}⟩]]

/-- The cells of a screen of the given size with a layer drawn on it. -/
def cells (layer : Layer) (width height : Nat) : List (List Cell) :=
  (List.range height).map fun y => (List.range width).map fun x => layer x y {}

end Layer

end Formula
