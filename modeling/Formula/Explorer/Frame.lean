import Formula.Explorer.Panes
import Formula.Explorer.Session
import Formula.Text.Blank

/-!
# Frames of the explorer

A frame shows a session on a screen: the edited line above three panes, and the
status bar in the last row.
-/

namespace Formula

/-- The rectangles of the parts of a frame. -/
structure FrameLayout where
  input : Area
  tokens : Area
  tree : Area
  nested : Area
  status : Area
deriving DecidableEq, Repr

/-- Divides a screen. The edited line has up to three rows; the panes divide the
width at three tenths and seven tenths, rounded to the nearest. -/
def FrameLayout.ofSize (width height : Nat) : FrameLayout :=
  let bar := min height 1
  let top := min 3 (height - bar)
  let middle := height - bar - top
  let first := (3 * width + 5) / 10
  let second := (7 * width + 5) / 10
  { input := ⟨0, 0, width, top⟩
    tokens := ⟨0, top, first, middle⟩
    tree := ⟨first, top, second - first, middle⟩
    nested := ⟨second, top, width - second, middle⟩
    status := ⟨0, top + middle, width, bar⟩ }

/-- A screen with the place of its cursor. -/
structure Frame where
  layer : Layer
  cursor : Nat × Nat

namespace Session

/-- What the status bar says of the session. -/
def status (session : Session) : StatusBar.Status :=
  if isBlankText session.input then .empty
  else
    match session.analysis.outcome with
    | .ok (nodes, depth) => .parsed nodes depth
    | .error error => .failed error.diagnostic

/-- Shows the session on a screen of the given size. Offsets beyond the last page
are drawn back to it. -/
def draw (session : Session) (width height : Nat) : Session × Frame :=
  let layout := FrameLayout.ofSize width height
  let column := session.analysis.errorColumn?
  let tokens := TokensPane.draw layout.tokens session.analysis.tokens
    (session.focus == .tokens) session.scroll.tokens
  let tree := TextPane.draw layout.tree " Tree " session.analysis.tree
    (session.focus == .tree) session.scroll.tree
  let nested := TextPane.draw layout.nested " Nested " session.analysis.nested
    (session.focus == .nested) session.scroll.nested
  let layer := Layer.stack [
    InputPane.draw layout.input session.input column, tokens.1, tree.1, nested.1,
    StatusBar.draw layout.status session.status]
  ({ session with scroll := ⟨tokens.2, tree.2, nested.2⟩ },
    ⟨layer, InputPane.cursorPlace layout.input session.cursor⟩)

end Session

end Formula
