import Formula.Explorer.Analysis
import Formula.Text.Offset

/-!
# Sessions of the explorer

A session is a line of text with a cursor in it, the analysis of the text, and
what is shown of the analysis. Keys edit the text, move the cursor and the focus,
and scroll. The cursor counts characters, while the text is edited at byte offsets.
-/

namespace Formula

/-- The panes that can have the focus, from left to right. -/
inductive Pane where
  | tokens
  | tree
  | nested
deriving DecidableEq, Repr

namespace Pane

/-- The pane to the right; behind the last comes the first. -/
def next : Pane → Pane
  | tokens => tree
  | tree => nested
  | nested => tokens

/-- The pane to the left; before the first comes the last. -/
def previous : Pane → Pane
  | tokens => nested
  | tree => tokens
  | nested => tree

/-- Going on to the next pane is undone by going back. -/
@[simp] theorem previous_next (pane : Pane) : pane.next.previous = pane := by
  cases pane <;> rfl

/-- Going back to the previous pane is undone by going on. -/
@[simp] theorem next_previous (pane : Pane) : pane.previous.next = pane := by
  cases pane <;> rfl

end Pane

/-- How many lines are scrolled past at the top of each pane. -/
structure Scroll where
  tokens : Nat := 0
  tree : Nat := 0
  nested : Nat := 0
deriving DecidableEq, Repr

/-- The greatest offset. -/
def Scroll.limit : Nat := UInt64.size - 1

/-- Changes the offset of one pane. -/
def Scroll.update (scroll : Scroll) (pane : Pane) (change : Nat → Nat) : Scroll :=
  match pane with
  | .tokens => { scroll with tokens := change scroll.tokens }
  | .tree => { scroll with tree := change scroll.tree }
  | .nested => { scroll with nested := change scroll.nested }

/-- A key that was pressed. -/
inductive Key where
  | char (c : Char) (control : Bool)
  | escape
  | backspace
  | delete
  | left
  | right
  | home
  | ending
  | tab
  | backTab
  | up
  | down
  | other
deriving DecidableEq, Repr

/-- The state of the explorer. -/
structure Session where
  input : String
  /-- How many characters stand before the cursor. -/
  cursor : Nat
  focus : Pane
  scroll : Scroll
  analysis : Analysis
  quit : Bool

namespace Session

/-- A session on a text, with the cursor behind it. -/
def start (input : String) : Session where
  input := input
  cursor := input.length
  focus := .tree
  scroll := {}
  analysis := .ofText input
  quit := false

/-- Where a character begins, counted in bytes; behind the last one the size of the text. -/
def byteIndex (session : Session) (index : Nat) : Nat :=
  (Text.offsets 0 session.input.toList)[index]?.getD session.input.utf8ByteSize

/-- Replaces the text and puts the cursor behind some of its characters. The
panes are shown from the top again. -/
def edit (session : Session) (cursor : Nat) (input : String) : Session :=
  { session with
    input := input
    cursor := cursor
    scroll := {}
    analysis := .ofText input }

/-- Puts a character in at the cursor. -/
def insert? (session : Session) (c : Char) : Option Session :=
  (Text.insertAt? session.input (session.byteIndex session.cursor) c).map
    (session.edit (session.cursor + 1))

/-- Takes the character behind a number of others out and puts the cursor there. -/
def remove? (session : Session) (index : Nat) : Option Session :=
  (Text.removeAt? session.input (session.byteIndex index)).map (session.edit index)

/-- What a key does, unless it edits the text at an offset that is none of a character. -/
def press? (session : Session) : Key → Option Session
  | .escape => some { session with quit := true }
  | .char c control =>
    if c = 'c' ∧ control then some { session with quit := true } else session.insert? c
  | .backspace => if 0 < session.cursor then session.remove? (session.cursor - 1) else some session
  | .delete =>
    if session.cursor < session.input.length then session.remove? session.cursor
    else some session
  | .left => some { session with cursor := session.cursor - 1 }
  | .right => some { session with cursor := min (session.cursor + 1) session.input.length }
  | .home => some { session with cursor := 0 }
  | .ending => some { session with cursor := session.input.length }
  | .tab => some { session with focus := session.focus.next }
  | .backTab => some { session with focus := session.focus.previous }
  | .up => some { session with scroll := session.scroll.update session.focus (· - 1) }
  | .down => some { session with
      scroll := session.scroll.update session.focus fun lines => min (lines + 1) Scroll.limit }
  | .other => some session

/-- What a key does. An edit that is refused leaves everything as it is. -/
def press (session : Session) (key : Key) : Session := (session.press? key).getD session

/-- What keys do one after the other, unless an edit is refused. -/
def pressAll? (session : Session) (keys : List Key) : Option Session := keys.foldlM press? session

/-- What keys do one after the other. -/
def pressAll (session : Session) (keys : List Key) : Session := keys.foldl press session

end Session

end Formula
