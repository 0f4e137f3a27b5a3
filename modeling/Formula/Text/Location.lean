/-!
# Places in a text

A place is counted three ways: in bytes from the start, in lines, and in
characters within its line. Only a line feed begins a new line.
-/

namespace Formula

/-- A place in a text: a byte offset, a line and a column. Lines and columns
are counted from one. -/
structure Location where
  offset : Nat
  line : Nat
  column : Nat
deriving DecidableEq, Repr, Inhabited

namespace Location

/-- The place before the first character. -/
def start : Location := ⟨0, 1, 1⟩

/-- The place behind a character that stands at this place. -/
def advance (place : Location) (c : Char) : Location :=
  if c = '\n' then ⟨place.offset + c.utf8Size, place.line + 1, 1⟩
  else ⟨place.offset + c.utf8Size, place.line, place.column + 1⟩

/-- The place behind a run of characters that begins at this place. -/
def after (place : Location) (text : List Char) : Location :=
  text.foldl advance place

/-- Nothing leaves a place where it is. -/
@[simp] theorem after_nil (place : Location) : place.after [] = place := rfl

/-- The place behind a text is reached one character after the other. -/
@[simp] theorem after_cons (place : Location) (c : Char) (text : List Char) :
    place.after (c :: text) = (place.advance c).after text := rfl

/-- The place behind two texts is that of the second one behind the first one. -/
theorem after_append (place : Location) (left right : List Char) :
    place.after (left ++ right) = (place.after left).after right := by
  simp [after]

end Location

end Formula
