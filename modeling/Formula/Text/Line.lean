/-!
# Lines and columns of text

Texts are cut into lines at line feeds and set in columns of a given width.
-/

namespace Formula

namespace Text

/-- Cuts at every line feed. A text that ends in one has an empty last piece. -/
def pieces : List Char → List (List Char)
  | [] => [[]]
  | c :: text =>
    match pieces text with
    | [] => [[c]]
    | piece :: others =>
      if c = '\n' then [] :: piece :: others else (c :: piece) :: others

/-- A line loses one carriage return at its end. -/
def dropReturn (line : List Char) : List Char :=
  if line.getLast? = some '\r' then line.dropLast else line

/-- Pieces that were ended by a line feed lose a carriage return; the last
piece is a line only if it is not empty. -/
def endedLines : List (List Char) → List (List Char)
  | [] => []
  | [final] => if final.isEmpty then [] else [final]
  | piece :: others => dropReturn piece :: endedLines others

/-- The lines of a text, without the marks that end them. -/
def lines (text : String) : List String :=
  (endedLines (pieces text.toList)).map String.ofList

/-- Blanks, as many as asked for. -/
def blanks (count : Nat) : String := String.ofList (List.replicate count ' ')

/-- A run of blanks is as long as it is asked to be. -/
theorem length_blanks (count : Nat) : (blanks count).length = count := by
  rw [blanks, String.length_ofList, List.length_replicate]

/-- Sets a text to the right of a column of the given width. -/
def padStart (width : Nat) (text : String) : String :=
  blanks (width - text.length) ++ text

/-- Sets a text to the left of a column of the given width. -/
def padEnd (width : Nat) (text : String) : String :=
  text ++ blanks (width - text.length)

end Text

end Formula
