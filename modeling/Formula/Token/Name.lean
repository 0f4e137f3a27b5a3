/-!
# Names

Variables and functions are named by words: an ASCII letter, then ASCII letters,
digits, underscores and dollar signs.
-/

namespace Formula

/-- Whether a character may stand in a word behind its first letter. -/
def isWordChar (c : Char) : Bool := c.isAlphanum || c == '_' || c == '$'

/-- Whether a text is the name of a variable or of a function. -/
def isName (text : String) : Bool :=
  match text.toList with
  | [] => false
  | c :: rest => c.isAlpha && rest.all isWordChar

/-- A letter may stand anywhere in a word. -/
theorem isWordChar_of_isAlpha {c : Char} (h : c.isAlpha) : isWordChar c := by
  simp [isWordChar, Char.isAlphanum, h]

end Formula
