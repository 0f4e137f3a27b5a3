import Formula.Nested

/-!
# Writing JSON

Nested sequences are written as JSON arrays, numbers and strings, without blanks.
-/

namespace Formula

namespace Json

/-- A hexadecimal digit in lower case. -/
def hexDigit (n : Nat) : Char := Nat.digitChar (n % 16)

/-- A character within a string. Quotes, backslashes and control characters are
escaped. -/
def escape (c : Char) : List Char :=
  if c = '"' then ['\\', '"']
  else if c = '\\' then ['\\', '\\']
  else if c = '\n' then ['\\', 'n']
  else if c = '\r' then ['\\', 'r']
  else if c = '\t' then ['\\', 't']
  else if c.toNat = 0x08 then ['\\', 'b']
  else if c.toNat = 0x0C then ['\\', 'f']
  else if c.toNat < 0x20 then ['\\', 'u', '0', '0', hexDigit (c.toNat / 16), hexDigit c.toNat]
  else [c]

/-- A string in quotes. -/
def quote (text : String) : String :=
  "\"" ++ String.ofList (text.toList.flatMap escape) ++ "\""

/-- The text of a number. A real without a finite value has none of its own. -/
def writeNumber : Literal → String
  | .integer value => Numeral.integer value.toInt
  | .real value => Numeral.jsonReal.write value

mutual

/-- The JSON text of nested sequences. -/
def write : Nested → String
  | .number value => writeNumber value
  | .symbol text => quote text
  | .sequence items => "[" ++ writeItems items ++ "]"

/-- The items of an array with commas between them. -/
def writeItems : List Nested → String
  | [] => ""
  | [item] => write item
  | item :: next :: items => write item ++ "," ++ writeItems (next :: items)

end

end Json

/-- The tree as JSON text. -/
def Expr.toJson (e : Expr) : String := Json.write e.toNested

end Formula
