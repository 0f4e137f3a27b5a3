/-!
# Classes of characters

A class of characters is listed by the ranges of its codes. Ranges that are apart
ascend and leave a gap between neighbours, so that a class can be listed in one
way only.
-/

namespace Formula

/-- Ranges of codes, both ends included. -/
abbrev CodeRanges := List (Nat × Nat)

namespace CodeRanges

/-- Whether the code of a character lies in one of the ranges. -/
def contains (ranges : CodeRanges) (c : Char) : Bool :=
  ranges.any fun range => range.1 ≤ c.toNat && c.toNat ≤ range.2

/-- Whether no range is empty and each one ends more than one code before the next. -/
def apart : CodeRanges → Bool
  | [] => true
  | [range] => range.1 ≤ range.2
  | range :: next :: ranges =>
    range.1 ≤ range.2 && range.2 + 1 < next.1 && apart (next :: ranges)

/-- How many codes lie in ranges that are apart. -/
def count (ranges : CodeRanges) : Nat :=
  ranges.foldl (fun total range => total + (range.2 + 1 - range.1)) 0

end CodeRanges

end Formula
