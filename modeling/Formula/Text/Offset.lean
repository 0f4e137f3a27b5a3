/-!
# Editing at byte offsets

A text is edited at an offset in bytes. Only the offsets at which a character begins, and
the one behind the last character, can be used: an edit inside a character or behind the
end of the text is refused.
-/

namespace Formula

namespace Text

/-- The offsets at which characters begin, the first of which begins at the given one. -/
def offsets (start : Nat) : List Char → List Nat
  | [] => []
  | c :: text => start :: offsets (start + c.utf8Size) text

/-- Splits a text at an offset in bytes, unless the offset is inside a character or behind
the end. -/
def splitAt? : Nat → List Char → Option (List Char × List Char)
  | 0, text => some ([], text)
  | _ + 1, [] => none
  | offset + 1, c :: text =>
    if c.utf8Size ≤ offset + 1 then
      (splitAt? (offset + 1 - c.utf8Size) text).map fun parts => (c :: parts.1, parts.2)
    else none

/-- Puts a character in at an offset. -/
def insertAt? (text : String) (offset : Nat) (c : Char) : Option String :=
  (splitAt? offset text.toList).map fun parts => String.ofList (parts.1 ++ c :: parts.2)

/-- Takes the character out that begins at an offset. -/
def removeAt? (text : String) (offset : Nat) : Option String :=
  match splitAt? offset text.toList with
  | some (front, _ :: behind) => some (String.ofList (front ++ behind))
  | _ => none

/-- The size of a text is that of its first character and that of the others. -/
theorem utf8ByteSize_cons (c : Char) (text : List Char) :
    (String.ofList (c :: text)).utf8ByteSize = c.utf8Size + (String.ofList text).utf8ByteSize := by
  rw [String.ofList_cons, String.utf8ByteSize_append, String.utf8ByteSize_singleton]

/-- Behind some characters a text can be split. -/
theorem splitAt?_append (front behind : List Char) :
    splitAt? (String.ofList front).utf8ByteSize (front ++ behind) = some (front, behind) := by
  induction front with
  | nil => simp [splitAt?]
  | cons c front ih =>
    have hpos := c.utf8Size_pos
    obtain ⟨offset, hoffset⟩ :
        ∃ offset, (String.ofList (c :: front)).utf8ByteSize = offset + 1 := by
      rw [utf8ByteSize_cons]
      exact ⟨c.utf8Size + (String.ofList front).utf8ByteSize - 1, by omega⟩
    have hrest : offset + 1 - c.utf8Size = (String.ofList front).utf8ByteSize := by
      rw [← hoffset, utf8ByteSize_cons]
      omega
    have hle : c.utf8Size ≤ offset + 1 := by
      rw [← hoffset, utf8ByteSize_cons]
      omega
    rw [hoffset, List.cons_append, splitAt?, if_pos hle, hrest, ih]
    rfl

/-- The offsets that can be used are those behind some characters, and there a text is
split between these and the others. -/
theorem splitAt?_eq_some_iff {offset : Nat} {text front behind : List Char} :
    splitAt? offset text = some (front, behind) ↔
      text = front ++ behind ∧ offset = (String.ofList front).utf8ByteSize := by
  constructor
  · intro h
    fun_induction splitAt? offset text generalizing front behind with
    | case1 text =>
      cases h
      exact ⟨rfl, rfl⟩
    | case2 => cases h
    | case3 offset c text hle ih =>
      obtain ⟨⟨others, rest⟩, hsplit, hparts⟩ := Option.map_eq_some_iff.mp h
      cases hparts
      obtain ⟨rfl, hoffset⟩ := ih hsplit
      rw [utf8ByteSize_cons, ← hoffset]
      exact ⟨rfl, by omega⟩
    | case4 => cases h
  · rintro ⟨rfl, rfl⟩
    exact splitAt?_append front behind

/-- The offset of a character is the size of what stands in front of it. -/
theorem getElem?_offsets (start : Nat) (front : List Char) (c : Char) (behind : List Char) :
    (offsets start (front ++ c :: behind))[front.length]? =
      some (start + (String.ofList front).utf8ByteSize) := by
  induction front generalizing start with
  | nil => rfl
  | cons first front ih =>
    rw [utf8ByteSize_cons, ← Nat.add_assoc]
    exact ih (start + first.utf8Size)

/-- There is one offset for each character. -/
theorem length_offsets (start : Nat) (text : List Char) :
    (offsets start text).length = text.length := by
  induction text generalizing start with
  | nil => rfl
  | cons c text ih => exact congrArg (· + 1) (ih _)

end Text

end Formula
