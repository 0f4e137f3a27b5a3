import Formula.Json.Number

/-!
# Reading JSON strings

Strings are read up to their closing quote. Escapes of four hexadecimal digits
stand for UTF-16 units; a character above them is written as a pair.
-/

namespace Formula

namespace Json

/-- The value of a hexadecimal digit. -/
def hexValue? (c : Char) : Option Nat :=
  if '0' ≤ c ∧ c ≤ '9' then some (c.toNat - '0'.toNat)
  else if 'a' ≤ c ∧ c ≤ 'f' then some (c.toNat - 'a'.toNat + 10)
  else if 'A' ≤ c ∧ c ≤ 'F' then some (c.toNat - 'A'.toNat + 10)
  else none

/-- The number of bytes of a text. -/
def byteCount (text : List Char) : Nat := text.foldl (fun total c => total + c.utf8Size) 0

/-- The unit of four hexadecimal digits. A text ends too early if fewer than
four bytes of it are left. -/
def hexUnit (text : List Char) : Except JsonFault (Nat × List Char) :=
  match text with
  | a :: b :: c :: d :: rest =>
    match hexValue? a, hexValue? b, hexValue? c, hexValue? d with
    | some i, some j, some k, some l => .ok (((i * 16 + j) * 16 + k) * 16 + l, rest)
    | _, _, _, _ => .error .malformed
  | _ => if byteCount text < 4 then .error .ended else .error .malformed

/-- Whether a unit is the first of a pair. -/
def isHighUnit (unit : Nat) : Bool := 0xD800 ≤ unit && unit ≤ 0xDBFF

/-- Whether a unit is the second of a pair. -/
def isLowUnit (unit : Nat) : Bool := 0xDC00 ≤ unit && unit ≤ 0xDFFF

/-- The character of a pair of units. -/
def ofPair (high low : Nat) : Char :=
  Char.ofNat (0x10000 + (high - 0xD800) * 0x400 + (low - 0xDC00))

/-- The text behind a character that has to stand at the head. -/
def expectChar (wanted : Char) : List Char → Except JsonFault (List Char)
  | [] => .error .ended
  | c :: text => if c = wanted then .ok text else .error .malformed

/-- The second unit of a pair, which has to be an escape too. -/
def lowUnit (text : List Char) : Except JsonFault (Nat × List Char) :=
  match expectChar '\\' text with
  | .error fault => .error fault
  | .ok text =>
    match expectChar 'u' text with
    | .error fault => .error fault
    | .ok text =>
      match hexUnit text with
      | .error fault => .error fault
      | .ok (low, rest) => if isLowUnit low then .ok (low, rest) else .error .malformed

/-- The character of an escaped unit or pair of units. -/
def unicodeEscape (text : List Char) : Except JsonFault (Char × List Char) :=
  match hexUnit text with
  | .error fault => .error fault
  | .ok (unit, rest) =>
    if isLowUnit unit then .error .malformed
    else if isHighUnit unit then
      match lowUnit rest with
      | .error fault => .error fault
      | .ok (low, rest) => .ok (ofPair unit low, rest)
    else .ok (Char.ofNat unit, rest)

/-- The character of the escape behind a backslash. -/
def unescape : List Char → Except JsonFault (Char × List Char)
  | [] => .error .ended
  | c :: text =>
    if c = '"' ∨ c = '\\' ∨ c = '/' then .ok (c, text)
    else if c = 'b' then .ok ('\x08', text)
    else if c = 'f' then .ok ('\x0c', text)
    else if c = 'n' then .ok ('\n', text)
    else if c = 'r' then .ok ('\r', text)
    else if c = 't' then .ok ('\t', text)
    else if c = 'u' then unicodeEscape text
    else .error .malformed

/-- The four digits of a unit leave less of the text. -/
theorem hexUnit_length {text rest : List Char} {unit : Nat}
    (h : hexUnit text = .ok (unit, rest)) : rest.length < text.length := by
  unfold hexUnit at h
  split at h
  · split at h
    · cases h
      simp only [List.length_cons]
      omega
    · cases h
  · split at h <;> cases h

/-- A character that was expected leaves less of the text. -/
theorem expectChar_length {wanted : Char} {text rest : List Char}
    (h : expectChar wanted text = .ok rest) : rest.length < text.length := by
  cases text with
  | nil => cases h
  | cons c text =>
    simp only [expectChar] at h
    split at h
    · cases h
      simp
    · cases h

/-- The second unit of a pair leaves less of the text. -/
theorem lowUnit_length {text rest : List Char} {low : Nat}
    (h : lowUnit text = .ok (low, rest)) : rest.length < text.length := by
  unfold lowUnit at h
  split at h
  · cases h
  · rename_i hslash
    have h1 := expectChar_length hslash
    split at h
    · cases h
    · rename_i hmark
      have h2 := expectChar_length hmark
      split at h
      · cases h
      · rename_i hunit
        have h3 := hexUnit_length hunit
        split at h
        · cases h
          exact Nat.lt_trans h3 (Nat.lt_trans h2 h1)
        · cases h

/-- An escape by the number of a character leaves less of the text. -/
theorem unicodeEscape_length {text rest : List Char} {c : Char}
    (h : unicodeEscape text = .ok (c, rest)) : rest.length < text.length := by
  unfold unicodeEscape at h
  split at h
  · cases h
  · rename_i hunit
    have := hexUnit_length hunit
    split at h
    · cases h
    · split at h
      · split at h
        · cases h
        · rename_i hlow
          have := lowUnit_length hlow
          simp only [Except.ok.injEq, Prod.mk.injEq] at h
          obtain ⟨_, rfl⟩ := h
          omega
      · cases h
        omega

/-- An escape of any kind leaves less of the text. -/
theorem unescape_length {text rest : List Char} {c : Char}
    (h : unescape text = .ok (c, rest)) : rest.length < text.length := by
  cases text with
  | nil => cases h
  | cons first text =>
    have hplain {meant : Char}
        (h : (.ok (meant, text) : Except JsonFault _) = .ok (c, rest)) :
        rest.length < (first :: text).length := by
      cases h
      simp
    rw [unescape] at h
    iterate 6
      split at h
      · exact hplain h
    split at h
    · exact Nat.lt_succ_of_lt (unicodeEscape_length h)
    · cases h

/-- The characters of a string behind its opening quote, and the text behind its
closing quote. Control characters have to be escaped. -/
def stringTail (text : List Char) : Except JsonFault (List Char × List Char) :=
  match text with
  | [] => .error .ended
  | c :: behind =>
    if c = '"' then .ok ([], behind)
    else if c = '\\' then
      match _h : unescape behind with
      | .error fault => .error fault
      | .ok (meant, rest) =>
        match stringTail rest with
        | .error fault => .error fault
        | .ok (others, rest) => .ok (meant :: others, rest)
    else if c.toNat < 0x20 then .error .malformed
    else
      match stringTail behind with
      | .error fault => .error fault
      | .ok (others, rest) => .ok (c :: others, rest)
termination_by text.length
decreasing_by
  · have := unescape_length ‹_›
    simp only [List.length_cons]
    omega
  · simp

/-- A string makes the text shorter. -/
theorem stringTail_length {text string rest : List Char}
    (h : stringTail text = .ok (string, rest)) : rest.length < text.length := by
  fun_induction stringTail text generalizing string rest with
  | case1 => cases h
  | case2 => cases h; simp
  | case3 => cases h
  | case4 => cases h
  | case5 behind meant after hescape others after' htail _ ih =>
    have := unescape_length hescape
    have := ih htail
    cases h
    simp only [List.length_cons]
    omega
  | case6 => cases h
  | case7 => cases h
  | case8 c behind _ _ _ others after htail ih =>
    have := ih htail
    cases h
    simp only [List.length_cons]
    omega

end Json

end Formula
