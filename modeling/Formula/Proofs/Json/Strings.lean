import Formula.Json.String
import Formula.Json.Write

/-!
# JSON strings read back

Whatever characters a string has, they are read back from its JSON text: an escape stands for
the character it was written for, and other characters stand for themselves.
-/

namespace Formula

namespace Json

variable {c meant : Char} {text behind rest others : List Char}

/-- The last hexadecimal digit of a number has the value of the digit. -/
theorem hexValue?_hexDigit (n : Nat) : hexValue? (hexDigit n) = some (n % 16) := by
  have hdigit : ∀ m < 16, hexValue? (Nat.digitChar m) = some m := by decide
  exact hdigit _ (Nat.mod_lt n (by decide))

/-- The escape of a control character stands for it. -/
theorem unescape_control (hc : c.toNat < 0x20) (rest : List Char) :
    unescape ('u' :: '0' :: '0' :: hexDigit (c.toNat / 16) :: hexDigit c.toNat :: rest) =
      .ok (c, rest) := by
  have hzero : hexValue? '0' = some 0 := by decide
  have hunit : c.toNat / 16 % 16 * 16 + c.toNat % 16 = c.toNat := by omega
  have hlow : isLowUnit c.toNat = false := by simp [isLowUnit]; omega
  have hhigh : isHighUnit c.toNat = false := by simp [isHighUnit]; omega
  simp [unescape, unicodeEscape, hexUnit, hzero, hexValue?_hexDigit, hunit, hlow, hhigh]

/-- An escape in front of a string adds the character it stands for. -/
theorem stringTail_escaped (hescape : unescape text = .ok (meant, behind))
    (h : stringTail behind = .ok (others, rest)) :
    stringTail ('\\' :: text) = .ok (meant :: others, rest) := by
  rw [stringTail]
  simp only [Char.reduceEq, if_false, if_true]
  split
  · rename_i hfault
    rw [hescape] at hfault
    cases hfault
  · rename_i hfound
    rw [hescape] at hfound
    cases hfound
    rw [h]

/-- A character that is written into a string is read as itself. -/
theorem stringTail_escape (h : stringTail behind = .ok (others, rest)) (c : Char) :
    stringTail (escape c ++ behind) = .ok (c :: others, rest) := by
  unfold escape
  iterate 5
    split
    · subst c
      exact stringTail_escaped rfl h
  split
  · rename_i hcode
    obtain rfl : c = '\x08' := Char.toNat_inj.mp hcode
    exact stringTail_escaped rfl h
  split
  · rename_i hcode
    obtain rfl : c = '\x0c' := Char.toNat_inj.mp hcode
    exact stringTail_escaped rfl h
  split
  · rename_i hcontrol
    exact stringTail_escaped (unescape_control hcontrol behind) h
  · rename_i hquote hslash _ _ _ _ _ hcontrol
    simp [stringTail, hquote, hslash, hcontrol, h]

/-- A string is read up to its closing quote. -/
theorem stringTail_quoted (text rest : List Char) :
    stringTail (text.flatMap escape ++ '"' :: rest) = .ok (text, rest) := by
  induction text with
  | nil => simp [stringTail]
  | cons c text ih =>
    rw [List.flatMap_cons, List.append_assoc]
    exact stringTail_escape ih c

/-- A quoted text stands between quotation marks, character by character. -/
theorem quote_toList (text : String) :
    (quote text).toList = '"' :: (text.toList.flatMap escape ++ ['"']) := by
  simp [quote]

end Json

end Formula
