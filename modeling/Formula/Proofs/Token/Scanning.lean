import Formula.Proofs.Numeral.RoundTrip
import Formula.Token.Scan

/-!
# Scanning piece by piece

A text in front of another one is cut into pieces if the lexemes are found one after
another and the last one stops where the text does. Names and numerals stop in front
of a blank, of a closing parenthesis, of a factorial, and at the end.
-/

namespace Formula

open Numeral (Digits Written)

/-- Characters of the visible part of ASCII are not blank. -/
theorem isBlank_eq_false {c : Char} (hlow : 32 < c.toNat) (hhigh : c.toNat < 127) :
    isBlank c = false := by
  simp [isBlank, blankRanges, CodeRanges.contains]
  omega

/-- The codes of the digits lie between those of 0 and 9. -/
theorem toNat_of_isDigit {c : Char} (h : c.isDigit = true) : 48 ≤ c.toNat ∧ c.toNat ≤ 57 := by
  simpa [Char.isDigit, UInt32.le_iff_toNat_le] using h

/-- The codes of the letters lie between those of A and z. -/
theorem toNat_of_isAlpha {c : Char} (h : c.isAlpha = true) : 65 ≤ c.toNat ∧ c.toNat ≤ 122 := by
  rcases Bool.or_eq_true_iff.mp h with hcapital | hsmall
  · have hrange : 65 ≤ c.toNat ∧ c.toNat ≤ 90 := of_decide_eq_true hcapital
    omega
  · obtain ⟨hlow, hhigh⟩ := Bool.and_eq_true_iff.mp hsmall
    have hrange : 97 ≤ c.toNat ∧ c.toNat ≤ 122 :=
      ⟨of_decide_eq_true hlow, of_decide_eq_true hhigh⟩
    omega

/-- A token apart from its place. -/
def Token.piece (token : Token) : TokenKind × String := (token.kind, token.text)

namespace Scan

variable {text behind rest : List Char} {pieces more : List (TokenKind × String)} {c : Char}

/-- No lexeme begins with a blank. -/
theorem isBlank_of_lexeme? {lexeme : Lexeme} (h : lexeme? (c :: text) = some lexeme) :
    isBlank c = false := by
  rcases lexeme?_cases h with ⟨hnumber, -⟩ | ⟨halpha, -⟩ | ⟨rfl, -⟩ | ⟨rfl, -⟩ | ⟨hop, -⟩
  · rcases Bool.or_eq_true_iff.mp hnumber with hdigit | hpoint
    · have hrange := toNat_of_isDigit hdigit
      exact isBlank_eq_false (by omega) (by omega)
    · obtain rfl : c = '.' := by simpa using (Bool.and_eq_true_iff.mp hpoint).1
      decide
  · have hrange := toNat_of_isAlpha halpha
    exact isBlank_eq_false (by omega) (by omega)
  · decide
  · decide
  · obtain ⟨op, hop⟩ := Option.isSome_iff_exists.mp hop
    obtain rfl := Operator.ofChar?_eq_some_iff.mp hop
    cases op <;> decide

/-- In front of the rest the text is cut into these pieces. -/
def Reads (text : List Char) (pieces : List (TokenKind × String)) (rest : List Char) : Prop :=
  ∀ place, ∃ found, found.map Token.piece = pieces ∧
    tokens place (text ++ rest) = (found ++ ·) <$> tokens (place.after text) rest

/-- Texts are cut one after the other. -/
theorem Reads.append (h : Reads text pieces (behind ++ rest)) (hbehind : Reads behind more rest) :
    Reads (text ++ behind) (pieces ++ more) rest := by
  intro place
  obtain ⟨first, hfirst, htokens⟩ := h place
  obtain ⟨second, hsecond, hmore⟩ := hbehind (place.after text)
  refine ⟨first ++ second, by rw [List.map_append, hfirst, hsecond], ?_⟩
  rw [List.append_assoc, htokens, hmore, Location.after_append]
  cases tokens ((place.after text).after behind) rest with
  | error error => rfl
  | ok found => exact congrArg Except.ok (List.append_assoc first second found).symm

/-- Nothing is cut into no pieces. -/
theorem reads_nil : Reads [] [] rest := by
  intro place
  refine ⟨[], rfl, ?_⟩
  simp only [List.nil_append, Location.after_nil]
  cases tokens place rest <;> rfl

/-- A blank is dropped. -/
theorem reads_blank (hblank : isBlank c = true) : Reads [c] [] rest := by
  intro place
  refine ⟨[], rfl, ?_⟩
  rw [List.singleton_append, tokens, if_pos hblank]
  simp only [List.nil_append, Location.after_cons, Location.after_nil]
  cases tokens (place.advance c) rest <;> rfl

/-- A space is cut into no pieces. -/
theorem reads_space : Reads [' '] [] rest := reads_blank (by decide)

/-- A lexeme is cut off, provided that its token has a value if it is a number. -/
theorem reads_lexeme {kind : TokenKind} (h : lexeme? (text ++ rest) = some ⟨kind, text, rest⟩)
    (hrange : ∀ first place, rangeError? first ⟨kind, String.ofList text, place⟩ = none) :
    Reads text [(kind, String.ofList text)] rest := by
  intro place
  obtain ⟨first, others, rfl⟩ := List.exists_cons_of_ne_nil (lexeme?_ne_nil h)
  rw [List.cons_append] at h ⊢
  refine ⟨[⟨kind, String.ofList (first :: others), place⟩], rfl, ?_⟩
  have hblank := isBlank_of_lexeme? h
  rw [tokens, if_neg (by simp [hblank])]
  split
  · rename_i hnone
    simp [hnone] at h
  · rename_i lexeme hsome
    obtain rfl : lexeme = ⟨kind, first :: others, rest⟩ := Option.some.inj (hsome.symm.trans h)
    simp only [Lexeme.token, hrange]
    rfl

/-- The text is at its end, or a character follows that belongs to no name and to no
numeral. -/
def Stops (rest : List Char) : Prop :=
  ∀ c, rest.head? = some c → c = ' ' ∨ c = ')' ∨ c = '!'

/-- A name or a numeral ends at the end of the text. -/
theorem stops_nil : Stops [] := nofun

/-- A name or a numeral ends in front of a space. -/
theorem stops_blank : Stops (' ' :: rest) := by
  rintro _ ⟨⟩
  exact .inl rfl

/-- A name or a numeral ends in front of a closing parenthesis. -/
theorem stops_paren : Stops (')' :: rest) := by
  rintro _ ⟨⟩
  exact .inr (.inl rfl)

/-- A name or a numeral ends in front of a factorial. -/
theorem stops_bang : Stops ('!' :: rest) := by
  rintro _ ⟨⟩
  exact .inr (.inr rfl)

/-- A class without blanks, closing parentheses and factorials does not go on. -/
theorem Stops.not_mem (h : Stops rest) {p : Char → Bool} (hblank : p ' ' = false)
    (hparen : p ')' = false) (hbang : p '!' = false) :
    ∀ c, rest.head? = some c → p c = false := by
  intro c hc
  rcases h c hc with rfl | rfl | rfl
  · exact hblank
  · exact hparen
  · exact hbang

/-- A text of one class is taken up to a character that is not of the class. -/
theorem takeWhile_append_stop {p : Char → Bool} (hfront : ∀ c ∈ text, p c = true)
    (hrest : ∀ c, rest.head? = some c → p c = false) : (text ++ rest).takeWhile p = text := by
  rw [Numeral.takeWhile_append_of_head hrest, List.takeWhile_eq_self_iff.mpr hfront]

/-- A text of one class is dropped up to a character that is not of the class. -/
theorem dropWhile_append_stop {p : Char → Bool} (hfront : ∀ c ∈ text, p c = true)
    (hrest : ∀ c, rest.head? = some c → p c = false) : (text ++ rest).dropWhile p = rest := by
  rw [Numeral.dropWhile_append_of_head hrest, List.dropWhile_eq_nil_iff.mpr hfront,
    List.nil_append]

/-- Digits are split off up to a character that is no digit. -/
theorem digits_append_stop (h : Digits text)
    (hrest : ∀ c, rest.head? = some c → c.isDigit = false) :
    digits (text ++ rest) = (text, rest) := by
  rw [digits, takeWhile_append_stop h hrest, dropWhile_append_stop h hrest]

/-- Where neither a mark nor a digit follows there is no exponent. -/
theorem exponent_of_stops (h : Stops rest) : exponent rest = ([], rest) := by
  cases rest with
  | nil => rfl
  | cons c rest =>
    have hmark : Numeral.isExponentMark c = false :=
      h.not_mem (by decide) (by decide) (by decide) c rfl
    simp [exponent, hmark]

/-- The exponent of a numeral is found as it was written. -/
theorem exponent_mark (written : Written) (h : Stops rest) :
    exponent (written.mark ++ rest) = (written.mark, rest) := by
  have hrest := h.not_mem (p := Char.isDigit) (by decide) (by decide) (by decide)
  unfold Written.mark
  cases written.power with
  | none => exact exponent_of_stops h
  | some power =>
    have hdigits := Numeral.digits_toDigits power.natAbs
    obtain ⟨c, others, hcons⟩ := List.exists_cons_of_ne_nil
      (Nat.toDigits_ne_nil (n := power.natAbs) (b := 10))
    have hfound := digits_append_stop hdigits hrest
    rw [hcons, List.cons_append] at hfound
    by_cases hneg : power < 0
    · have htext : (Numeral.integer power).toList = '-' :: Nat.toDigits 10 power.natAbs := by
        simp [Numeral.integer, hneg, Numeral.natural_toList]
      rw [hcons] at htext
      simp [exponent, htext, sign, hfound, Numeral.isExponentMark]
    · have htext : (Numeral.integer power).toList = Nat.toDigits 10 power.natAbs := by
        simp [Numeral.integer, hneg, Numeral.natural_toList]
      have hc := hdigits c (by simp [hcons])
      have hplus : c ≠ '+' := Written.ne_of_digit hc (by decide)
      have hminus : c ≠ '-' := Written.ne_of_digit hc (by decide)
      rw [hcons] at htext
      simp [exponent, htext, sign, hplus, hminus, hfound, Numeral.isExponentMark]

/-- No digit stands behind the digits of a numeral, and no point without digits. -/
theorem head_mark (written : Written) (h : Stops rest) :
    ∀ c, (written.mark ++ rest).head? = some c → c.isDigit = false ∧ c ≠ '.' := by
  intro c hc
  unfold Written.mark at hc
  cases hpower : written.power with
  | none =>
    rw [hpower] at hc
    rcases h c hc with rfl | rfl | rfl <;> decide
  | some power =>
    rw [hpower] at hc
    obtain rfl : 'e' = c := by simpa using hc
    decide

/-- A numeral is scanned as a whole. Without a point and an exponent it is an integer. -/
theorem number_text {written : Written} (hwhole : Digits written.whole)
    (hfraction : Digits written.fraction) (h : Stops rest) :
    number (written.text ++ rest) =
      ⟨if written.point.isEmpty && written.mark.isEmpty then .integer else .real,
        written.text, rest⟩ := by
  have hmark := head_mark written h
  have hpart : fraction (written.point ++ (written.mark ++ rest)) =
      (written.point, written.mark ++ rest) := by
    unfold Written.point
    by_cases hempty : written.fraction.isEmpty = true
    · rw [if_pos hempty, List.nil_append]
      unfold fraction
      split
      · rename_i htext
        exact absurd rfl (hmark '.' (by simp [htext])).2
      · rfl
    · rw [if_neg hempty, List.cons_append, fraction,
        digits_append_stop hfraction fun c hc => (hmark c hc).1]
  have hbehind : ∀ c, (written.point ++ (written.mark ++ rest)).head? = some c →
      c.isDigit = false := by
    intro c hc
    unfold Written.point at hc
    split at hc
    · exact (hmark c hc).1
    · obtain rfl : '.' = c := by simpa using hc
      decide
  have hdigits := digits_append_stop hwhole hbehind
  simp only [number, Written.text, List.append_assoc, hdigits, hpart, exponent_mark written h]

/-- A numeral that is written is cut off as a whole where it stops; it is a real if it has a
point or a mark of an exponent. -/
theorem lexeme?_numeral {written : Written} (hwhole : Digits written.whole)
    (hwhole_ne : written.whole ≠ []) (hfraction : Digits written.fraction) (h : Stops rest) :
    lexeme? (written.text ++ rest) =
      some ⟨if written.point.isEmpty && written.mark.isEmpty then .integer else .real,
        written.text, rest⟩ := by
  have hnumber := number_text hwhole hfraction h
  obtain ⟨c, others, hcons⟩ := List.exists_cons_of_ne_nil hwhole_ne
  have hdigit : c.isDigit = true := hwhole c (by simp [hcons])
  have hhead : written.text ++ rest = c :: (others ++ (written.point ++ written.mark) ++ rest) := by
    simp [Written.text, hcons]
  rw [hhead] at hnumber ⊢
  rw [lexeme?, if_pos (by simp [hdigit]), hnumber]

/-- A real numeral is cut off if its number is finite. -/
theorem reads_real {written : Written} (hproper : written.Proper)
    (hfinite : written.value.isFinite = true) (h : Stops rest) :
    Reads written.text [(.real, String.ofList written.text)] rest := by
  have hlexeme := lexeme?_numeral hproper.whole hproper.whole_ne hproper.fraction h
  have hkind : (written.point.isEmpty && written.mark.isEmpty) = false := by
    rcases hproper.real with hfraction | hpower
    · simp [Written.point, hfraction]
    · obtain ⟨power, hsome⟩ := Option.ne_none_iff_exists'.mp hpower
      simp [Written.mark, hsome]
  rw [hkind] at hlexeme
  refine reads_lexeme hlexeme fun first place => ?_
  simp [rangeError?, Token.literal?, hproper.binary64?, hfinite]

/-- The digits of an integer are cut off if it is in range. -/
theorem reads_integer {value : Int64} {n : Nat} (hvalue : value.toInt = n) (h : Stops rest) :
    Reads (Nat.toDigits 10 n) [(.integer, Numeral.natural n)] rest := by
  let written : Written := ⟨Nat.toDigits 10 n, [], none⟩
  have hwhole : Digits written.whole := Numeral.digits_toDigits n
  have hlexeme := lexeme?_numeral hwhole Nat.toDigits_ne_nil nofun h
  have htext : written.text = Nat.toDigits 10 n := by
    simp [written, Written.text, Written.point, Written.mark]
  rw [htext] at hlexeme
  refine reads_lexeme hlexeme fun first place => ?_
  have hread := Numeral.int64?_integer value
  have hinteger : (Numeral.integer value.toInt).toList = Nat.toDigits 10 n := by
    rw [hvalue, Numeral.integer_natCast, Numeral.natural_toList]
  rw [hinteger] at hread
  simp [rangeError?, Token.literal?, hread]

/-- A letter is neither a digit nor a point. -/
theorem lexeme?_word (hc : c.isAlpha = true) (text : List Char) :
    lexeme? (c :: text) = some (word c text) := by
  have hrange := toNat_of_isAlpha hc
  have hdigit : c.isDigit = false := by
    by_contra hdigit
    have hsmall := toNat_of_isDigit (by simpa using hdigit)
    omega
  have hpoint : c ≠ '.' := by
    rintro rfl
    simp at hrange
  simp [lexeme?, hdigit, hpoint, hc]

/-- A name is cut off; a name of one letter may be a variable. -/
theorem reads_name (hc : c.isAlpha = true) (hothers : ∀ other ∈ text, isWordChar other = true)
    (h : Stops rest) : Reads (c :: text)
      [(if text.isEmpty then .letter else .identifier, String.ofList (c :: text))] rest := by
  have hrest := h.not_mem (p := isWordChar) (by decide) (by decide) (by decide)
  refine reads_lexeme ?_ fun first place => ?_
  · rw [List.cons_append, lexeme?_word hc, word, takeWhile_append_stop hothers hrest,
      dropWhile_append_stop hothers hrest]
  · cases text <;> rfl

/-- An operator is cut off wherever it stands. -/
theorem reads_operator (op : Operator) (rest : List Char) :
    Reads op.symbol.toList [(.operator, op.symbol)] rest := by
  have hlexeme : lexeme? ([op.char] ++ rest) = some ⟨.operator, [op.char], rest⟩ := by
    cases op <;> rfl
  have htext : op.symbol = String.ofList [op.char] := rfl
  rw [htext, String.toList_ofList]
  exact reads_lexeme hlexeme fun _ _ => rfl

/-- An opening parenthesis is a piece by itself, whatever follows. -/
theorem reads_leftParen (rest : List Char) : Reads ['('] [(.leftParen, "(")] rest :=
  reads_lexeme rfl fun _ _ => rfl

/-- A closing parenthesis is a piece by itself, whatever follows. -/
theorem reads_rightParen (rest : List Char) : Reads [')'] [(.rightParen, ")")] rest :=
  reads_lexeme rfl fun _ _ => rfl

end Scan

end Formula
