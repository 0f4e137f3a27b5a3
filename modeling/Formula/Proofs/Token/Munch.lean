import Formula.Proofs.Token.Forms

/-!
# Longest match

A formula is cut by one rule: blanks are skipped, and at any other place the longest
lexeme is taken. Tokens exist exactly if the rule comes to the end of the formula. It
stops short of the end where no lexeme fits or where a number is too large, and there
scanning fails; what lies in front has tokens.
-/

namespace Formula

open Numeral (Digits isExponentMark)

namespace Scan

variable {text rest behind front lexeme whole part power : List Char} {kind : TokenKind}
  {place : Location} {found : List Token} {c : Char} {error : LexError}

/-! ### The values of numbers -/

/-- Numbers without a value: integers above the greatest one, and reals that are read as
infinity. -/
def IsTooLarge : TokenKind → List Char → Prop
  | .integer, lexeme => Int64.maxValue.toInt < Nat.ofDigitChars 10 lexeme 0
  | .real, lexeme => Numeral.binary64? lexeme = some (.infinite false)
  | _, _ => False

/-- A number has no point and no exponent exactly if it is an integer. -/
theorem Form.exists_number (h : Form kind lexeme) (hkind : kind = .integer ∨ kind = .real) :
    ∃ whole part power, IsNumber whole part power ∧ lexeme = whole ++ part ++ power ∧
      (kind = .integer ↔ part = [] ∧ power = []) := by
  cases h with
  | number hnumber =>
    refine ⟨_, _, _, hnumber, rfl, ?_⟩
    split <;> simp_all
  | word => split at hkind <;> simp at hkind
  | leftParen => simp at hkind
  | rightParen => simp at hkind
  | operator op => simp at hkind

/-- An integer consists of digits. -/
theorem Form.digits (h : Form .integer lexeme) : Digits lexeme ∧ lexeme ≠ [] := by
  obtain ⟨whole, part, power, hnumber, rfl, hinteger⟩ := h.exists_number (.inl rfl)
  obtain ⟨rfl, rfl⟩ := hinteger.mp rfl
  simpa using And.intro hnumber.digits h.ne_nil

/-- Digits have no value of 64 bits exactly if their number is beyond the greatest one. -/
theorem int64?_of_digits (h : Digits lexeme) (hne : lexeme ≠ []) :
    (Numeral.int64? lexeme).isNone ↔ Int64.maxValue.toInt < Nat.ofDigitChars 10 lexeme 0 := by
  simp [Numeral.int64?, Numeral.integer?_of_digits h hne]

/-- Digits with a sign or without one have a value among all integers. -/
theorem integer?_of_sign {sign : List Char} (hsign : IsSign sign) (h : Digits power)
    (hne : power ≠ []) : (Numeral.integer? (sign ++ power)).isSome := by
  cases hsign with
  | nil => simp [Numeral.integer?_of_digits h hne]
  | plus => simp [Numeral.integer?, Numeral.splitSign, Numeral.natural?_of_digits h hne]
  | minus => simp [Numeral.integer?, Numeral.splitSign, Numeral.natural?_of_digits h hne]

/-- No name of a number begins with a point. -/
theorem named?_point (negative : Bool) (text : List Char) :
    Numeral.named? negative ('.' :: text) = none := by
  have hhead : ∀ name : String, String.ofList (('.' :: text).map Char.toLower) = name →
      name.toList.head? = some '.' := by
    rintro _ rfl
    rw [String.toList_ofList]
    rfl
  unfold Numeral.named?
  split
  · rename_i hname
    exact absurd (hhead _ hname) (by decide)
  · rename_i hname
    exact absurd (hhead _ hname) (by decide)
  · rename_i hname
    exact absurd (hhead _ hname) (by decide)
  · rfl

/-- No mark of an exponent stands in front of the exponent. -/
theorem IsNumber.mantissa (h : IsNumber whole part power) :
    ∀ c ∈ whole ++ part, isExponentMark c = false := by
  intro c hc
  rcases List.mem_append.mp hc with hc | hc
  · exact Numeral.Written.isExponentMark_of_digit (h.digits c hc)
  · cases h.fraction with
    | nil => cases hc
    | point hplaces =>
      rcases List.mem_cons.mp hc with rfl | hc
      · decide
      · exact Numeral.Written.isExponentMark_of_digit (hplaces c hc)

/-- The digits around the point and the power of ten of a number. -/
theorem IsNumber.decimal? (h : IsNumber whole part power) : ∃ digits exponent,
    Numeral.decimal? false (whole ++ part ++ power) =
      some (.ofDecimal false digits exponent) := by
  obtain ⟨mark, n, hsplit, hpower⟩ : ∃ mark n,
      Numeral.splitExponent (whole ++ part ++ power) = (whole ++ part, mark) ∧
        (mark.map Numeral.integer?).getD (some 0) = some n := by
    cases h.exponent with
    | nil =>
      rw [List.append_nil]
      exact ⟨none, 0, Numeral.Written.splitExponent_of_no_mark h.mantissa, rfl⟩
    | mark hmark hsign hdigits hne =>
      obtain ⟨n, hn⟩ := Option.isSome_iff_exists.mp (integer?_of_sign hsign hdigits hne)
      exact ⟨some _, n, Numeral.Written.splitExponent_append h.mantissa hmark _, hn⟩
  obtain ⟨places, hpoint, hdigits, hne⟩ : ∃ places,
      Numeral.splitPoint (whole ++ part) = (whole, places) ∧ Digits (whole ++ places) ∧
        whole ++ places ≠ [] := by
    have hnonempty := h.nonempty
    cases h.fraction with
    | nil =>
      rw [List.append_nil]
      refine ⟨[], Numeral.Written.splitPoint_of_digits h.digits, ?_, ?_⟩
      · simpa using h.digits
      · simpa using hnonempty
    | @point places hplaces =>
      refine ⟨places, Numeral.Written.splitPoint_append h.digits places,
        h.digits.append hplaces, ?_⟩
      rintro hnil
      obtain ⟨rfl, rfl⟩ := List.append_eq_nil_iff.mp hnil
      simp at hnonempty
  refine ⟨Nat.ofDigitChars 10 (whole ++ places) 0, n - places.length, ?_⟩
  simp only [Numeral.decimal?, hsplit, hpoint, hpower, Numeral.natural?_of_digits hdigits hne]

/-- A number is read as the one nearest to a decimal that is not negative. -/
theorem IsNumber.binary64? (h : IsNumber whole part power) : ∃ digits exponent,
    Numeral.binary64? (whole ++ part ++ power) = some (.ofDecimal false digits exponent) := by
  obtain ⟨digits, exponent, hdecimal⟩ := h.decimal?
  refine ⟨digits, exponent, ?_⟩
  obtain ⟨c, text, htext, hhead⟩ := h.exists_head []
  rw [List.append_nil] at htext
  rw [htext] at hdecimal ⊢
  rcases Bool.or_eq_true_iff.mp hhead with hdigit | hpoint
  · simp only [Numeral.binary64?, Numeral.splitSign_of_digit hdigit,
      Numeral.Written.named?_of_digit hdigit, hdecimal]
  · obtain rfl : c = '.' := by simpa using (Bool.and_eq_true_iff.mp hpoint).1
    have hsign : Numeral.splitSign ('.' :: text) = (false, '.' :: text) := rfl
    simp only [Numeral.binary64?, hsign, named?_point, hdecimal]

/-- A decimal out of range is infinite. -/
theorem ofDecimal_eq_infinite {negative : Bool} {digits : Nat} {exponent : Int} :
    (Binary64.ofDecimal negative digits exponent).isFinite = false ↔
      Binary64.ofDecimal negative digits exponent = .infinite negative := by
  rw [Binary64.ofDecimal_eq_ofRatio, Binary64.ofRatio, Binary64.ofRank]
  split <;> simp [Binary64.isFinite]

/-- The value of an integer is missing exactly if it is too large. -/
theorem Form.rangeError?_integer (h : Form .integer lexeme) :
    rangeError? c ⟨.integer, String.ofList lexeme, place⟩ = some error ↔
      IsTooLarge .integer lexeme ∧ ⟨.integerRange (String.ofList lexeme), c, place⟩ = error := by
  have hvalue := int64?_of_digits h.digits.1 h.digits.2
  simp [rangeError?, Token.literal?, IsTooLarge, ← hvalue]

/-- The value of a real is missing exactly if it is infinite. -/
theorem Form.rangeError?_real (h : Form .real lexeme) :
    rangeError? c ⟨.real, String.ofList lexeme, place⟩ = some error ↔
      IsTooLarge .real lexeme ∧ ⟨.realRange (String.ofList lexeme), c, place⟩ = error := by
  obtain ⟨whole, part, power, hnumber, htext, -⟩ := h.exists_number (.inr rfl)
  obtain ⟨digits, exponent, hvalue⟩ := hnumber.binary64?
  rw [← htext] at hvalue
  simp [rangeError?, Token.literal?, IsTooLarge, hvalue, ofDecimal_eq_infinite]

/-- A token has a value, or needs none, exactly if it is not too large. -/
theorem Form.rangeError?_eq_none_iff (h : Form kind lexeme) :
    rangeError? c ⟨kind, String.ofList lexeme, place⟩ = none ↔ ¬ IsTooLarge kind lexeme := by
  rw [Option.eq_none_iff_forall_ne_some]
  cases kind with
  | integer => simp [h.rangeError?_integer]
  | real => simp [h.rangeError?_real]
  | _ => simp [rangeError?, IsTooLarge]

/-! ### Scanning by longest match -/

/-- In front of the rest a text is cut into tokens by longest match, from a place on. -/
inductive Munches (rest : List Char) : Location → List Char → List Token → Prop
  | done {place : Location} : Munches rest place [] []
  | blank {place : Location} {c : Char} {text : List Char} {found : List Token} :
      isBlank c = true → Munches rest (place.advance c) text found →
      Munches rest place (c :: text) found
  | token {place : Location} {kind : TokenKind} {lexeme behind : List Char} {found : List Token} :
      Longest kind lexeme (behind ++ rest) → ¬ IsTooLarge kind lexeme →
      Munches rest (place.after lexeme) behind found →
      Munches rest place (lexeme ++ behind) (⟨kind, String.ofList lexeme, place⟩ :: found)

/-- Where longest match comes to a stop: no beginning of the text is a lexeme, or the
longest one that is has no value. -/
inductive Refused : LexCause → List Char → Prop
  | unexpected {c : Char} {text : List Char} : isBlank c = false →
      (∀ kind lexeme, Form kind lexeme → ¬ lexeme <+: c :: text) →
      Refused .unexpected (c :: text)
  | integer {lexeme rest : List Char} : Longest .integer lexeme rest →
      IsTooLarge .integer lexeme →
      Refused (.integerRange (String.ofList lexeme)) (lexeme ++ rest)
  | real {lexeme rest : List Char} : Longest .real lexeme rest →
      IsTooLarge .real lexeme →
      Refused (.realRange (String.ofList lexeme)) (lexeme ++ rest)

/-- The text behind the rest is not looked at. -/
theorem Longest.left (h : Longest kind lexeme (behind ++ rest)) : Longest kind lexeme behind where
  form := h.form
  longest hform hprefix := by
    refine h.longest hform ?_
    rw [← List.append_assoc]
    exact hprefix.trans (List.prefix_append _ _)

/-- What is cut by longest match in front of a rest is cut so by itself. -/
theorem Munches.left (h : Munches rest place front found) : Munches [] place front found := by
  induction h with
  | done => exact .done
  | blank hblank _ ih => exact .blank hblank ih
  | token hlongest hrange _ ih =>
    refine .token ?_ hrange ih
    rw [List.append_nil]
    exact hlongest.left

/-- A lexeme becomes the first token, unless it is out of range. -/
theorem tokens_of_lexeme? {lexeme : Lexeme} (h : lexeme? (c :: text) = some lexeme) :
    tokens place (c :: text) =
      match rangeError? c (lexeme.token place) with
      | some error => .error error
      | none => (lexeme.token place :: ·) <$> tokens (place.after lexeme.text) lexeme.rest := by
  rw [tokens, if_neg (by simp [isBlank_of_lexeme? h])]
  split
  · simp_all
  · rename_i other hother
    obtain rfl : other = lexeme := Option.some.inj (hother.symm.trans h)
    rfl

/-- A lexeme that is out of range is reported at its place. -/
theorem tokens_of_rangeError? {lexeme : Lexeme} (h : lexeme? (c :: text) = some lexeme)
    (hrange : rangeError? c (lexeme.token place) = some error) :
    tokens place (c :: text) = .error error := by
  rw [tokens_of_lexeme? h, hrange]

/-- A character that is neither a blank nor the beginning of a lexeme is reported at its place.
-/
theorem tokens_of_none (hblank : isBlank c = false) (h : lexeme? (c :: text) = none) :
    tokens place (c :: text) = .error ⟨.unexpected, c, place⟩ := by
  rw [tokens, if_neg (by simp [hblank])]
  split
  · rfl
  · simp_all

/-- The scanner cuts as longest match does, and then goes on with the rest. -/
theorem Munches.tokens (h : Munches rest place front found) :
    Scan.tokens place (front ++ rest) =
      (found ++ ·) <$> Scan.tokens (place.after front) rest := by
  induction h with
  | @done place =>
    rw [List.nil_append, Location.after_nil]
    cases Scan.tokens place rest <;> rfl
  | @blank place c text found hblank _ ih =>
    rw [List.cons_append, Scan.tokens, if_pos hblank, ih, Location.after_cons]
  | @token place kind lexeme behind found hlongest hrange _ ih =>
    have hscan := lexeme?_eq_some_iff.mpr ⟨rfl, hlongest⟩
    obtain ⟨c, others, rfl⟩ := List.exists_cons_of_ne_nil hlongest.form.ne_nil
    rw [List.append_assoc, List.cons_append] at *
    have hrange : rangeError? c (Lexeme.token ⟨kind, c :: others, behind ++ rest⟩ place) = none :=
      hlongest.form.rangeError?_eq_none_iff.mpr hrange
    rw [tokens_of_lexeme? hscan, hrange, Location.after_append]
    simp only [ih]
    cases Scan.tokens ((place.after (c :: others)).after behind) rest <;> rfl

/-- Where longest match comes to a stop, the scanner fails at the character there. -/
theorem Refused.tokens {cause : LexCause} (h : Refused cause (c :: rest)) :
    Scan.tokens place (c :: rest) = .error ⟨cause, c, place⟩ := by
  generalize htext : c :: rest = text at h
  cases h with
  | unexpected hblank hnone =>
    cases htext
    exact tokens_of_none hblank (lexeme?_eq_none_iff.mpr hnone)
  | integer hlongest hrange =>
    rw [← htext]
    exact tokens_of_rangeError? (lexeme?_eq_some_iff.mpr ⟨htext, hlongest⟩)
      (hlongest.form.rangeError?_integer.mpr ⟨hrange, rfl⟩)
  | real hlongest hrange =>
    rw [← htext]
    exact tokens_of_rangeError? (lexeme?_eq_some_iff.mpr ⟨htext, hlongest⟩)
      (hlongest.form.rangeError?_real.mpr ⟨hrange, rfl⟩)

/-- A lexeme without a value stops longest match. -/
theorem refused_of_rangeError? {lexeme : Lexeme} (h : lexeme? text = some lexeme)
    (hrange : rangeError? c (lexeme.token place) = some error) :
    Refused error.cause text := by
  obtain ⟨rfl, hlongest⟩ := lexeme?_eq_some_iff.mp h
  obtain ⟨kind, lexeme, rest⟩ := lexeme
  cases kind with
  | integer =>
    obtain ⟨hlarge, rfl⟩ := hlongest.form.rangeError?_integer.mp hrange
    exact .integer hlongest hlarge
  | real =>
    obtain ⟨hlarge, rfl⟩ := hlongest.form.rangeError?_real.mp hrange
    exact .real hlongest hlarge
  | _ => cases hrange

/-- Longest match comes to the end of the text, or to a place where it stops. -/
theorem munches_or_refused (place : Location) (text : List Char) :
    (∃ found, Munches [] place text found) ∨
      ∃ front c rest found cause, text = front ++ c :: rest ∧
        Munches (c :: rest) place front found ∧ Refused cause (c :: rest) := by
  fun_induction Scan.tokens place text with
  | case1 place => exact .inl ⟨[], .done⟩
  | case2 place c text hblank ih =>
    obtain ⟨found, hmunches⟩ | ⟨front, stop, rest, found, cause, rfl, hmunches, hrefused⟩ := ih
    · exact .inl ⟨found, .blank hblank hmunches⟩
    · exact .inr ⟨c :: front, stop, rest, found, cause, rfl, .blank hblank hmunches, hrefused⟩
  | case3 place c text hblank hnone =>
    refine .inr ⟨[], c, text, [], .unexpected, rfl, .done, .unexpected (by simpa using hblank) ?_⟩
    exact lexeme?_eq_none_iff.mp hnone
  | case4 place c text hblank lexeme hlexeme error hrange =>
    exact .inr ⟨[], c, text, [], error.cause, rfl, .done, refused_of_rangeError? hlexeme hrange⟩
  | case5 place c text hblank lexeme hlexeme hrange ih =>
    obtain ⟨htext, hlongest⟩ := lexeme?_eq_some_iff.mp hlexeme
    have hvalue := hlongest.form.rangeError?_eq_none_iff.mp hrange
    obtain ⟨found, hmunches⟩ | ⟨front, stop, rest, found, cause, hrest, hmunches, hrefused⟩ := ih
    · rw [htext]
      exact .inl ⟨_, .token (by simpa using hlongest) hvalue hmunches⟩
    · refine .inr ⟨lexeme.text ++ front, stop, rest, _, cause, ?_,
        .token (by simpa [← hrest] using hlongest) hvalue hmunches, hrefused⟩
      rw [htext, hrest, List.append_assoc]

end Scan

open Scan

/-- A formula has tokens exactly if longest match comes to its end, and they are the ones
it takes and the end of the input. Scanning fails exactly where longest match stops
short of the end: at the first character that is left, for the reason that no lexeme begins
there or that the longest one is a number too large. What lies in front of it has
tokens, the same ones that were taken before the failure. -/
theorem tokenize_maximal_munch (source : String) :
    (∀ tokens, tokenize source = .ok tokens ↔ ∃ found,
      Munches [] .start source.toList found ∧
        tokens = found ++ [⟨.ending, "", .behind source⟩]) ∧
    (∀ error, tokenize source = .error error ↔ ∃ front rest found,
      source.toList = front ++ error.offending :: rest ∧
        Munches (error.offending :: rest) .start front found ∧
        Refused error.cause (error.offending :: rest) ∧
        error.location = .behind (String.ofList front) ∧
        tokenize (String.ofList front) = .ok (found ++ [⟨.ending, "", error.location⟩])) := by
  have hbehind : ∀ front, Location.start.after front = .behind (String.ofList front) := by
    intro front
    rw [← Location.behind_empty, Location.after_behind, String.empty_append]
  have hscanned : ∀ {front found}, Munches [] .start front found →
      tokenize (String.ofList front) =
        .ok (found ++ [⟨.ending, "", .behind (String.ofList front)⟩]) := by
    intro front found hmunches
    have htokens := hmunches.tokens
    rw [List.append_nil, Scan.tokens, hbehind] at htokens
    rw [tokenize, String.toList_ofList, htokens]
    rfl
  have hstopped : ∀ {front c rest found cause}, source.toList = front ++ c :: rest →
      Munches (c :: rest) .start front found → Refused cause (c :: rest) →
      tokenize source = .error ⟨cause, c, .behind (String.ofList front)⟩ := by
    intro front c rest found cause htext hmunches hrefused
    rw [tokenize, htext, hmunches.tokens, hrefused.tokens, hbehind]
    rfl
  -- Longest match ends in one of two ways, each of which leads to one answer only.
  constructor
  · intro tokens
    constructor
    · intro h
      obtain ⟨found, hmunches⟩ | ⟨front, c, rest, found, cause, htext, hmunches, hrefused⟩ :=
        munches_or_refused .start source.toList
      · have htokens := hscanned hmunches
        rw [String.ofList_toList, h] at htokens
        exact ⟨found, hmunches, Except.ok.inj htokens⟩
      · rw [hstopped htext hmunches hrefused] at h
        cases h
    · rintro ⟨found, hmunches, rfl⟩
      simpa using hscanned hmunches
  · intro error
    constructor
    · intro h
      obtain ⟨found, hmunches⟩ | ⟨front, c, rest, found, cause, htext, hmunches, hrefused⟩ :=
        munches_or_refused .start source.toList
      · have htokens := hscanned hmunches
        rw [String.ofList_toList, h] at htokens
        cases htokens
      · rw [hstopped htext hmunches hrefused] at h
        cases h
        exact ⟨front, rest, found, htext, hmunches, hrefused, rfl, hscanned hmunches.left⟩
    · rintro ⟨front, rest, found, htext, hmunches, hrefused, hlocation, -⟩
      rw [hstopped htext hmunches hrefused, ← hlocation]

/-- A mark without digits behind it does not belong to the number. -/
example : (tokenize "2e+").map (List.map Token.piece) =
    .ok [(.integer, "2"), (.letter, "e"), (.operator, "+"), (.ending, "")] := by decide +kernel

end Formula
