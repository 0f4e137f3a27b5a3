import Formula.Proofs.Token.Refusal

/-!
# The forms of lexemes

Numbers, words, parentheses and operators, as a grammar would describe them. The lexeme
at the head of a text is the longest of its beginnings that has one of these forms, and
there is none where no beginning has.
-/

namespace Formula

open Numeral (Digits isExponentMark)

namespace Scan

/-- Nothing, or a point with any digits behind it. -/
inductive IsFraction : List Char → Prop
  | nil : IsFraction []
  | point {places : List Char} : Digits places → IsFraction ('.' :: places)

/-- Nothing, a plus or a minus. -/
inductive IsSign : List Char → Prop
  | nil : IsSign []
  | plus : IsSign ['+']
  | minus : IsSign ['-']

/-- Nothing, or a mark with an optional sign and at least one digit behind it. -/
inductive IsExponent : List Char → Prop
  | nil : IsExponent []
  | mark {c : Char} {sign power : List Char} : isExponentMark c = true → IsSign sign →
      Digits power → power ≠ [] → IsExponent (c :: (sign ++ power))

/-- A number in its parts, with a digit in front of the point or right behind it. -/
structure IsNumber (whole part power : List Char) : Prop where
  digits : Digits whole
  fraction : IsFraction part
  exponent : IsExponent power
  nonempty : whole ≠ [] ∨ 2 ≤ part.length

/-- What the lexemes of each kind look like. -/
inductive Form : TokenKind → List Char → Prop
  | number {whole part power : List Char} : IsNumber whole part power →
      Form (if part.isEmpty && power.isEmpty then .integer else .real) (whole ++ part ++ power)
  | word {first : Char} {others : List Char} : first.isAlpha = true →
      (∀ other ∈ others, isWordChar other = true) →
      Form (if others.isEmpty then .letter else .identifier) (first :: others)
  | leftParen : Form .leftParen ['(']
  | rightParen : Form .rightParen [')']
  | operator (op : Operator) : Form .operator [op.char]

/-- The lexeme has a form, and in front of the rest no longer beginning of the text has one. -/
structure Longest (kind : TokenKind) (lexeme rest : List Char) : Prop where
  form : Form kind lexeme
  longest : ∀ {other longer}, Form other longer → longer <+: lexeme ++ rest →
    longer.length ≤ lexeme.length

variable {text rest whole part power : List Char} {kind : TokenKind}

/-! ### What is scanned has a form -/

/-- The digits that are split off are digits. -/
theorem digits_fst (text : List Char) : Digits (digits text).1 :=
  fun _ hc => List.mem_takeWhile_imp hc

/-- What is split off as a fraction has the form of one, or is nothing. -/
theorem isFraction_fst (text : List Char) : IsFraction (fraction text).1 := by
  unfold fraction
  split
  · exact .point (digits_fst _)
  · exact .nil

/-- What is split off as a sign has the form of one, or is nothing. -/
theorem isSign_fst (text : List Char) : IsSign (sign text).1 := by
  unfold sign
  split
  · split
    · rename_i hsign
      rcases hsign with rfl | rfl
      · exact .plus
      · exact .minus
    · exact .nil
  · exact .nil

/-- What is split off as an exponent has the form of one, or is nothing. -/
theorem isExponent_fst (text : List Char) : IsExponent (exponent text).1 := by
  cases text with
  | nil => exact .nil
  | cons c text =>
    simp only [exponent]
    split
    · rename_i hmark
      obtain ⟨hmark, hpower⟩ := Bool.and_eq_true_iff.mp hmark
      exact .mark hmark (isSign_fst _) (digits_fst _) (by simpa using hpower)
    · exact .nil

/-- What is scanned as a number is one if a digit is in front, or a point before a digit. -/
theorem form_number {c : Char} (h : c.isDigit || (c == '.' && startsWithDigit text)) :
    Form (number (c :: text)).kind (number (c :: text)).text := by
  refine Form.number ⟨digits_fst (c :: text), isFraction_fst _, isExponent_fst _, ?_⟩
  by_cases hc : c.isDigit
  · exact .inl (by simp [hc])
  · obtain ⟨rfl, hdigit⟩ : c = '.' ∧ startsWithDigit text := by simpa [hc] using h
    obtain ⟨next, others, rfl⟩ : ∃ next others, text = next :: others := by
      cases text with
      | nil => simp [startsWithDigit] at hdigit
      | cons next others => exact ⟨next, others, rfl⟩
    have hnext : next.isDigit = true := hdigit
    right
    simp [digits, hc, hnext]

/-- A lexeme has the form of its kind. -/
theorem form_of_lexeme? {lexeme : Lexeme} (h : lexeme? text = some lexeme) :
    Form lexeme.kind lexeme.text := by
  cases text with
  | nil => cases h
  | cons c text =>
    rcases lexeme?_cases h with
      ⟨hnumber, rfl⟩ | ⟨halpha, rfl⟩ | ⟨rfl, rfl⟩ | ⟨rfl, rfl⟩ | ⟨hop, rfl⟩
    · exact form_number hnumber
    · exact .word halpha fun _ hc => List.mem_takeWhile_imp hc
    · exact .leftParen
    · exact .rightParen
    · obtain ⟨op, hop⟩ := Option.isSome_iff_exists.mp hop
      obtain rfl := Operator.ofChar?_eq_some_iff.mp hop
      exact .operator op

/-! ### What has a form is scanned -/

/-- Digits are followed by the digits of the text behind them. -/
theorem digits_append_right (h : Digits whole) (rest : List Char) :
    digits (whole ++ rest) = (whole ++ (digits rest).1, (digits rest).2) := by
  rw [digits, List.takeWhile_append_of_pos h, List.dropWhile_append_of_pos h, digits]

/-- In front of the digits of an exponent its sign is split off, if it has one. -/
theorem sign_append_right (h : IsSign whole) (hdigits : Digits power) (hne : power ≠ [])
    (rest : List Char) : sign (whole ++ power ++ rest) = (whole, power ++ rest) := by
  cases h with
  | nil =>
    obtain ⟨c, others, rfl⟩ := List.exists_cons_of_ne_nil hne
    have hc := hdigits c List.mem_cons_self
    have hplus : c ≠ '+' := Numeral.Written.ne_of_digit hc (by decide)
    have hminus : c ≠ '-' := Numeral.Written.ne_of_digit hc (by decide)
    simp [sign, hplus, hminus]
  | plus => rfl
  | minus => rfl

/-- An exponent goes on with the digits of the text behind it. -/
theorem exponent_append_right (h : IsExponent power) (hne : power ≠ []) (rest : List Char) :
    exponent (power ++ rest) = (power ++ (digits rest).1, (digits rest).2) := by
  cases h with
  | nil => exact absurd rfl hne
  | mark hmark hsign hdigits hpower =>
    simp only [List.cons_append, exponent, sign_append_right hsign hdigits hpower,
      digits_append_right hdigits, hmark]
    simp [hpower]

/-- No exponent begins with a point or a digit. -/
theorem IsExponent.head (h : IsExponent power) :
    ∀ c, power.head? = some c → c.isDigit = false ∧ c ≠ '.' := by
  rintro c hc
  cases h with
  | nil => cases hc
  | mark hmark =>
    cases hc
    have hexponent : c = 'e' ∨ c = 'E' := by simpa [isExponentMark] using hmark
    rcases hexponent with rfl | rfl <;> decide

/-- Without a point there is no fraction. -/
theorem fraction_of_head {text : List Char} (h : ∀ c, text.head? = some c → c ≠ '.') :
    fraction text = ([], text) := by
  unfold fraction
  split
  · exact absurd rfl (h _ rfl)
  · rfl

/-- In front of any text the scanner takes in a whole number, and what it takes in is no
other kind of number unless it goes on. -/
theorem number_append_right (h : IsNumber whole part power) (rest : List Char) :
    whole ++ part ++ power <+: (number (whole ++ part ++ power ++ rest)).text ∧
      ((number (whole ++ part ++ power ++ rest)).text = whole ++ part ++ power →
        (number (whole ++ part ++ power ++ rest)).kind =
          if part.isEmpty && power.isEmpty then .integer else .real) := by
  obtain ⟨hwhole, hpart, hpower, -⟩ := h
  -- An exponent ends the digits in front of it; without one they may go on into the rest.
  by_cases hnil : power = []
  · subst hnil
    cases hpart with
    | nil =>
      have hdigits := digits_append_right hwhole rest
      simp only [number, List.append_nil, hdigits, List.append_assoc]
      refine ⟨List.prefix_append _ _, fun htext => ?_⟩
      have hmore := List.append_right_eq_self.mp htext
      simp only [List.append_eq_nil_iff] at hmore
      simp [hmore]
    | point hplaces =>
      have hpoint : ∀ behind, digits (whole ++ '.' :: behind) = (whole, '.' :: behind) := by
        refine fun behind => digits_append_stop hwhole ?_
        rintro _ ⟨⟩
        decide
      have hfraction := digits_append_right hplaces rest
      simp only [number, List.append_nil, List.append_assoc, List.cons_append, hpoint, fraction,
        hfraction]
      refine ⟨?_, fun _ => by simp⟩
      rw [List.prefix_append_right_inj, List.cons_prefix_cons]
      exact ⟨rfl, List.prefix_append _ _⟩
  · have hhead : ∀ c, (power ++ rest).head? = some c → c.isDigit = false ∧ c ≠ '.' := by
      intro c hc
      obtain ⟨mark, behind, rfl⟩ := List.exists_cons_of_ne_nil hnil
      exact hpower.head c hc
    have hfraction : fraction (part ++ (power ++ rest)) = (part, power ++ rest) := by
      cases hpart with
      | nil => exact fraction_of_head fun c hc => (hhead c hc).2
      | point hplaces =>
        rw [List.cons_append, fraction, digits_append_stop hplaces fun c hc => (hhead c hc).1]
    have hdigits : digits (whole ++ (part ++ (power ++ rest))) =
        (whole, part ++ (power ++ rest)) := by
      refine digits_append_stop hwhole fun c hc => ?_
      cases hpart with
      | nil => exact (hhead c hc).1
      | point =>
        cases hc
        decide
    simp only [number, List.append_assoc, hdigits, hfraction, exponent_append_right hpower hnil]
    refine ⟨?_, fun _ => by simp [hnil]⟩
    rw [List.prefix_append_right_inj, List.prefix_append_right_inj]
    exact List.prefix_append _ _

/-- A number begins with a digit, or with a point before one. -/
theorem IsNumber.exists_head (h : IsNumber whole part power) (rest : List Char) :
    ∃ c text, whole ++ part ++ power ++ rest = c :: text ∧
      (c.isDigit || (c == '.' && startsWithDigit text)) = true := by
  cases whole with
  | cons c others =>
    exact ⟨c, others ++ part ++ power ++ rest, rfl, by simp [h.digits c List.mem_cons_self]⟩
  | nil =>
    obtain hne | hlength := h.nonempty
    · exact absurd rfl hne
    · cases h.fraction with
      | nil => simp at hlength
      | point hplaces =>
        rename_i places
        cases places with
        | nil => simp at hlength
        | cons c others =>
          exact ⟨'.', c :: (others ++ power ++ rest), by simp,
            by simp [startsWithDigit, hplaces c List.mem_cons_self]⟩

/-- In front of any text the scanner takes in a whole lexeme, and of the same kind unless
it goes on. -/
theorem Form.lexeme? {lexeme : List Char} (h : Form kind lexeme) (rest : List Char) :
    ∃ found, Scan.lexeme? (lexeme ++ rest) = some found ∧ lexeme <+: found.text ∧
      (found.text = lexeme → found.kind = kind) := by
  cases h with
  | number hnumber =>
    obtain ⟨c, text, htext, hhead⟩ := hnumber.exists_head rest
    refine ⟨Scan.number (c :: text), by rw [htext, Scan.lexeme?, if_pos hhead], ?_⟩
    rw [← htext]
    exact number_append_right hnumber rest
  | @word first others halpha hothers =>
    have htake : (others ++ rest).takeWhile isWordChar = others ++ rest.takeWhile isWordChar :=
      List.takeWhile_append_of_pos hothers
    refine ⟨Scan.word first (others ++ rest), lexeme?_word halpha _, ?_, fun htext => ?_⟩
    · simp [Scan.word, htake]
    · simp only [Scan.word, htake, List.cons.injEq, true_and] at htext ⊢
      rw [htext]
  | leftParen => exact ⟨_, rfl, List.prefix_rfl, fun _ => rfl⟩
  | rightParen => exact ⟨_, rfl, List.prefix_rfl, fun _ => rfl⟩
  | operator op =>
    have hscan : Scan.lexeme? ([op.char] ++ rest) = some ⟨.operator, [op.char], rest⟩ := by
      cases op <;> rfl
    exact ⟨_, hscan, List.prefix_rfl, fun _ => rfl⟩

/-- The scanner takes off a lexeme exactly if it is the longest one that the text begins
with. -/
theorem lexeme?_eq_some_iff {lexeme : List Char} :
    Scan.lexeme? text = some ⟨kind, lexeme, rest⟩ ↔
      text = lexeme ++ rest ∧ Longest kind lexeme rest := by
  constructor
  · intro h
    have htext : lexeme ++ rest = text := lexeme?_append h
    refine ⟨htext.symm, form_of_lexeme? h, fun {other longer} hform hprefix => ?_⟩
    obtain ⟨behind, hbehind⟩ := htext ▸ hprefix
    obtain ⟨found, hfound, hle, -⟩ := hform.lexeme? behind
    rw [hbehind, h] at hfound
    cases hfound
    exact hle.length_le
  · rintro ⟨rfl, hlongest⟩
    obtain ⟨found, hfound, hle, hkind⟩ := hlongest.form.lexeme? rest
    have happend := lexeme?_append hfound
    have hlength := hlongest.longest (form_of_lexeme? hfound) (happend ▸ List.prefix_append _ _)
    have htext : found.text = lexeme := (hle.eq_of_length_le hlength).symm
    have hrest : found.rest = rest := by
      rw [htext] at happend
      exact List.append_cancel_left happend
    rw [hfound, ← hkind htext, ← htext, ← hrest]

/-- No lexeme is taken off exactly if no beginning of the text has a form. -/
theorem lexeme?_eq_none_iff :
    Scan.lexeme? text = none ↔ ∀ kind lexeme, Form kind lexeme → ¬ lexeme <+: text := by
  constructor
  · rintro h kind lexeme hform ⟨rest, rfl⟩
    obtain ⟨found, hfound, -⟩ := hform.lexeme? rest
    rw [h] at hfound
    cases hfound
  · intro h
    by_contra hsome
    obtain ⟨found, hfound⟩ := Option.ne_none_iff_exists'.mp hsome
    exact h _ _ (form_of_lexeme? hfound) (lexeme?_append hfound ▸ List.prefix_append _ _)

/-- A text with a form is a lexeme by itself. -/
theorem Form.lexeme?_self {lexeme : List Char} (h : Form kind lexeme) :
    Scan.lexeme? lexeme = some ⟨kind, lexeme, []⟩ := by
  refine lexeme?_eq_some_iff.mpr ⟨(List.append_nil lexeme).symm, h, fun _ hprefix => ?_⟩
  simpa using hprefix.length_le

/-- No character of a lexeme is a blank. -/
theorem Form.isBlank_of_mem {lexeme : List Char} {c : Char} (h : Form kind lexeme)
    (hc : c ∈ lexeme) : isBlank c = false :=
  isBlank_of_mem_lexeme h.lexeme?_self hc

/-- No lexeme is empty. -/
theorem Form.ne_nil {lexeme : List Char} (h : Form kind lexeme) : lexeme ≠ [] :=
  lexeme?_ne_nil h.lexeme?_self

end Scan

end Formula
