import Formula.Proofs.Expr.Parsed
import Formula.Proofs.Nested.Inverse
import Formula.Proofs.Token.Munch

/-!
# Names are the words of the scanner

Nested sequences test a name character by character, and the scanner comes upon words while it
cuts a text. A text passes the test exactly if the scanner makes a single word of it, and the
words of one letter are the variables of nested sequences.
-/

namespace Formula

/-- The scanner makes one word of a text, at its beginning, and is then at the end. -/
structure ScansAsWord (text : String) (word ending : Token) : Prop where
  tokens : tokenize text = .ok [word, ending]
  kind : word.kind = .letter ∨ word.kind = .identifier
  text : word.text = text
  offset : word.location.offset = 0
  ending : ending.isEnding

section

variable {text : String} {word ending : Token} {name : Char}

/-- A name is a letter with letters, digits, underscores and dollar signs behind it. -/
theorem isName_iff : isName text = true ↔ ∃ c others, text.toList = c :: others ∧
    c.isAlpha = true ∧ ∀ other ∈ others, isWordChar other = true := by
  unfold isName
  cases text.toList with
  | nil => simp
  | cons c others => simp

/-- A name is a single word: a letter if it has one character and an identifier otherwise. -/
theorem tokenize_of_isName (h : isName text = true) :
    tokenize text = .ok [⟨if text.length = 1 then .letter else .identifier, text, .start⟩,
      ⟨.ending, "", .behind text⟩] := by
  obtain ⟨c, others, htext, hc, hothers⟩ := isName_iff.mp h
  have hkind : (if others.isEmpty then TokenKind.letter else .identifier) =
      if text.length = 1 then .letter else .identifier := by
    rw [← String.length_toList, htext]
    cases others <;> simp
  have hlexeme : Scan.lexeme? (c :: others) =
      some ⟨if text.length = 1 then .letter else .identifier, c :: others, []⟩ := by
    rw [Scan.lexeme?_word hc, Scan.word, ← hkind]
    simp only [List.takeWhile_eq_self_iff.mpr hothers, List.dropWhile_eq_nil_iff.mpr hothers]
  have hrange : Scan.rangeError? c (Scan.Lexeme.token
      ⟨if text.length = 1 then .letter else .identifier, c :: others, []⟩ .start) = none := by
    rw [← hkind]
    cases others <;> rfl
  have hplace : Location.start.after (c :: others) = .behind text := by
    rw [← Location.behind_empty, Location.after_behind, ← htext, String.ofList_toList,
      String.empty_append]
  rw [tokenize, htext, Scan.tokens_of_lexeme? hlexeme, hrange, hplace]
  simp only [Scan.tokens, Scan.Lexeme.token, ← htext, String.ofList_toList]
  rfl

/-- A single word is a name. -/
theorem ScansAsWord.isName (h : ScansAsWord text word ending) : isName text = true := by
  obtain ⟨lexemes, happend, hlexemes⟩ := Scan.tokens_eq_append h.tokens
  have hword : word ∈ lexemes := by
    have hlast := congrArg List.dropLast happend
    rw [List.dropLast_concat] at hlast
    rw [← hlast]
    exact List.mem_cons_self
  have hname := (hlexemes word hword).isName h.kind.symm
  rwa [h.text] at hname

/-- A single word is a letter exactly if it has one character. -/
theorem ScansAsWord.kind_eq_letter_iff (h : ScansAsWord text word ending) :
    word.kind = .letter ↔ text.length = 1 := by
  have htokens := h.tokens
  rw [tokenize_of_isName h.isName] at htokens
  cases htokens
  by_cases hone : text.length = 1 <;> simp [hone]

namespace Nested

/-- A symbol stands for a variable exactly if it is a letter. -/
theorem toExpr_symbol_eq_var_iff :
    (symbol text).toExpr = .ok (.var name) ↔
      text = String.singleton name ∧ name.isAlpha = true := by
  rw [toExpr]
  constructor
  · intro h
    split at h
    · rename_i found hletter
      cases h
      exact eq_singleton_of_letter? hletter
    · cases h
  · rintro ⟨rfl, halpha⟩
    rw [letter?_singleton halpha]

end Nested

/-- A name of one character is a variable of nested sequences. -/
theorem exists_var_iff_of_isName (h : isName text = true) :
    (∃ name, text = String.singleton name ∧ (Nested.symbol text).toExpr = .ok (.var name)) ↔
      text.length = 1 := by
  constructor
  · rintro ⟨name, rfl, -⟩
    exact String.length_singleton
  · intro hone
    obtain ⟨c, others, htext, hc, -⟩ := isName_iff.mp h
    rw [← String.length_toList, htext] at hone
    obtain rfl : others = [] := by simpa using hone
    have hsingle : text = String.singleton c := by
      rw [← String.ofList_toList (s := text), htext]
      rfl
    exact ⟨c, hsingle, Nested.toExpr_symbol_eq_var_iff.mpr ⟨hsingle, hc⟩⟩

end

/-- A text is a name exactly if the scanner makes a single word of it, at its beginning, with
nothing but the end of the input behind it. This word is a variable exactly if the text is one
character that nested sequences have for a variable. -/
theorem isName_iff_scansAsWord (text : String) :
    (isName text = true ↔ ∃ word ending, ScansAsWord text word ending) ∧
    ∀ word ending, ScansAsWord text word ending → (word.kind = .letter ↔
      ∃ name, text = String.singleton name ∧
        (Nested.symbol text).toExpr = .ok (.var name)) := by
  refine ⟨⟨fun h => ⟨_, _, tokenize_of_isName h, ?_, rfl, rfl, rfl⟩, ?_⟩, fun word ending h => ?_⟩
  · by_cases hone : text.length = 1 <;> simp [hone]
  · rintro ⟨word, ending, h⟩
    exact h.isName
  · rw [h.kind_eq_letter_iff, exists_var_iff_of_isName h.isName]

/-- A logarithm to the base two has a name, which is no variable; a letter is both. -/
theorem isName_iff_scansAsWord_log :
    let log : Token := ⟨.identifier, "log_2$", .start⟩
    let x : Token := ⟨.letter, "x", .start⟩
    isName "log_2$" = true ∧ ScansAsWord "log_2$" log ⟨.ending, "", ⟨6, 1, 7⟩⟩ ∧
      (¬ ∃ name, "log_2$" = String.singleton name ∧
        (Nested.symbol "log_2$").toExpr = .ok (.var name)) ∧
      ScansAsWord "x" x ⟨.ending, "", ⟨1, 1, 2⟩⟩ ∧
      ∃ name, "x" = String.singleton name ∧ (Nested.symbol "x").toExpr = .ok (.var name) := by
  intro log x
  have hlog : ScansAsWord "log_2$" log ⟨.ending, "", ⟨6, 1, 7⟩⟩ :=
    ⟨by decide +kernel, .inr rfl, rfl, rfl, rfl⟩
  have hx : ScansAsWord "x" x ⟨.ending, "", ⟨1, 1, 2⟩⟩ :=
    ⟨by decide +kernel, .inl rfl, rfl, rfl, rfl⟩
  obtain ⟨hname, hletter⟩ := isName_iff_scansAsWord "log_2$"
  obtain ⟨-, hvariable⟩ := isName_iff_scansAsWord "x"
  refine ⟨hname.mpr ⟨_, _, hlog⟩, hlog, ?_, hx, (hvariable _ _ hx).mp rfl⟩
  intro hvar
  cases (hletter _ _ hlog).mpr hvar

end Formula
