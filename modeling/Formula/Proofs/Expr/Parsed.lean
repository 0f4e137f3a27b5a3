import Formula.Diagnostic
import Formula.Proofs.Expr.Pieces
import Formula.Proofs.Parse.Recognition
import Formula.Proofs.Token.Lossless

/-!
# Parsed trees are well-formed

A lexeme has no sign in it, so that the numerals of a formula stand for numbers that
are not negative, and its words are names. A tree that is derived from lexemes
consists of such literals and names only.
-/

namespace Formula

namespace Binary64

/-- A decimal number has the sign that it is read with. -/
theorem isNegative_ofDecimal (negative : Bool) (digits : Nat) (exponent : Int) :
    (ofDecimal negative digits exponent).isNegative = negative := by
  have hratio : ∀ numerator denominator,
      (ofRatio negative numerator denominator).isNegative = negative := by
    intro numerator denominator
    unfold ofRatio ofRank
    split <;> rfl
  unfold ofDecimal
  split
  · rfl
  split
  · rfl
  split
  · rfl
  split <;> exact hratio _ _

end Binary64

namespace Numeral

variable {text : List Char}

/-- A numeral that does not begin with a minus has no sign split off but a plus. -/
theorem splitSign_of_head (h : text.head? ≠ some '-') : (splitSign text).1 = false := by
  unfold splitSign
  split
  · rfl
  · exact absurd rfl h
  · rfl

/-- An integer numeral without a minus is not negative. -/
theorem nonneg_of_int64? {value : Int64} (hhead : text.head? ≠ some '-')
    (h : int64? text = some value) : 0 ≤ value := by
  obtain ⟨n, hn, hrange⟩ := Option.bind_eq_some_iff.mp h
  simp only [integer?, splitSign_of_head hhead, Bool.false_eq_true, if_false] at hn
  obtain ⟨_, hm, rfl⟩ := Option.map_eq_some_iff.mp hn
  obtain ⟨m, -, hm⟩ := Option.bind_eq_some_iff.mp hm
  cases hm
  split at hrange
  · rename_i hle
    cases hrange
    rw [Int64.toInt_minValue, Int64.toInt_maxValue] at hle
    rw [Int64.le_iff_toInt_le, Int64.toInt_ofInt_of_le (by omega) (by omega)]
    exact Int.natCast_nonneg m
  · cases hrange

/-- The names of infinity and of not-a-number have the sign that is split off. -/
theorem isNegative_of_named? {value : Binary64} (h : named? false text = some value) :
    value.isNegative = false := by
  unfold named? at h
  split at h <;> cases h <;> rfl

/-- A real numeral without a minus has no sign. -/
theorem isNegative_of_binary64? {value : Binary64} (hhead : text.head? ≠ some '-')
    (h : binary64? text = some value) : value.isNegative = false := by
  have hsign := splitSign_of_head hhead
  simp only [binary64?, hsign, decimal?] at h
  split at h
  · rename_i named hnamed
    cases h
    exact isNegative_of_named? hnamed
  · split at h
    · cases h
      exact Binary64.isNegative_ofDecimal _ _ _
    · cases h

end Numeral

namespace Scan

variable {token : Token}

/-- The first character of a lexeme is that of the text. -/
theorem head?_lexeme {c : Char} {text : List Char} {lexeme : Lexeme}
    (h : lexeme? (c :: text) = some lexeme) : lexeme.text.head? = some c := by
  have happend := lexeme?_append h
  obtain ⟨first, others, hcons⟩ := List.exists_cons_of_ne_nil (lexeme?_ne_nil h)
  rw [hcons, List.cons_append] at happend
  rw [hcons, List.head?_cons, (List.cons.inj happend).1]

/-- No lexeme begins with a minus but the operator. -/
theorem IsLexeme.head?_ne_minus (h : IsLexeme token) (hkind : token.kind ≠ .operator) :
    token.text.toList.head? ≠ some '-' := by
  obtain ⟨text, lexeme, hlexeme, htoken, -⟩ := h
  rw [← htoken] at hkind ⊢
  cases text with
  | nil => cases hlexeme
  | cons c text =>
    have hhead := head?_lexeme hlexeme
    intro hminus
    obtain rfl : c = '-' := by simpa [Lexeme.token, hhead] using hminus
    rcases lexeme?_cases hlexeme with ⟨hc, -⟩ | ⟨hc, -⟩ | ⟨hc, -⟩ | ⟨hc, -⟩ | ⟨-, rfl⟩
    · cases hc
    · cases hc
    · cases hc
    · cases hc
    · exact hkind rfl

/-- The literal of a lexeme is well-formed. -/
theorem IsLexeme.wellFormed_literal {value : Literal} (h : IsLexeme token)
    (hvalue : token.literal? = some value) : value.WellFormed := by
  have hkind : token.kind ≠ .operator := by
    rcases Token.kind_of_literal? hvalue with hk | hk <;> simp [hk]
  have hhead := h.head?_ne_minus hkind
  unfold Token.literal? at hvalue
  split at hvalue
  · obtain ⟨n, hn, rfl⟩ := Option.map_eq_some_iff.mp hvalue
    exact Numeral.nonneg_of_int64? hhead hn
  · obtain ⟨x, hx, rfl⟩ := Option.map_eq_some_iff.mp hvalue
    obtain ⟨hread, hfinite⟩ := Option.filter_eq_some_iff.mp hx
    exact ⟨hfinite, Numeral.isNegative_of_binary64? hhead hread⟩
  · cases hvalue

/-- A word among the lexemes is a name; one of a single letter is called a letter. -/
theorem IsLexeme.isName (h : IsLexeme token)
    (hkind : token.kind = .identifier ∨ token.kind = .letter) : Formula.isName token.text := by
  obtain ⟨text, lexeme, hlexeme, htoken, -⟩ := h
  rw [← htoken] at hkind ⊢
  cases text with
  | nil => cases hlexeme
  | cons c text =>
    rcases lexeme?_cases hlexeme with ⟨-, rfl⟩ | ⟨hc, rfl⟩ | ⟨-, rfl⟩ | ⟨-, rfl⟩ | ⟨-, rfl⟩
    · simp only [Lexeme.token, number] at hkind
      split at hkind <;> simp at hkind
    · simp [Lexeme.token, word, Formula.isName, hc, List.all_takeWhile]
    all_goals simp [Lexeme.token] at hkind

/-- A variable among the lexemes is a letter. -/
theorem IsLexeme.isAlpha {name : Char} (h : IsLexeme token) (spells : token.Spells (.var name)) :
    name.isAlpha := by
  obtain ⟨hkind, hhead⟩ := spells
  have hname := h.isName (.inr hkind)
  obtain ⟨others, htext⟩ := List.head?_eq_some_iff.mp hhead
  rw [Formula.isName, htext] at hname
  exact (Bool.and_eq_true_iff.mp hname).1

end Scan

namespace Derivation

variable {all levels : List Level} {tokens : List Token} {e : Expr}

/-- A tree that is derived from lexemes is well-formed. -/
theorem wellFormed (derivation : Derivation all levels tokens e)
    (h : ∀ token ∈ tokens, Scan.IsLexeme token) : e.WellFormed := by
  induction derivation with
  | literal spells => exact (h _ List.mem_cons_self).wellFormed_literal spells
  | var spells => exact (h _ List.mem_cons_self).isAlpha spells
  | paren opens closes body ih => exact ih fun token hmem => h token (by simp [hmem])
  | tighter body ih => exact ih h
  | @prefixed level rest token tokens op e fixity member spells operand ih =>
    have hoperand := ih fun token hmem => h token (List.mem_cons_of_mem _ hmem)
    cases op with
    | apply name =>
      obtain ⟨hkind, rfl⟩ := spells
      exact ⟨(h token List.mem_cons_self).isName hkind, hoperand⟩
    | plus => exact ⟨trivial, hoperand⟩
    | minus => exact ⟨trivial, hoperand⟩
  | postfixed fixity member spells operand ih =>
    exact ih fun token hmem => h token (List.mem_append_left _ hmem)
  | left fixity member spells first second ihl ihr =>
    exact ⟨ihl fun token hmem => h token (List.mem_append_left _ hmem),
      ihr fun token hmem => h token (by simp [hmem])⟩
  | right fixity member spells first second ihl ihr =>
    exact ⟨ihl fun token hmem => h token (List.mem_append_left _ hmem),
      ihr fun token hmem => h token (by simp [hmem])⟩

end Derivation

/-- The tree of a formula is well-formed, whatever the precedence table is. -/
theorem wellFormed_of_parseWith {grammar : Grammar} {source : String} {e : Expr}
    (h : parseWith grammar source = .ok e) : e.WellFormed := by
  obtain ⟨tokens, htokens, hparsed⟩ := exists_tokens_of_parseWith h
  obtain ⟨derivation⟩ := Parse.derives_of_parseTokens hparsed
  obtain ⟨lexemes, rfl, hlexemes⟩ := Scan.tokens_eq_append htokens
  refine derivation.wellFormed fun token hmem => ?_
  rcases List.mem_append.mp (List.takeWhile_subset _ hmem) with hlexeme | hending
  · exact hlexemes token hlexeme
  · obtain rfl := List.mem_singleton.mp hending
    simpa [Token.isEnding] using List.mem_takeWhile_imp hmem

end Formula
