import Formula.Proofs.Expr.Pieces
import Formula.Proofs.Token.Forms

/-!
# Tokens spaced anew

A lexeme holds no blank, so that it is the longest one where a blank follows it or the
text ends. Tokens that are written down again with other blanks between them are therefore
scanned as before, apart from their places.
-/

namespace Formula

namespace Scan

variable {text rest gap : List Char} {kind : TokenKind} {token : Token}
  {spaced : List SpacedToken}

/-- The text is at its end, or a blank follows. -/
def Parted (rest : List Char) : Prop := ∀ c, rest.head? = some c → isBlank c = true

/-- At the end of the text nothing has to be parted. -/
theorem parted_nil : Parted [] := nofun

/-- Blanks part what stands in front of them from what stands behind. -/
theorem parted_gap (h : gap.all isBlank = true) (hrest : gap = [] → Parted rest) :
    Parted (gap ++ rest) := by
  cases gap with
  | nil => exact hrest rfl
  | cons c gap =>
    rw [List.all_cons, Bool.and_eq_true] at h
    rintro _ ⟨⟩
    exact h.1

/-- In front of a blank no form goes on. -/
theorem Form.longest (h : Form kind text) (hrest : Parted rest) : Longest kind text rest where
  form := h
  longest {other longer} hform hprefix := by
    rcases List.prefix_or_prefix_of_prefix hprefix (List.prefix_append text rest) with
      hle | ⟨more, rfl⟩
    · exact hle.length_le
    · cases more with
      | nil => simp
      | cons c more =>
        obtain ⟨behind, hbehind⟩ := (List.prefix_append_right_inj text).mp hprefix
        have hblank := hrest c (by rw [← hbehind]; rfl)
        rw [hform.isBlank_of_mem (List.mem_append_right _ List.mem_cons_self)] at hblank
        cases hblank

/-- Blanks are dropped. -/
theorem reads_gap (h : gap.all isBlank = true) : Reads gap [] rest := by
  induction gap with
  | nil => exact reads_nil
  | cons c gap ih =>
    rw [List.all_cons, Bool.and_eq_true] at h
    exact (reads_blank h.1).append (ih h.2)

/-- A token with a value, if it is a number, is in range wherever it stands. -/
theorem rangeError?_of_literal? {first : Char} (place : Location)
    (h : token.kind = .integer ∨ token.kind = .real → token.literal?.isSome) :
    rangeError? first { token with location := place } = none := by
  have hvalue : ({ token with location := place } : Token).literal? = token.literal? := rfl
  unfold rangeError?
  split
  · rename_i hkind
    simp [hvalue, Option.isSome_iff_ne_none.mp (h (.inl hkind))]
  · rename_i hkind
    simp [hvalue, Option.isSome_iff_ne_none.mp (h (.inr hkind))]
  · rfl

/-- In front of a blank a lexeme is cut off as it was before. -/
theorem IsLexeme.reads (h : IsLexeme token) (hrest : Parted rest) :
    Reads token.text.toList [token.piece] rest := by
  obtain ⟨text, lexeme, hlexeme, htoken, hvalue⟩ := h
  have hlongest := (form_of_lexeme? hlexeme).longest hrest
  have hread : Reads lexeme.text [(lexeme.kind, String.ofList lexeme.text)] rest := by
    refine reads_lexeme (lexeme?_eq_some_iff.mpr ⟨rfl, hlongest⟩) fun first place => ?_
    have hrange : rangeError? first { token with location := place } = none :=
      rangeError?_of_literal? place hvalue
    rwa [← htoken] at hrange
  rw [← htoken]
  simpa [Token.piece, Lexeme.token] using hread

/-- Lexemes are cut off one by one where there are blanks between them and behind them. -/
theorem reads_spaced (hlexemes : ∀ piece ∈ spaced, IsLexeme piece.token)
    (hgaps : ∀ piece ∈ spaced.tail, piece.gap ≠ "") (hrest : Parted rest) :
    Reads (textOf spaced).toList (spaced.map fun piece => piece.token.piece) rest := by
  induction spaced with
  | nil => exact reads_nil
  | cons piece others ih =>
    have hbehind : Parted ((textOf others).toList ++ rest) := by
      cases others with
      | nil => exact hrest
      | cons next others =>
        have hgap : next.gap.toList ≠ [] := by simpa using hgaps next List.mem_cons_self
        simp only [textOf_cons, String.toList_append, List.append_assoc]
        exact parted_gap next.blank fun hnil => absurd hnil hgap
    have hothers := ih (fun p hp => hlexemes p (List.mem_cons_of_mem _ hp))
      fun p hp => hgaps p (List.mem_of_mem_tail hp)
    have htoken := (hlexemes piece List.mem_cons_self).reads hbehind
    have hall := (reads_gap piece.blank).append (htoken.append hothers)
    simpa using hall

end Scan

open Scan

/-- The tokens of a formula with other blanks between them make up a formula with the same
tokens, apart from their places. -/
theorem tokenize_spaced {source : String} {tokens : List Token} {spaced : List SpacedToken}
    (h : tokenize source = .ok tokens) (hspaced : spaced.map SpacedToken.token = tokens)
    (hgaps : ∀ piece ∈ spaced.tail.dropLast, piece.gap ≠ "") :
    ∃ again, tokenize (textOf spaced) = .ok again ∧
      again.map Token.piece = tokens.map Token.piece := by
  obtain ⟨lexemes, htokens, hlexemes⟩ := tokens_eq_append h
  rw [htokens] at hspaced
  obtain ⟨front, last, rfl, hfront, hlast⟩ := List.map_eq_append_iff.mp hspaced
  obtain ⟨ending, rest, rfl, hending, hrest⟩ := List.map_eq_cons_iff.mp hlast
  obtain rfl := List.map_eq_nil_iff.mp hrest
  have hparted : Parted ending.gap.toList := by
    simpa using parted_gap ending.blank fun _ => parted_nil
  have hread : Reads (textOf front).toList (front.map fun piece => piece.token.piece)
      ending.gap.toList := by
    refine reads_spaced ?_ ?_ hparted
    · intro piece hmem
      exact hlexemes _ (hfront ▸ List.mem_map_of_mem hmem)
    · intro piece hmem
      refine hgaps piece ?_
      cases front with
      | nil => cases hmem
      | cons first front => simpa using hmem
  have hgap : Reads ending.gap.toList [] [] := reads_gap ending.blank
  rw [← List.append_nil ending.gap.toList] at hread
  have hall := hread.append hgap
  have htext : (textOf (front ++ [ending])).toList =
      (textOf front).toList ++ ending.gap.toList := by
    simp [hending]
  rw [← htext] at hall
  obtain ⟨found, place, hpieces, hagain⟩ := tokenize_of_reads hall
  refine ⟨_, hagain, ?_⟩
  rw [htokens, ← hfront]
  simp [hpieces, Token.piece]

end Formula
