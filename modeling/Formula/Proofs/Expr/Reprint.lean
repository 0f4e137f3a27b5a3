import Formula.Proofs.Expr.Parsed
import Formula.Proofs.Expr.RoundTrip
import Formula.Proofs.Parse.Nesting

/-!
# Parsed formulas are printed and parsed again

The tree of a formula is well-formed, so that its rendering is parsed as the same tree
unless it is nested too deeply. The formula itself may have been less nested: factorials
can be written in a row, while the rendering encloses each operand in parentheses.
-/

namespace Formula

/-- A literal that can be written has the same value as itself. -/
theorem Literal.WellFormed.sameLiteral_self {value : Literal} (h : value.WellFormed) :
    Expr.sameLiteral value value := by
  cases value with
  | integer value => simp [Expr.sameLiteral]
  | real value => exact Binary64.sameValue_self h.1

/-- A well-formed tree has the same value as itself, since it has no literal that is
not a number. -/
theorem Expr.WellFormed.sameValue_self {e : Expr} (h : e.WellFormed) : e.sameValue e := by
  induction e with
  | literal value => exact h.sameLiteral_self
  | var name => simp [sameValue]
  | prefixed op operand ih => simpa [sameValue] using ih h.2
  | postfixed operand op ih => simpa [sameValue] using ih h
  | binary op left right ihl ihr => simpa [sameValue] using ⟨ihl h.1, ihr h.2⟩

/-- The factorial of one, taken so many times. -/
def iteratedFactorial : Nat → Expr
  | 0 => .literal (.integer 1)
  | count + 1 => .postfixed (iteratedFactorial count) .factorial

/-- The factorial of one, taken so many times, written without parentheses. -/
def factorialsOfOne (count : Nat) : String :=
  (Literal.integer 1).render ++ String.ofList (List.replicate count '!')

namespace iteratedFactorial

open Scan

/-- What the token for a factorial is apart from its place. -/
abbrev bangPiece : TokenKind × String := (.operator, Operator.bang.symbol)

/-- Factorials of one can be written. -/
theorem wellFormed (count : Nat) : (iteratedFactorial count).WellFormed := by
  induction count with
  | zero => decide
  | succ count ih => exact ih

/-- Factorials in a row are cut into one piece each. -/
theorem reads_bangs (count : Nat) :
    Reads (List.replicate count '!') (List.replicate count bangPiece) [] := by
  induction count with
  | zero =>
    intro place
    exact ⟨[], rfl, by simp [Scan.tokens]⟩
  | succ count ih => exact (reads_operator .bang _).append ih

/-- The formula without parentheses is cut into the number and the factorials. -/
theorem tokenize_factorialsOfOne (count : Nat) : ∃ tokens place,
    tokens.map Token.piece = (Literal.integer 1).piece :: List.replicate count bangPiece ∧
      tokenize (factorialsOfOne count) = .ok (tokens ++ [⟨.ending, "", place⟩]) := by
  have hstops : Stops (List.replicate count '!' ++ []) := by
    cases count with
    | zero => exact stops_nil
    | succ count => exact stops_bang
  have hone : (Literal.integer 1).WellFormed := by decide
  have hread := (reads_literal hone hstops).append (reads_bangs count)
  refine tokenize_of_reads ?_
  simpa [factorialsOfOne] using hread

/-- The level of the factorial takes any number of them. -/
theorem derivedWithin_bangs (count : Nat) {tokens : List Token}
    (h : tokens.map Token.piece = (Literal.integer 1).piece :: List.replicate count bangPiece) :
    DerivedWithin usualLevels [⟨.symbols [.bang], .postfixOp⟩, ⟨.names, .prefixOp⟩] tokens
      (iteratedFactorial count) 4 := by
  induction count generalizing tokens with
  | zero =>
    obtain ⟨token, rfl, hpiece⟩ := List.map_eq_singleton_iff.mp h
    have hprimary : DerivedWithin usualLevels [] [token] (iteratedFactorial 0) 2 :=
      ⟨.literal (Token.spells_literal (by decide) hpiece), Nat.le_succ _⟩
    exact hprimary.ofPrimary (Nat.le_refl _) _
  | succ count ih =>
    rw [List.replicate_succ', ← List.cons_append] at h
    obtain ⟨before, last, rfl, hbefore, hlast⟩ := List.map_eq_append_iff.mp h
    obtain ⟨token, rfl, hpiece⟩ := List.map_eq_singleton_iff.mp hlast
    obtain ⟨operand, hheight⟩ := ih hbefore
    have hop := Token.operator?_of_piece hpiece
    have hcontains : (OperatorSet.symbols [.bang]).contains token = true :=
      (OperatorSet.contains_iff hop).mpr List.mem_cons_self
    have spells : token.Spells (.postfixed .factorial) := by
      rw [Token.Spells, hop]
      rfl
    refine ⟨.postfixed rfl hcontains spells operand, ?_⟩
    simp only [Derivation.height]
    exact hheight

/-- Factorials in a row are parsed, however many there are. -/
theorem parse_factorialsOfOne (count : Nat) :
    parse (factorialsOfOne count) = .ok (iteratedFactorial count) := by
  obtain ⟨tokens, place, hpieces, htokens⟩ := tokenize_factorialsOfOne count
  obtain ⟨derivation, hheight⟩ := derivedWithin_bangs count hpieces
  have hderived : DerivedWithin usualLevels usualLevels tokens (iteratedFactorial count) 8 :=
    ⟨derivation.widen (usualLevels.take 4),
      derivation.height_widen_le hheight (Nat.le_refl _) (usualLevels.take 4)⟩
  rcases parse_of_derivedWithin htokens hderived with hok | ⟨-, hlimit⟩
  · exact hok
  · simp [nestingLimit] at hlimit

/-- All operands but the innermost one are rendered in parentheses. -/
theorem pieces_eq_append (count : Nat) : ∃ rest,
    (iteratedFactorial (count + 1)).pieces = List.replicate count (.leftParen, "(") ++ rest := by
  induction count with
  | zero => exact ⟨_, rfl⟩
  | succ count ih =>
    obtain ⟨rest, hrest⟩ := ih
    refine ⟨rest ++ [(.rightParen, ")")] ++ [bangPiece], ?_⟩
    have hpieces : (iteratedFactorial (count + 1 + 1)).pieces =
        (.leftParen, "(") :: ((iteratedFactorial (count + 1)).pieces ++ [(.rightParen, ")")]) ++
          [bangPiece] := rfl
    rw [hpieces, hrest, List.replicate_succ]
    simp

/-- The rendering begins with so many parentheses that it is refused in the end. -/
theorem parse_render_tooDeep {count : Nat} (h : nestingLimit < 7 * count) :
    ∃ found, parse (iteratedFactorial (count + 1)).render = .error (.parse ⟨.tooDeep, found⟩) := by
  obtain ⟨tokens, place, hpieces, htokens⟩ := tokenize_render (wellFormed (count + 1))
  obtain ⟨rest, hrest⟩ := pieces_eq_append count
  rw [hrest] at hpieces
  obtain ⟨opening, behind, rfl, hopening, -⟩ := List.map_eq_append_iff.mp hpieces
  have hlength : opening.length = count := by
    simpa using congrArg List.length hopening
  have hkind : ∀ token ∈ opening, token.kind = .leftParen := by
    intro token hmem
    have hpiece : token.piece ∈ List.replicate count (TokenKind.leftParen, "(") :=
      hopening ▸ List.mem_map_of_mem hmem
    exact congrArg Prod.fst (List.eq_of_mem_replicate hpiece)
  have hbefore : Token.beforeEnding (opening ++ behind ++ [⟨.ending, "", place⟩]) =
      opening ++ Token.beforeEnding (behind ++ [⟨.ending, "", place⟩]) := by
    rw [Token.beforeEnding, List.append_assoc, List.takeWhile_append_of_pos]
    · rfl
    · intro token hmem
      simp [Token.isEnding, hkind token hmem]
  have hlevels : Grammar.standard.levels.length + 1 = 7 := rfl
  have hnests : NestsTooDeep .standard (opening ++ behind ++ [⟨.ending, "", place⟩]) :=
    Parse.nestsTooDeep_of_opening hbefore hkind (by rwa [hlevels, hlength, Nat.mul_comm])
  obtain ⟨found, hdeep⟩ := hnests
  exact ⟨found, (parseWith_eq_error_iff htokens).mpr hdeep⟩

end iteratedFactorial

/-- The formula of a tree that was parsed is parsed as a tree of the same value, or it
is nested too deeply. Up to a depth of fifty it is always parsed. -/
theorem parse_render_of_parse (source : String) (e : Expr) (h : parse source = .ok e) :
    ((∃ again, parse e.render = .ok again ∧ again.sameValue e) ∨
      ∃ found, parse e.render = .error (.parse ⟨.tooDeep, found⟩)) ∧
    (e.depth ≤ 50 → ∃ again, parse e.render = .ok again ∧ again.sameValue e) := by
  have hwf : e.WellFormed := wellFormed_of_parseWith h
  rcases parse_render_or_tooDeep hwf with hok | ⟨hdeep, hdepth⟩
  · have hagain : ∃ again, parse e.render = .ok again ∧ again.sameValue e :=
      ⟨e, hok, hwf.sameValue_self⟩
    exact ⟨.inl hagain, fun _ => hagain⟩
  · refine ⟨.inr hdeep, fun hshallow => ?_⟩
    omega

/-- A call with a sign in it is printed with more parentheses and parsed again. -/
theorem parse_render_of_parse_call :
    ∃ e, parse "f (-x!)" = .ok e ∧ ∃ again, parse e.render = .ok again ∧ again.sameValue e := by
  have hparsed : parse "f (-x!)" = .ok (.prefixed (.apply "f") (.prefixed .minus
      (.postfixed (.var 'x') .factorial))) := Parse.parseWith_eq_of_plain (by decide +kernel)
  exact ⟨_, hparsed, (parse_render_of_parse _ _ hparsed).2 (by decide)⟩

/-- One with 59 factorials behind it is parsed, but not the formula of its tree. -/
theorem exists_parse_not_parse_render : ∃ e, parse (factorialsOfOne 59) = .ok e ∧
    ¬ ∃ again, parse e.render = .ok again ∧ again.sameValue e := by
  refine ⟨_, iteratedFactorial.parse_factorialsOfOne 59, ?_⟩
  obtain ⟨found, hdeep⟩ := iteratedFactorial.parse_render_tooDeep
    (show nestingLimit < 7 * 58 by decide)
  rintro ⟨again, hagain, -⟩
  rw [hdeep] at hagain
  cases hagain

end Formula
