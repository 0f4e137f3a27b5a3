import Formula.Proofs.Parse.Locality
import Formula.Proofs.Parse.Recognition
import Mathlib.Data.List.TakeWhile

/-!
# The token that a parse error names

A parse that fails names the token of its furthest failure. What stands behind
this token is of no account, and what stands in front of it is viable. Under a
separated grammar no longer part of the tokens is.
-/

namespace Formula

namespace Token

/-- A token list with an end in it consists of the tokens in front of the first end,
this end, and what follows. -/
theorem eq_beforeEnding_append {tokens : List Token} (h : ∃ token ∈ tokens, token.isEnding) :
    ∃ behind, tokens = beforeEnding tokens ++ firstEnding tokens :: behind := by
  induction tokens with
  | nil => simp at h
  | cons first tokens ih =>
    by_cases hfirst : first.isEnding = true
    · exact ⟨tokens, by simp [beforeEnding, firstEnding, hfirst]⟩
    · obtain ⟨token, hmem, hending⟩ := h
      have htokens : token ∈ tokens := by
        rcases List.mem_cons.mp hmem with rfl | hmem
        · exact absurd hending hfirst
        · exact hmem
      obtain ⟨behind, hbehind⟩ := ih ⟨token, htokens, hending⟩
      refine ⟨behind, ?_⟩
      simpa [beforeEnding, firstEnding, hfirst] using hbehind

/-- There is an end in a closed token list. -/
theorem exists_isEnding_close (tokens : List Token) : ∃ token ∈ close tokens, token.isEnding := by
  unfold close
  cases hlast : tokens.getLast? with
  | none => exact ⟨_, List.mem_singleton.mpr rfl, rfl⟩
  | some last =>
    by_cases hending : last.isEnding = true
    · exact ⟨last, by simpa [hending] using List.mem_of_getLast? hlast, hending⟩
    · simp only [hending, Bool.false_eq_true, if_false]
      exact ⟨_, List.mem_append_right _ (List.mem_singleton.mpr rfl), rfl⟩

/-- Tokens without an end at their end are closed by one. -/
theorem close_eq_or (tokens : List Token) :
    close tokens = tokens ∨ ∃ ending, ending.isEnding ∧ close tokens = tokens ++ [ending] := by
  unfold close
  cases hlast : tokens.getLast? with
  | none =>
    obtain rfl := List.getLast?_eq_none_iff.mp hlast
    exact .inr ⟨_, rfl, rfl⟩
  | some last =>
    by_cases hending : last.isEnding = true
    · exact .inl (by simp [hending])
    · simp only [hending, Bool.false_eq_true, if_false]
      exact .inr ⟨_, rfl, rfl⟩

/-- A token list that ends with an end of the input is closed as it is. -/
theorem close_concat {ending : Token} (h : ending.isEnding) (tokens : List Token) :
    close (tokens ++ [ending]) = tokens ++ [ending] := by
  simp [close, h]

/-- Closing a token list changes nothing in front of its first end. -/
theorem beforeEnding_close (tokens : List Token) :
    beforeEnding (close tokens) = beforeEnding tokens := by
  rcases close_eq_or tokens with hclose | ⟨ending, hending, hclose⟩
  · rw [hclose]
  · rw [hclose, beforeEnding, beforeEnding, List.takeWhile_append]
    split
    · rename_i hlength
      have hwhole := (List.takeWhile_prefix (l := tokens) (!·.isEnding)).eq_of_length hlength
      simp [hwhole, hending]
    · rfl

/-- A closed token list consists of the tokens in front of the first end, this end,
and what follows. -/
theorem close_eq_append (tokens : List Token) :
    ∃ behind, close tokens = beforeEnding tokens ++ firstEnding (close tokens) :: behind := by
  obtain ⟨behind, hbehind⟩ := eq_beforeEnding_append (exists_isEnding_close tokens)
  rw [beforeEnding_close] at hbehind
  exact ⟨behind, hbehind⟩

/-- The end of the input is one more token. -/
theorem length_beforeEnding_lt (tokens : List Token) :
    (beforeEnding tokens).length < (close tokens).length := by
  obtain ⟨behind, hbehind⟩ := close_eq_append tokens
  rw [hbehind, List.length_append, List.length_cons]
  omega

end Token

namespace Parse

variable {grammar : Grammar} {tokens other : List Token} {error : ParseError} {index : Nat}

/-- Tokens that agree up to an index in front of the first end agree there too. -/
theorem take_beforeEnding
    (hagree : (Token.close other).take index = (Token.close tokens).take index) :
    (Token.beforeEnding other).take index = (Token.beforeEnding tokens).take index := by
  rw [← Token.beforeEnding_close other, ← Token.beforeEnding_close tokens, Token.beforeEnding,
    Token.beforeEnding, List.take_takeWhile, List.take_takeWhile, hagree]

/-- Lists with the same first tokens are the same in front of the index where these end. -/
theorem sameBefore_of_take {whole : List Token} {bound : Nat}
    (htake : other.take bound = whole.take bound) (hbound : bound ≤ whole.length) :
    SameBefore bound whole other := by
  intro position hlt
  have hget : other[position]? = whole[position]? := by
    have hboth := congrArg (·[position]?) htake
    simpa [List.getElem?_take, hlt] using hboth
  have hwhole : position < whole.length := by omega
  rw [List.getElem?_eq_getElem hwhole] at hget
  obtain ⟨hother, hvalue⟩ := List.getElem?_eq_some_iff.mp hget
  exact ⟨whole[position], List.drop_eq_getElem_cons hwhole,
    by rw [List.drop_eq_getElem_cons hother, hvalue]⟩

/-- If the first end of the input is among the tokens that agree, then the lists agree
up to it altogether. -/
theorem eq_of_take_ending (grammar : Grammar) {count : Nat}
    (hcount : (Token.beforeEnding tokens).length < count)
    (hagree : (Token.close other).take count = (Token.close tokens).take count) :
    Token.beforeEnding other = Token.beforeEnding tokens ∧
      context grammar other = context grammar tokens := by
  obtain ⟨behind, hbehind⟩ := Token.close_eq_append tokens
  obtain ⟨rest, hrest⟩ := Token.close_eq_append other
  have htake := take_beforeEnding hagree
  have hwhole : (Token.beforeEnding tokens).take count = Token.beforeEnding tokens :=
    List.take_of_length_le (Nat.le_of_lt hcount)
  have hlength : (Token.beforeEnding other).length = (Token.beforeEnding tokens).length := by
    have hlengths := congrArg List.length (htake.trans hwhole)
    rw [List.length_take] at hlengths
    omega
  have hsame : Token.beforeEnding other = Token.beforeEnding tokens := by
    rw [← hwhole, ← htake, List.take_of_length_le (by omega)]
  have hending :
      Token.firstEnding (Token.close other) = Token.firstEnding (Token.close tokens) := by
    have hget := congrArg (·[(Token.beforeEnding tokens).length]?) hagree
    rw [hbehind, hrest, hsame] at hget
    simpa [List.getElem?_take, hcount] using hget
  exact ⟨hsame, by rw [context, context, hending]⟩

/-- A parse with no failure behind an index that was not stopped does the same on all
token lists that agree up to this index. -/
theorem runAll_alike (hnone : (runAll grammar tokens).2.tooDeep = none)
    (hwithin : (Plain.readAll grammar tokens).Within (index + 1))
    (hagree : (Token.close other).take (index + 1) = (Token.close tokens).take (index + 1)) :
    runAll grammar other = runAll grammar tokens := by
  by_cases hindex : index < (Token.beforeEnding tokens).length
  · have hsame : SameBefore (index + 1) (Token.beforeEnding tokens) (Token.beforeEnding other) :=
      sameBefore_of_take (take_beforeEnding hagree) hindex
    have hvalid := grammar.valid_loosestFirst
    have hending := Token.isEnding_firstEnding (Token.close tokens)
    have hunknown := faithful_start (context grammar tokens) (Token.beforeEnding tokens)
    have halike : Alike (context grammar tokens) (Token.firstEnding (Token.close other))
        (Token.beforeEnding tokens) (Token.beforeEnding other) (index + 1) grammar.loosestFirst 0 :=
      run_alike hvalid hending hsame List.suffix_rfl
    unfold runAll checkEnding at hnone ⊢
    apply andThen_alike hvalid hending List.suffix_rfl rfl hunknown halike ?_ ?_ ?_ hwithin hnone
    · intro e finish
      split
      · exact Reading.onward_found _ _
      · exact Reading.onward_fail _ _ _
    · intro root state error hstopped
      simp [hstopped]
    · intro e root state _ hfinish _ _ _ _
      obtain ⟨token, hwhole, hother⟩ := hsame root.finish hfinish
      simp [tokensFrom, hwhole, hother]
  · have hcount : (Token.beforeEnding tokens).length < index + 1 := by omega
    obtain ⟨hbefore, hcontext⟩ := eq_of_take_ending grammar hcount hagree
    rw [runAll, runAll, hbefore, hcontext]

/-- The result of a run with a failure as its outcome does not depend on the context. -/
theorem conclude_of_error {first second : ParseContext} {result : Outcome × ParseState}
    (h : result.1 = .error error) : conclude first result = conclude second result := by
  obtain ⟨outcome, state⟩ := result
  obtain rfl : outcome = .error error := h
  simp only [conclude]

/-- No failure of a plain parse that fails lies behind the furthest one. -/
theorem Plain.within_furthest {last : ParseError}
    (hlast : (readAll grammar tokens).outcome = .error last)
    (hfurthest : (readAll grammar tokens).furthest none = some (index, error)) :
    (readAll grammar tokens).Within (index + 1) := by
  constructor
  · intro failure hnoted
    obtain ⟨furthest, hkept, hle⟩ := covers_foldl none _ failure hnoted
    cases hfurthest.symm.trans hkept
    exact Nat.lt_succ_of_le hle
  · intro e finish hok
    rw [hlast] at hok
    cases hok

/-- A parse that fails fails alike on all token lists that agree up to the index of its
furthest failure. -/
theorem parseTokens_alike {last : ParseError} (hrun : (runAll grammar tokens).2.tooDeep = none)
    (hfollows : Follows (context grammar tokens) (Token.beforeEnding tokens) {}
      (Plain.readAll grammar tokens) (runAll grammar tokens).1 (runAll grammar tokens).2)
    (hlast : (Plain.readAll grammar tokens).outcome = .error last)
    (hfurthest : (Plain.readAll grammar tokens).furthest none = some (index, error))
    (hagree : (Token.close other).take (index + 1) = (Token.close tokens).take (index + 1)) :
    parseTokens grammar other = parseTokens grammar tokens := by
  have hrunAll := runAll_alike hrun (Plain.within_furthest hlast hfurthest) hagree
  have hagrees := hfollows.agrees
  rw [hlast] at hagrees
  cases houtcome : (runAll grammar tokens).1 with
  | ok root =>
    rw [houtcome] at hagrees
    exact hagrees.elim
  | error error =>
    change conclude _ (runAll grammar other) = conclude _ _
    rw [hrunAll]
    exact conclude_of_error houtcome

end Parse

/-- A token list that is continued agrees with the closed one as far as it was taken. -/
theorem take_close_append {tokens : List Token} (behind : List Token) {index count : Nat}
    (hlt : index < count) (hlength : index < (Token.close tokens).length) :
    (Token.close ((Token.close tokens).take count ++ behind)).take (index + 1) =
      (Token.close tokens).take (index + 1) := by
  have hpart : index + 1 ≤ ((Token.close tokens).take count).length := by
    rw [List.length_take]
    omega
  have hcontinued : ((Token.close tokens).take count ++ behind).take (index + 1) =
      (Token.close tokens).take (index + 1) := by
    rw [List.take_append_of_le_length hpart, List.take_take, Nat.min_eq_left hlt]
  rcases Token.close_eq_or ((Token.close tokens).take count ++ behind) with hclose | ⟨_, -, hclose⟩
  · rw [hclose, hcontinued]
  · rw [hclose, List.take_append_of_le_length, hcontinued]
    rw [List.length_append]
    omega

/-- The failures of a parse in order, with the furthest of them singled out. -/
theorem transcribe_failures_split {grammar : Grammar} {tokens : List Token} {failure : Failure}
    (h : (Parse.runAll grammar tokens).2.furthest = some failure) :
    ∃ before after, (transcribe grammar tokens).failures = before ++ failure :: after ∧
      (∀ f ∈ before, f.1 < failure.1) ∧ ∀ f ∈ after, f.1 ≤ failure.1 := by
  refine furthest_first ?_
  have hlog := (Parse.runAll grammar tokens).2.failures.furthest_eq
  rw [← h, ParseState.furthest, hlog]
  exact List.foldl_reverse

/-- A token list that derives something parses under a separated grammar, or it is
nested too deeply. -/
theorem Grammar.Separated.parseTokens_of_viable {grammar : Grammar}
    (hseparated : grammar.Separated) {tokens : List Token}
    (h : Viable grammar.loosestFirst tokens) :
    ∃ behind, (∃ e, parseTokens grammar (tokens ++ behind) = .ok e) ∨
      NestsTooDeep grammar (tokens ++ behind) := by
  obtain ⟨behind, e, ⟨derivation⟩⟩ := h
  have hwhole : Token.beforeEnding (tokens ++ behind) = tokens ++ behind := by
    apply List.takeWhile_eq_self_iff.mpr
    intro token hmem
    simp [derivation.isEnding_eq_false hmem]
  rw [← hwhole] at derivation
  refine ⟨behind, ?_⟩
  rcases Parse.parseTokens_of_derivation hseparated derivation with hok | ⟨hdeep, -⟩
  · exact .inl ⟨e, hok⟩
  · exact .inr hdeep

/-- If all token lists with the same tokens up to an index fail, and not for nesting, then
under a separated grammar no viable token list reaches beyond the index. -/
theorem Grammar.Separated.le_of_viable {grammar : Grammar} (hseparated : grammar.Separated)
    {tokens : List Token} {error : ParseError} {index count : Nat}
    (hcause : error.cause ≠ .tooDeep) (hlength : index < (Token.close tokens).length)
    (hfails : ∀ other, (Token.close other).take (index + 1) =
      (Token.close tokens).take (index + 1) → parseTokens grammar other = .error error)
    (h : Viable grammar.loosestFirst ((Token.close tokens).take count)) : count ≤ index := by
  by_contra hlt
  obtain ⟨behind, hparsed⟩ := hseparated.parseTokens_of_viable h
  have herror := hfails _ (take_close_append behind (Nat.lt_of_not_le hlt) hlength)
  rcases hparsed with ⟨e, hok⟩ | ⟨found, hdeep⟩
  · rw [herror] at hok
    cases hok
  · rw [herror] at hdeep
    cases hdeep
    exact hcause rfl

/-- Every failure of a parse other than for nesting has an index such that the failure
names the token there. It was noted first of all failures at this index, and none was
noted further to the right. Every token list with the same tokens up to this index
fails alike. The tokens in front of it are viable, and under a separated grammar, as
the usual one is, no more of them are. -/
theorem parse_error_position (grammar : Grammar) (tokens : List Token) (error : ParseError)
    (h : parseTokens grammar tokens = .error error) (hnone : ¬ NestsTooDeep grammar tokens) :
    ∃ index, (Token.close tokens)[index]? = some error.found ∧
      (∃ before after, (transcribe grammar tokens).failures = before ++ (index, error) :: after ∧
        (∀ failure ∈ before, failure.1 < index) ∧ ∀ failure ∈ after, failure.1 ≤ index) ∧
      (∀ other, (Token.close other).take (index + 1) = (Token.close tokens).take (index + 1) →
        parseTokens grammar other = .error error) ∧
      Viable grammar.loosestFirst ((Token.close tokens).take index) ∧
      (grammar.Separated → ∀ count,
        Viable grammar.loosestFirst ((Token.close tokens).take count) ↔ count ≤ index) := by
  rcases Parse.parseTokens_cases grammar tokens with ⟨hrun, hfollows, -, hsame⟩ | ⟨hdeep, -⟩
  swap
  · exact absurd hdeep hnone
  obtain ⟨⟨last, hlast⟩, index, hfurthest, hmem⟩ :=
    Parse.Plain.exists_failure_of_parseTokens (hsame.symm.trans h)
  obtain ⟨eaten, rest, hbefore, hindex, hfound, hcause, hviable⟩ :=
    (Parse.Plain.sound_readAll grammar tokens).names _ hmem
  obtain ⟨behind, hclose⟩ := Token.close_eq_append tokens
  obtain rfl : index = eaten.length := by simpa using hindex
  have hget : (Token.close tokens)[eaten.length]? = some error.found := by
    rw [hclose, hbefore, hfound]
    cases rest <;> simp [ParseContext.peek, Parse.context]
  have htake : (Token.close tokens).take eaten.length = eaten := by
    rw [hclose, hbefore]
    simp
  have hsplit := transcribe_failures_split (hfollows.furthest.trans hfurthest)
  have halike : ∀ other, (Token.close other).take (eaten.length + 1) =
      (Token.close tokens).take (eaten.length + 1) → parseTokens grammar other = .error error :=
    fun other hagree => (Parse.parseTokens_alike hrun hfollows hlast hfurthest hagree).trans h
  have hfirst : Viable grammar.loosestFirst ((Token.close tokens).take eaten.length) := by
    rw [htake]
    exact hviable [] Awaits.start
  refine ⟨eaten.length, hget, hsplit, halike, hfirst, fun hseparated count => ?_⟩
  constructor
  · exact hseparated.le_of_viable hcause (List.getElem?_eq_some_iff.mp hget).1 halike
  · exact hfirst.take_of_le

/-- A sum without its right operand fails at the end of the input. The whole of it
is viable, but not as a formula that ends here. -/
theorem parse_error_position_half_sum :
    let tokens : List Token :=
      [⟨.letter, "x", Location.start⟩, ⟨.operator, "+", Location.start⟩]
    let error : ParseError := ⟨.expected .operand, ⟨.ending, "", ⟨1, 1, 2⟩⟩⟩
    parseTokens Grammar.standard tokens = .error error ∧
      (∀ other, (Token.close other).take 3 = (Token.close tokens).take 3 →
        parseTokens Grammar.standard other = .error error) ∧
      ∀ count,
        Viable Grammar.standard.loosestFirst ((Token.close tokens).take count) ↔ count ≤ 2 := by
  intro tokens error
  have h : parseTokens Grammar.standard tokens = .error error :=
    Parse.parseTokens_eq_of_plain (by decide +kernel) (by decide +kernel)
  have hnone : ¬ NestsTooDeep Grammar.standard tokens := by
    rintro ⟨found, hfound⟩
    simp [h, error] at hfound
  obtain ⟨index, hget, -, halike, -, hviable⟩ :=
    parse_error_position Grammar.standard tokens error h hnone
  have hindex : index = 2 := by
    rcases index with _ | _ | _ | index
    · cases hget
    · cases hget
    · rfl
    · cases hget
  subst hindex
  exact ⟨h, halike, hviable Grammar.standard_separated⟩

end Formula
