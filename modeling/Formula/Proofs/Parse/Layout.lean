import Formula.Diagnostic
import Formula.Proofs.Parse.Placement
import Formula.Proofs.Parse.Range
import Formula.Proofs.Token.Spacing

/-!
# Layout does not matter

Two token lists with the same kinds and texts are both put together from one list, in
which each token has its index for a column. So their parses are one parse told twice: they
differ in places, and in the columns of parentheses that are not closed. A formula whose
blanks are changed has tokens with the same kinds and texts.
-/

namespace Formula

variable {grammar : Grammar} {tokens first second : List Token} {places : Nat → Location}

namespace Token

/-- Whether the last of the pieces is an end of the input. -/
def endsInput (pieces : List (TokenKind × String)) : Bool :=
  pieces.getLast?.any (·.1 == .ending)

/-- A token list with an end of the input at its end is closed. -/
theorem close_of_endsInput (h : endsInput (tokens.map piece) = true) : close tokens = tokens := by
  unfold endsInput at h
  rw [List.getLast?_map] at h
  unfold close
  cases hlast : tokens.getLast? with
  | none => simp [hlast] at h
  | some last =>
    have hending : last.isEnding = true := by simpa [hlast, piece, isEnding] using h
    simp [hending]

/-- A token list is closed by an end of the input exactly if it has none at its end. -/
theorem map_piece_close (tokens : List Token) :
    (close tokens).map piece =
      if endsInput (tokens.map piece) then tokens.map piece
      else tokens.map piece ++ [(.ending, "")] := by
  split
  · rename_i hends
    rw [close_of_endsInput hends]
  · rename_i hends
    unfold endsInput at hends
    rw [List.getLast?_map] at hends
    unfold close
    cases hlast : tokens.getLast? with
    | none => simp [List.getLast?_eq_none_iff.mp hlast, piece]
    | some last =>
      have hending : last.isEnding = false := by simpa [hlast, piece, isEnding] using hends
      simp [hending, piece]

/-- The last piece of a closed list is an end of the input. -/
theorem endsInput_close (tokens : List Token) : endsInput ((close tokens).map piece) = true := by
  rw [map_piece_close]
  split
  · assumption
  · simp [endsInput]

/-- A closed token list is not closed again. -/
theorem close_close (tokens : List Token) : close (close tokens) = close tokens :=
  close_of_endsInput (endsInput_close tokens)

/-- Token lists with the same pieces are closed to lists with the same pieces. -/
theorem map_piece_close_congr (h : first.map piece = second.map piece) :
    (close first).map piece = (close second).map piece := by
  rw [map_piece_close, map_piece_close, h]

/-- The tokens with their indices for columns. -/
def numbered (tokens : List Token) : List Token :=
  tokens.mapIdx fun index token => { token with location := ⟨0, 0, index⟩ }

/-- The places of the tokens by their indices. -/
def placesOf (tokens : List Token) (index : Nat) : Location :=
  ((tokens[index]?).map Token.location).getD .start

/-- Numbered tokens are put back in their places. -/
theorem moved_numbered (tokens : List Token) :
    (numbered tokens).map (moved (placesOf tokens)) = tokens := by
  apply List.ext_getElem?
  intro index
  cases hget : tokens[index]? with
  | none => simp [numbered, hget]
  | some token => simp [numbered, hget, moved, placesOf]

/-- Numbered tokens know nothing but kinds and texts. -/
theorem numbered_congr (h : first.map piece = second.map piece) :
    numbered first = numbered second := by
  apply List.ext_getElem?
  intro index
  have hget := congrArg (·[index]?) h
  simp only [List.getElem?_map] at hget
  cases hfirst : first[index]? with
  | none => simp_all [numbered]
  | some token =>
    obtain ⟨other, hother, hpiece⟩ :
        ∃ other, second[index]? = some other ∧ other.piece = token.piece := by
      simpa [hfirst, eq_comm] using hget
    obtain ⟨hkind, htext⟩ := Prod.ext_iff.mp hpiece
    simp only [piece] at hkind htext
    simp [numbered, hfirst, hother, hkind, htext]

/-- Tokens in other places have the same pieces. -/
theorem map_piece_moved (places : Nat → Location) (tokens : List Token) :
    (tokens.map (moved places)).map piece = tokens.map piece :=
  List.map_map

/-- Numbered tokens have the same pieces. -/
theorem map_piece_numbered (tokens : List Token) :
    (numbered tokens).map piece = tokens.map piece := by
  rw [← map_piece_moved (placesOf tokens), moved_numbered]

/-- The tokens in front of the end of the input are the same in other places. -/
theorem beforeEnding_moved (places : Nat → Location) (tokens : List Token) :
    beforeEnding (tokens.map (moved places)) = (beforeEnding tokens).map (moved places) := by
  simp [beforeEnding, List.takeWhile_map, Function.comp_def]

/-- The end of the input is moved with the tokens. -/
theorem firstEnding_moved (places : Nat → Location) (tokens : List Token) :
    firstEnding ((close tokens).map (moved places)) =
      (firstEnding (close tokens)).moved places := by
  obtain ⟨token, hmem, hending⟩ := exists_isEnding_close tokens
  have hsome : ((close tokens).find? isEnding).isSome :=
    List.find?_isSome.mpr ⟨token, hmem, hending⟩
  obtain ⟨ending, hfound⟩ := Option.isSome_iff_exists.mp hsome
  simp [firstEnding, List.find?_map, Function.comp_def, hfound]

end Token

namespace Parse

/-- Closing a token list does not change its transcript. -/
theorem transcribe_close (grammar : Grammar) (tokens : List Token) :
    transcribe grammar (Token.close tokens) = transcribe grammar tokens := by
  simp only [transcribe, runAll, context, Token.beforeEnding_close, Token.close_close]

/-- A closed token list in other places has the same transcript up to places. -/
theorem transcribe_moved (hclosed : Token.close tokens = tokens) :
    transcribe grammar (tokens.map (Token.moved places)) =
      (transcribe grammar tokens).moved places := by
  have hclosed' : Token.close (tokens.map (Token.moved places)) =
      tokens.map (Token.moved places) := by
    apply Token.close_of_endsInput
    rw [Token.map_piece_moved, ← hclosed]
    exact Token.endsInput_close tokens
  have hcontext : context grammar (tokens.map (Token.moved places)) =
      (context grammar tokens).moved places := by
    have hending := Token.firstEnding_moved places tokens
    rw [hclosed] at hending
    simp only [context, hclosed, hclosed', hending, ParseContext.moved]
  have hend : MovedEnd places (runAll grammar tokens)
      (runAll grammar (tokens.map (Token.moved places))) := by
    rw [runAll, runAll, Token.beforeEnding_moved, hcontext]
    exact moved_checkEnding (moved_run (moved_start places))
  have hstate := hend.state
  simp only [transcribe, Transcript.moved, hcontext, conclude_moved hend, hclosed, hclosed',
    Memo.stats, hstate.entries, hstate.found, hstate.missed, hstate.arena, hstate.noted,
    hstate.tooDeep, Option.isSome_map, List.length_map, List.map_reverse]

/-- A parse is the parse of the numbered tokens with the places put back. -/
theorem transcribe_eq_moved (grammar : Grammar) (tokens : List Token) :
    transcribe grammar tokens = (transcribe grammar (Token.numbered (Token.close tokens))).moved
      (Token.placesOf (Token.close tokens)) := by
  rw [← transcribe_moved, Token.moved_numbered, transcribe_close]
  apply Token.close_of_endsInput
  rw [Token.map_piece_numbered]
  exact Token.endsInput_close tokens

end Parse

/-- The failure without the places in it. -/
def ParseError.unplaced (error : ParseError) : ParseError := error.moved fun _ => .start

/-- What a parse did, without the places of the tokens. -/
def Transcript.unplaced (transcript : Transcript) : Transcript :=
  transcript.moved fun _ => .start

namespace ParseError

/-- Tokens in other places lead to the same failure up to places. -/
theorem unplaced_moved (error : ParseError) : (error.moved places).unplaced = error.unplaced := by
  obtain ⟨cause, found⟩ := error
  cases cause with
  | tooDeep => rfl
  | expected what => cases what <;> rfl

/-- What a failure expects does not depend on the places. -/
theorem expected_unplaced (error : ParseError) : error.unplaced.expected = error.expected := by
  obtain ⟨cause, found⟩ := error
  cases cause with
  | tooDeep => rfl
  | expected what => cases what <;> rfl

/-- How the found token is described does not depend on its place. -/
theorem describe_unplaced (error : ParseError) :
    error.unplaced.found.describe = error.found.describe := rfl

/-- The text of the found token does not depend on its place. -/
theorem text_unplaced (error : ParseError) : error.unplaced.found.text = error.found.text := rfl

end ParseError

/-- Tokens in other places have the same transcript up to places. -/
theorem Transcript.unplaced_moved (transcript : Transcript) :
    (transcript.moved places).unplaced = transcript.unplaced := by
  have hresult : (transcript.result.mapError (ParseError.moved places)).mapError
      ParseError.unplaced = transcript.result.mapError ParseError.unplaced := by
    cases transcript.result with
    | ok e => rfl
    | error error => exact congrArg Except.error error.unplaced_moved
  have hfailures :
      (transcript.failures.map (Failure.moved places)).map (Failure.moved fun _ => .start) =
        transcript.failures.map (Failure.moved fun _ => .start) := by
    rw [List.map_map]
    apply List.map_congr_left
    intro failure _
    exact congrArg (Prod.mk failure.1) failure.2.unplaced_moved
  simp only [unplaced, moved, hfailures]
  exact congrArg (fun result => { transcript with
    result := result, failures := transcript.failures.map (Failure.moved fun _ => .start) }) hresult

namespace Parse

/-- Token lists with the same pieces have the same tree, or fail at tokens with the same
index, and up to places by the same failure. -/
theorem parseTokens_of_pieces (grammar : Grammar)
    (h : first.map Token.piece = second.map Token.piece) :
    (∃ e, parseTokens grammar first = .ok e ∧ parseTokens grammar second = .ok e) ∨
      ∃ (index : Nat) (error other : ParseError), parseTokens grammar first = .error error ∧
        parseTokens grammar second = .error other ∧
        (Token.close first)[index]? = some error.found ∧
        (Token.close second)[index]? = some other.found ∧ error.unplaced = other.unplaced := by
  have hcommon := Token.numbered_congr (Token.map_piece_close_congr h)
  have hfirst := congrArg Transcript.result (transcribe_eq_moved grammar first)
  have hsecond := congrArg Transcript.result (transcribe_eq_moved grammar second)
  have hfirstTokens := Token.moved_numbered (Token.close first)
  have hsecondTokens := Token.moved_numbered (Token.close second)
  have hclosed : Token.close (Token.numbered (Token.close first)) =
      Token.numbered (Token.close first) := by
    apply Token.close_of_endsInput
    rw [Token.map_piece_numbered]
    exact Token.endsInput_close first
  rw [← hcommon] at hsecond hsecondTokens
  generalize Token.numbered (Token.close first) = common at *
  cases hresult : parseTokens grammar common with
  | ok e =>
    refine .inl ⟨e, hfirst.trans ?_, hsecond.trans ?_⟩
    · exact congrArg (Except.mapError _) hresult
    · exact congrArg (Except.mapError _) hresult
  | error error =>
    have hmem := (named_of_parseTokens hresult).1
    rw [hclosed] at hmem
    obtain ⟨index, hindex⟩ := List.mem_iff_getElem?.mp hmem
    have hfound : ∀ {places : Nat → Location} {closed : List Token},
        common.map (Token.moved places) = closed →
        closed[index]? = some (error.moved places).found := by
      rintro places _ rfl
      rw [List.getElem?_map, hindex]
      rfl
    refine .inr ⟨index, error.moved _, error.moved _,
      hfirst.trans (congrArg (Except.mapError _) hresult),
      hsecond.trans (congrArg (Except.mapError _) hresult),
      hfound hfirstTokens, hfound hsecondTokens, ?_⟩
    rw [ParseError.unplaced_moved, ParseError.unplaced_moved]

end Parse

/-- No two tokens of a formula are the same, since they stand in different places. -/
theorem nodup_of_tokenize {source : String} (h : tokenize source = .ok tokens) : tokens.Nodup := by
  obtain ⟨lexemes, htokens, hlexemes⟩ := Scan.tokens_eq_append h
  have hscan : Scan.tokens (.behind "") source.toList = .ok tokens := h
  obtain ⟨piece, rest, hmap, -, hplaced⟩ := Scan.exists_spaced hscan
  have hpairwise := hplaced.pairwise
  rw [hmap, htokens, List.pairwise_append] at hpairwise
  have hapart : ∀ token ∈ lexemes, ∀ next : Token,
      token.location.offset + token.text.utf8ByteSize ≤ next.location.offset → token ≠ next := by
    rintro token hmem _ hle rfl
    have hsize : token.text.utf8ByteSize ≠ 0 := by
      simpa using (hlexemes token hmem).text_ne_empty
    omega
  rw [htokens]
  refine List.pairwise_append.mpr ⟨?_, List.pairwise_singleton _ _, ?_⟩
  · exact hpairwise.1.imp_of_mem fun hmem _ hle => hapart _ hmem _ hle
  · exact fun token hmem next hnext => hapart token hmem next (hpairwise.2.2 token hmem next hnext)

/-- A token of a formula has one index. -/
theorem getElem?_iff_of_tokenize {source : String} {token : Token} {index : Nat}
    (h : tokenize source = .ok tokens) (hget : tokens[index]? = some token) (i : Nat) :
    tokens[i]? = some token ↔ i = index := by
  obtain ⟨hindex, rfl⟩ := List.getElem?_eq_some_iff.mp hget
  constructor
  · intro hi
    obtain ⟨hlt, hsame⟩ := List.getElem?_eq_some_iff.mp hi
    exact (nodup_of_tokenize h).getElem_inj_iff.mp hsame
  · rintro rfl
    exact hget

open Scan

/-- Layout does not matter. Tokens of a formula that are written down again with any blanks
around them, and at least one between any two, are scanned with the same kinds and texts.
Under any grammar both formulas have the same tree, or both fail at the token with the same
index, for want of the same thing and with the same token found. Whatever two token
lists, if they have the same kinds and texts then their parses differ in places, and in the
columns of parentheses that are not closed, and in nothing else. -/
theorem parse_ignores_layout (grammar : Grammar) :
    (∀ source tokens (spaced : List SpacedToken), tokenize source = .ok tokens →
      spaced.map SpacedToken.token = tokens →
      (∀ piece ∈ spaced.tail.dropLast, piece.gap ≠ "") →
      ∃ again, tokenize (textOf spaced) = .ok again ∧
        again.map Token.piece = tokens.map Token.piece ∧
        ((∃ e, parseWith grammar source = .ok e ∧ parseWith grammar (textOf spaced) = .ok e) ∨
          ∃ (index : Nat) (error other : ParseError),
            parseWith grammar source = .error (.parse error) ∧
            parseWith grammar (textOf spaced) = .error (.parse other) ∧
            (∀ i, tokens[i]? = some error.found ↔ i = index) ∧
            (∀ i, again[i]? = some other.found ↔ i = index) ∧
            error.expected = other.expected ∧ error.found.describe = other.found.describe ∧
            error.found.text = other.found.text)) ∧
    ∀ first second : List Token, first.map Token.piece = second.map Token.piece →
      (transcribe grammar first).unplaced = (transcribe grammar second).unplaced := by
  constructor
  · intro source tokens spaced htokens hspaced hgaps
    obtain ⟨again, hagain, hpieces⟩ := tokenize_spaced htokens hspaced hgaps
    refine ⟨again, hagain, hpieces, ?_⟩
    simp only [parseWith, htokens, hagain]
    rcases Parse.parseTokens_of_pieces grammar hpieces.symm with
      ⟨e, hfirst, hsecond⟩ | ⟨index, error, other, hfirst, hsecond, hget, hget', hsame⟩
    · exact .inl ⟨e, by rw [hfirst]; rfl, by rw [hsecond]; rfl⟩
    · rw [close_of_tokenize htokens] at hget
      rw [close_of_tokenize hagain] at hget'
      refine .inr ⟨index, error, other, by rw [hfirst]; rfl, by rw [hsecond]; rfl,
        getElem?_iff_of_tokenize htokens hget, getElem?_iff_of_tokenize hagain hget', ?_, ?_, ?_⟩
      · rw [← error.expected_unplaced, hsame, other.expected_unplaced]
      · rw [← error.describe_unplaced, hsame, other.describe_unplaced]
      · rw [← error.text_unplaced, hsame, other.text_unplaced]
  · intro first second h
    rw [Parse.transcribe_eq_moved grammar first, Parse.transcribe_eq_moved grammar second,
      Transcript.unplaced_moved, Transcript.unplaced_moved,
      Token.numbered_congr (Token.map_piece_close_congr h)]

/-- A sum is the same without blanks as with a line feed and a blank of two bytes in it. -/
theorem parse_ignores_layout_sum :
    let x : Token := ⟨.letter, "x", ⟨0, 1, 1⟩⟩
    let plus : Token := ⟨.operator, "+", ⟨1, 1, 2⟩⟩
    let y : Token := ⟨.letter, "y", ⟨2, 1, 3⟩⟩
    let ending : Token := ⟨.ending, "", ⟨3, 1, 4⟩⟩
    let spaced : List SpacedToken :=
      [⟨"", x, rfl⟩, ⟨" ", plus, by decide⟩, ⟨"\n\u00a0", y, by decide⟩, ⟨"", ending, rfl⟩]
    let sum : Expr := .binary .add (.var 'x') (.var 'y')
    tokenize "x+y" = .ok [x, plus, y, ending] ∧ textOf spaced = "x +\n\u00a0y" ∧
      parseWith .standard "x+y" = .ok sum ∧ parseWith .standard (textOf spaced) = .ok sum ∧
      (transcribe .standard [x, plus, y]).unplaced =
        (transcribe .standard [x, plus, { y with location := ⟨5, 2, 2⟩ }]).unplaced := by
  intro x plus y ending spaced sum
  have htokens : tokenize "x+y" = .ok [x, plus, y, ending] := by decide +kernel
  have hsum : parseWith .standard "x+y" = .ok sum := Parse.parseWith_eq_of_plain (by decide +kernel)
  have hgaps : ∀ piece ∈ spaced.tail.dropLast, piece.gap ≠ "" := by simp [spaced]
  obtain ⟨hlayout, hpieces⟩ := parse_ignores_layout .standard
  obtain ⟨again, -, -, hparse⟩ := hlayout "x+y" _ spaced htokens rfl hgaps
  refine ⟨htokens, rfl, hsum, ?_, hpieces _ _ rfl⟩
  rcases hparse with ⟨e, hfirst, hsecond⟩ | ⟨index, error, other, hfirst, -⟩
  · rw [hsum] at hfirst
    cases hfirst
    exact hsecond
  · rw [hsum] at hfirst
    cases hfirst

end Formula
