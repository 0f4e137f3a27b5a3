import Formula.Diagnostic
import Formula.Proofs.Parse.Range
import Formula.Proofs.Text.Lines
import Formula.Proofs.Token.Refusal

/-!
# Reports point at the fault

A formula is refused at a piece of its text, or at its end, and the place that is named is
counted from the text in front of this piece. So the line that a report shows is the one of
that place, and the caret stands below the first character of the piece.
-/

namespace Formula

open Text (lastLine endedLines pieces)

variable {source before behind : String} {diagnostic : Diagnostic}

/-- What is at fault stands between two parts of a text, in the place behind the first one.
It holds no blanks, and only at the end of the text is it empty. -/
structure Diagnostic.Marks (diagnostic : Diagnostic) (source before behind : String) : Prop where
  text : source = before ++ diagnostic.offending ++ behind
  location : diagnostic.location = .behind before
  noBlank : ∀ c ∈ diagnostic.offending.toList, isBlank c = false
  atEnd : diagnostic.offending = "" → behind = ""

/-- The scanner marks a character. -/
theorem LexError.marks {error : LexError} (h : tokenize source = .error error) :
    ∃ before behind, (FormulaError.lex error).diagnostic.Marks source before behind := by
  have hscan : Scan.tokens (.behind "") source.toList = .error error := h
  obtain ⟨front, rest, htext, hblank, hlocation⟩ := Scan.exists_of_tokens_error hscan
  rw [String.empty_append] at hlocation
  refine ⟨String.ofList front, String.ofList rest, ?_, hlocation, ?_, ?_⟩
  · simp [← String.toList_inj, FormulaError.diagnostic, htext]
  · intro c hmem
    obtain rfl : c = error.offending := by simpa [FormulaError.diagnostic] using hmem
    exact hblank
  · intro hempty
    simp [FormulaError.diagnostic, ← String.toList_inj] at hempty

/-- The parser marks a token. -/
theorem ParseError.marks {grammar : Grammar} {tokens : List Token} {error : ParseError}
    (htokens : tokenize source = .ok tokens) (h : parseTokens grammar tokens = .error error) :
    ∃ before behind, (FormulaError.parse error).diagnostic.Marks source before behind := by
  have hfound : error.found ∈ tokens :=
    close_of_tokenize htokens ▸ (Parse.named_of_parseTokens h).1
  obtain ⟨lexemes, hsplit, hlexemes⟩ := Scan.tokens_eq_append htokens
  rw [hsplit] at hfound
  rcases List.mem_append.mp hfound with hlexeme | hlast
  · have hscan : Scan.tokens (.behind "") source.toList = .ok tokens := htokens
    obtain ⟨first, others, hmap, htext, hplaced⟩ := Scan.exists_spaced hscan
    have hmem : error.found ∈ (first :: others).map Scan.SpacedToken.token := by
      rw [hmap, hsplit]
      exact List.mem_append_left _ hlexeme
    obtain ⟨piece, hpiece, hfault⟩ := List.mem_map.mp hmem
    obtain ⟨front, rest, hspaced⟩ := List.append_of_mem hpiece
    rw [hspaced] at htext hplaced
    refine ⟨Scan.textOf front ++ piece.gap, Scan.textOf rest, ?_, ?_, ?_, ?_⟩
    · rw [String.ofList_toList] at htext
      simp [htext, FormulaError.diagnostic, ← hfault, String.append_assoc]
    · have hlocation := hplaced.location_eq
      rw [String.empty_append, hfault] at hlocation
      exact hlocation
    · exact fun c hc => (hlexemes _ hlexeme).isBlank_of_mem hc
    · exact fun hempty => absurd hempty (hlexemes _ hlexeme).text_ne_empty
  · obtain hfound := List.mem_singleton.mp hlast
    have hend : Location.start.after source.toList = .behind source := by
      rw [← Location.behind_empty, Location.after_behind, String.ofList_toList, String.empty_append]
    refine ⟨source, "", ?_, ?_, ?_, fun _ => rfl⟩
    · simp [FormulaError.diagnostic, hfound]
    · simp [FormulaError.diagnostic, ParseError.location, hfound, hend]
    · simp [FormulaError.diagnostic, hfound]

/-- Whoever refuses a formula marks what is at fault. -/
theorem marks_of_parseWith {grammar : Grammar} {error : FormulaError}
    (h : parseWith grammar source = .error error) :
    ∃ before behind, error.diagnostic.Marks source before behind := by
  unfold parseWith at h
  cases htokens : tokenize source with
  | error found =>
    rw [htokens] at h
    cases h
    exact LexError.marks htokens
  | ok tokens =>
    rw [htokens] at h
    cases hparse : parseTokens grammar tokens with
    | ok e => simp [hparse, Except.mapError] at h
    | error found =>
      simp only [hparse, Except.mapError] at h
      cases h
      exact ParseError.marks htokens hparse

namespace Diagnostic

variable {diagnostic : Diagnostic}

/-- The line that is quoted is the one with the number of the location. -/
theorem sourceLine_of_getElem? {line : String}
    (h : (Text.lines source)[diagnostic.location.line - 1]? = some line) :
    diagnostic.sourceLine source = line := by
  simp [sourceLine, h]

/-- There is no line feed in the line that is quoted. -/
theorem feed_notMem_sourceLine (diagnostic : Diagnostic) (source : String) :
    '\n' ∉ (diagnostic.sourceLine source).toList := by
  unfold sourceLine
  cases hline : (Text.lines source)[diagnostic.location.line - 1]? with
  | none => nofun
  | some line => exact Text.feed_notMem_of_mem_lines (List.mem_of_getElem? hline)

/-- A report ends in the line of the text and the one of the caret, both moved by two blanks. -/
theorem exists_pieces_report (diagnostic : Diagnostic) (source : String) :
    ∃ heading, pieces (diagnostic.report source).toList = heading ++
      [("  " ++ diagnostic.sourceLine source).toList,
        ("  " ++ Text.blanks (diagnostic.location.column - 1) ++ "^").toList] := by
  have hline : '\n' ∉ ("  " ++ diagnostic.sourceLine source).toList := by
    simpa using diagnostic.feed_notMem_sourceLine source
  have hcaret : '\n' ∉ ("  " ++ Text.blanks (diagnostic.location.column - 1) ++ "^").toList := by
    simp [Text.blanks]
  have hreport : (diagnostic.report source).toList =
      diagnostic.message.toList ++ '\n' :: (("  " ++ diagnostic.sourceLine source).toList ++
        '\n' :: ("  " ++ Text.blanks (diagnostic.location.column - 1) ++ "^").toList) := by
    simp [report]
  refine ⟨pieces diagnostic.message.toList, ?_⟩
  rw [hreport, Text.pieces_append_feed, Text.pieces_append_feed, Text.pieces_eq_singleton hline,
    Text.pieces_eq_singleton hcaret]
  rfl

namespace Marks

/-- The line of a mark begins behind the last line feed in front of the mark. -/
theorem getElem?_lines (h : diagnostic.Marks source before behind) :
    (Text.lines source)[diagnostic.location.line - 1]? =
      (endedLines (pieces (lastLine before.toList ++
        (diagnostic.offending ++ behind).toList))).head?.map String.ofList := by
  have hline : diagnostic.location.line - 1 = before.toList.count '\n' := by
    simp [h.location, Location.behind]
  rw [hline, h.text, String.append_assoc, Text.getElem?_lines_append]

/-- The column of a mark says how many characters of its line are in front of it. -/
theorem column_eq (h : diagnostic.Marks source before behind) :
    diagnostic.location.column - 1 = (lastLine before.toList).length := by
  simp [h.location, Location.behind, lastLine]

/-- If something is at fault, it is on its line and begins at its column. -/
theorem exists_line (h : diagnostic.Marks source before behind) (hne : diagnostic.offending ≠ "") :
    ∃ line, (Text.lines source)[diagnostic.location.line - 1]? = some line ∧
      diagnostic.offending.toList <+: line.toList.drop (diagnostic.location.column - 1) := by
  have hfeed : '\n' ∉ lastLine before.toList ++ diagnostic.offending.toList := by
    intro hmem
    rcases List.mem_append.mp hmem with hmem | hmem
    · exact Text.feed_notMem_lastLine _ hmem
    · exact absurd (h.noBlank _ hmem) (by decide)
  have hoffending : diagnostic.offending.toList ≠ [] := mt String.toList_eq_nil_iff.mp hne
  have hreturn : (lastLine before.toList ++ diagnostic.offending.toList).getLast? ≠ some '\r' := by
    rw [List.getLast?_append, Option.or_of_isSome (by simpa using hoffending)]
    intro hlast
    exact absurd (h.noBlank _ (List.mem_of_getLast? hlast)) (by decide)
  obtain ⟨others, hhead⟩ := Text.head?_endedLines_append behind.toList hfeed hreturn
    (List.append_ne_nil_of_right_ne_nil _ hoffending)
  refine ⟨String.ofList (lastLine before.toList ++ diagnostic.offending.toList ++ others), ?_, ?_⟩
  · rw [h.getElem?_lines, String.toList_append, ← List.append_assoc, hhead, Option.map_some]
  · rw [h.column_eq, String.toList_ofList, List.append_assoc, List.drop_left]
    exact List.prefix_append _ _

/-- At the end of the text the mark is behind the last line, or behind a line feed and so on a
line that is not there. -/
theorem atEnd_cases (h : diagnostic.Marks source before behind)
    (hempty : diagnostic.offending = "") :
    source = before ∧
      ((∃ line, (Text.lines source)[diagnostic.location.line - 1]? = some line ∧
          line.length = diagnostic.location.column - 1) ∨
        (Text.lines source).length = diagnostic.location.line - 1 ∧
          diagnostic.location.column - 1 = 0 ∧
          (source = "" ∨ source.toList.getLast? = some '\n')) := by
  have hsource : source = before := by simp [h.text, hempty, h.atEnd hempty]
  refine ⟨hsource, ?_⟩
  have hget := h.getElem?_lines
  rw [hempty, h.atEnd hempty] at hget
  simp only [String.append_empty, String.toList_empty, List.append_nil,
    Text.endedLines_lastLine] at hget
  rw [h.column_eq]
  by_cases hlast : lastLine before.toList = []
  · refine .inr ⟨?_, by rw [hlast]; rfl, ?_⟩
    · rw [hsource, Text.length_lines hlast, h.location]
      simp [Location.behind]
    · rw [hsource]
      exact (Text.lastLine_eq_nil hlast).imp_left String.toList_eq_nil_iff.mp
  · refine .inl ⟨String.ofList (lastLine before.toList), ?_, by simp⟩
    rw [hget, if_neg hlast]
    rfl

end Marks

end Diagnostic

/-- A report points at what is at fault. The piece of the formula that a failure names stands
at the byte that its place says. The report ends in the line of this place, with the caret
below the character of its column. If there is no such line, the formula is empty or ends in a
line feed, the place is on the line behind the last one, and an empty line is shown. A piece that
is not empty is found in the line at its column; an empty one stands at the end of the formula
and of the line. -/
theorem report_points_at_fault (grammar : Grammar) (source : String) (error : FormulaError)
    (h : parseWith grammar source = .error error) :
    let offending := error.diagnostic.offending
    let place := error.location
    (∃ before behind, source = before ++ offending ++ behind ∧
      place.offset = before.utf8ByteSize) ∧
    1 ≤ place.line ∧ 1 ≤ place.column ∧
    ∃ line : String,
      ((Text.lines source)[place.line - 1]? = some line ∨
        line = "" ∧ (source = "" ∨ source.toList.getLast? = some '\n') ∧
          (Text.lines source).length = place.line - 1) ∧
      (∃ heading, Text.pieces (error.report source).toList = heading ++
        [("  " ++ line).toList, ("  " ++ Text.blanks (place.column - 1) ++ "^").toList]) ∧
      (offending ≠ "" → offending.toList <+: line.toList.drop (place.column - 1)) ∧
      (offending = "" → place.offset = source.utf8ByteSize ∧ place.column - 1 = line.length) := by
  intro offending place
  obtain ⟨before, behind, hmarks⟩ := marks_of_parseWith h
  have hplace : place = .behind before := hmarks.location
  have hoffset : place.offset = before.utf8ByteSize := by simp [hplace, Location.behind]
  have hcaret := error.diagnostic.exists_pieces_report source
  refine ⟨⟨before, behind, hmarks.text, hoffset⟩, by simp [hplace, Location.behind],
    by simp [hplace, Location.behind], error.diagnostic.sourceLine source, ?_⟩
  by_cases hempty : offending = ""
  · obtain ⟨rfl, ⟨line, hline, hlength⟩ | ⟨hcount, hcolumn, hend⟩⟩ := hmarks.atEnd_cases hempty
    · rw [Diagnostic.sourceLine_of_getElem? hline] at hcaret ⊢
      exact ⟨.inl hline, hcaret, absurd hempty, fun _ => ⟨hoffset, hlength.symm⟩⟩
    · have hshown : error.diagnostic.sourceLine source = "" := by
        simp [Diagnostic.sourceLine, List.getElem?_eq_none (Nat.le_of_eq hcount)]
      rw [hshown] at hcaret ⊢
      exact ⟨.inr ⟨rfl, hend, hcount⟩, hcaret, absurd hempty, fun _ => ⟨hoffset, hcolumn⟩⟩
  · obtain ⟨line, hline, hoffending⟩ := hmarks.exists_line hempty
    rw [Diagnostic.sourceLine_of_getElem? hline] at hcaret ⊢
    exact ⟨.inl hline, hcaret, fun _ => hoffending, fun h => absurd h hempty⟩

/-- A character that begins no lexeme, on the second of two lines: its line holds it behind four
others, and neither the carriage return nor the blank of two bytes moves the caret. -/
theorem report_points_at_fault_two_lines :
    let source := "\u00a01 +\r\n  2 $"
    let error : FormulaError := .lex ⟨.unexpected, '$', ⟨11, 2, 5⟩⟩
    parseWith Grammar.standard source = .error error ∧
      error.report source =
        "Lexer error at line 2, column 5: Unexpected character: '$'\n    2 $\n      ^" ∧
      ∃ line, (Text.lines source)[1]? = some line ∧ "$".toList <+: line.toList.drop 4 := by
  intro source error
  have hfails : parseWith Grammar.standard source = .error error := by decide +kernel
  obtain ⟨-, -, -, line, hline, -, hoffending, -⟩ :=
    report_points_at_fault Grammar.standard source error hfails
  refine ⟨hfails, by decide, line, ?_, hoffending (by decide)⟩
  rcases hline with hline | ⟨-, -, hcount⟩
  · exact hline
  · exact absurd hcount (by decide)

end Formula
