import Formula.Explorer.Panes
import Formula.Proofs.Diagnostic.Report

/-!
# The highlighted column

The pane of the formula highlights a column of the whole text, while a failure counts the
columns of its own line. The two agree on the first line. Behind a line feed the count of the
failure begins anew, so that a character in front of the fault is highlighted.
-/

namespace Formula

namespace InputPane

variable {text : String} {spans : List Span} {front behind : List Char} {start column : Nat}
  {offset other : Nat}

/-- The text that spans show. -/
def textOf (spans : List Span) : String := String.join (spans.map Span.text)

/-- A character in the look of plain text. -/
def plain (c : Char) : Span := ⟨String.singleton c, Palette.text.ink⟩

/-- Characters in the look of plain text show the text. -/
theorem textOf_plain (text : List Char) : textOf (text.map plain) = String.ofList text := by
  induction text with
  | nil => rfl
  | cons c text ih =>
    rw [List.map_cons, String.ofList_cons, ← ih]
    simp [textOf, plain]

/-- Plain text does not look like the fault. -/
theorem plain_style_ne {span : Span} (h : span ∈ front.map plain) : span.style ≠ errorStyle := by
  obtain ⟨c, -, rfl⟩ := List.mem_map.mp h
  exact (by decide : Palette.text.ink ≠ errorStyle)

/-- One span is in the look of the fault, behind a number of bytes: a character of the text, or
the blank behind its end. -/
def Highlights (text : String) (spans : List Span) (offset : Nat) : Prop :=
  ∃ front marked rest, spans = front ++ marked :: rest ∧
    marked.style = errorStyle ∧ (∀ span ∈ front ++ rest, span.style ≠ errorStyle) ∧
    (textOf front).utf8ByteSize = offset ∧
    ((∃ c, marked.text = String.singleton c) ∧ text = textOf front ++ marked.text ++ textOf rest ∨
      marked.text = " " ∧ rest = [] ∧ text = textOf front)

/-- A span in the look of the fault is not among plain ones. -/
theorem eq_nil_of_plain {marked : Span} {rest between behind : List Span}
    (h : marked :: rest = between ++ behind) (hmarked : marked.style = errorStyle)
    (hplain : ∀ span ∈ between, span.style ≠ errorStyle) : between = [] := by
  cases between with
  | nil => rfl
  | cons first between =>
    obtain ⟨rfl, -⟩ := List.cons.inj h
    exact absurd hmarked (hplain marked List.mem_cons_self)

/-- There is one place at most that is highlighted. -/
theorem Highlights.unique (h : Highlights text spans offset)
    (hother : Highlights text spans other) :
    offset = other := by
  obtain ⟨front, marked, rest, hspans, hmarked, hplain, rfl, -⟩ := h
  obtain ⟨front', marked', rest', hspans', hmarked', hplain', rfl, -⟩ := hother
  rw [hspans] at hspans'
  rcases List.append_eq_append_iff.mp hspans' with
    ⟨between, hfront, hrest⟩ | ⟨between, hfront, hrest⟩
  · have hnone : between = [] := eq_nil_of_plain hrest hmarked fun span hmem =>
      hplain' span (by simp [hfront, hmem])
    rw [hfront, hnone, List.append_nil]
  · have hnone : between = [] := eq_nil_of_plain hrest hmarked' fun span hmem =>
      hplain span (by simp [hfront, hmem])
    rw [hfront, hnone, List.append_nil]

/-- Columns behind the highlighted one are plain. -/
theorem charSpans_of_lt (h : column < start) (text : List Char) :
    charSpans (some column) start text = text.map plain := by
  induction text generalizing start with
  | nil => simp [charSpans, Nat.ne_of_lt h]
  | cons c text ih =>
    rw [charSpans, ih (Nat.lt_succ_of_lt h), if_neg (by simp [Nat.ne_of_lt h])]
    rfl

/-- Columns in front of the highlighted one are plain. -/
theorem charSpans_append (front behind : List Char) :
    charSpans (some (start + front.length)) start (front ++ behind) =
      front.map plain ++ charSpans (some (start + front.length)) (start + front.length) behind := by
  induction front generalizing start with
  | nil => rfl
  | cons c front ih =>
    have hnext : start + (c :: front).length = start + 1 + front.length := by
      rw [List.length_cons]
      omega
    rw [hnext, List.cons_append, charSpans, ih, if_neg (by simp; omega)]
    rfl

/-- The column behind the beginning of a text is highlighted, be it a character or the end. -/
theorem highlights_column {front behind : String} (h : text = front ++ behind) :
    Highlights text (InputPane.spans text (some (front.length + 1))) front.utf8ByteSize := by
  have hspans : InputPane.spans text (some (front.length + 1)) = front.toList.map plain ++
      charSpans (some (1 + front.toList.length)) (1 + front.toList.length) behind.toList := by
    rw [InputPane.spans, h, String.toList_append, ← String.length_toList, Nat.add_comm,
      charSpans_append]
  have hfront : textOf (front.toList.map plain) = front := by
    rw [textOf_plain, String.ofList_toList]
  obtain ⟨behind, rfl⟩ : ∃ rest, behind = String.ofList rest := ⟨_, (String.ofList_toList).symm⟩
  rw [String.toList_ofList] at hspans
  cases behind with
  | nil =>
    refine ⟨front.toList.map plain, ⟨" ", errorStyle⟩, [], ?_, rfl, ?_, by rw [hfront], .inr ?_⟩
    · rw [hspans, charSpans, if_pos rfl]
    · intro span hmem
      rw [List.append_nil] at hmem
      exact plain_style_ne hmem
    · exact ⟨rfl, rfl, by simpa [hfront] using h⟩
  | cons c behind =>
    refine ⟨front.toList.map plain, ⟨String.singleton c, errorStyle⟩, behind.map plain, ?_, rfl, ?_,
      by rw [hfront], .inl ⟨⟨c, rfl⟩, ?_⟩⟩
    · rw [hspans, charSpans, if_pos rfl, charSpans_of_lt (Nat.lt_succ_self _)]
    · intro span hmem
      rcases List.mem_append.mp hmem with hmem | hmem <;> exact plain_style_ne hmem
    · rw [hfront, textOf_plain, h, String.ofList_cons, String.append_assoc]

end InputPane

/-- The analysis of a text fails as the parser does. -/
theorem Analysis.outcome_eq_error_iff {input : String} {error : FormulaError} :
    (Analysis.ofText input).outcome = .error error ↔ parse input = .error error := by
  unfold Analysis.ofText
  cases parse input <;> simp

/-- A text begins with as many characters as its last line has. If there is a line feed in the
text, these are fewer bytes than the text. -/
theorem Text.exists_append_lastLine (text : String) :
    ∃ front rest : String, text = front ++ rest ∧
      front.length = (lastLine text.toList).length ∧
      ('\n' ∉ text.toList → front = text) ∧
      ('\n' ∈ text.toList → front.utf8ByteSize < text.utf8ByteSize) := by
  have hle := (lastLine_suffix text.toList).length_le
  have hsplit : text = String.ofList (text.toList.take (lastLine text.toList).length) ++
      String.ofList (text.toList.drop (lastLine text.toList).length) := by
    rw [← String.ofList_append, List.take_append_drop, String.ofList_toList]
  refine ⟨_, _, hsplit, ?_, fun hfeed => ?_, fun hfeed => ?_⟩
  · rw [String.length_ofList, List.length_take_of_le hle]
  · rw [lastLine_eq_self_iff.mpr hfeed, List.take_length, String.ofList_toList]
  · have hlength : (lastLine text.toList).length ≠ text.toList.length := fun hlength =>
      lastLine_eq_self_iff.mp ((lastLine_suffix text.toList).eq_of_length hlength) hfeed
    have hrest : (String.ofList (text.toList.drop (lastLine text.toList).length)).utf8ByteSize
        ≠ 0 := by
      rw [Ne, String.utf8ByteSize_eq_zero_iff, ← String.toList_eq_nil_iff, String.toList_ofList,
        List.drop_eq_nil_iff]
      omega
    conv_rhs => rw [hsplit, String.utf8ByteSize_append]
    omega

/-- The pane highlights one place of a text that is refused, a character or the end. It lies as
many characters behind the beginning of the text as the fault lies behind that of its line. So it
is the place of the fault exactly if there is no line feed in front of the fault, and otherwise
a place in front of it. -/
theorem highlights_fault_iff (input : String) (error : FormulaError)
    (h : (Analysis.ofText input).outcome = .error error) :
    let place := error.location
    let spans := InputPane.spans input (Analysis.ofText input).errorColumn?
    ∃ before behind : String, input = before ++ behind ∧ place.offset = before.utf8ByteSize ∧
      (InputPane.Highlights input spans place.offset ↔ '\n' ∉ before.toList) ∧
      ∃ front rest : String, input = front ++ rest ∧ front.length = place.column - 1 ∧
        InputPane.Highlights input spans front.utf8ByteSize ∧
        ('\n' ∈ before.toList → front.utf8ByteSize < place.offset) := by
  intro place spans
  obtain ⟨before, behind, hmarks⟩ := marks_of_parseWith (Analysis.outcome_eq_error_iff.mp h)
  have hplace : place = .behind before := hmarks.location
  have hoffset : place.offset = before.utf8ByteSize := by simp [hplace, Location.behind]
  have htext : input = before ++ (error.diagnostic.offending ++ behind) := by
    rw [← String.append_assoc, ← hmarks.text]
  obtain ⟨front, rest, hbefore, hlength, hfirst, hlater⟩ := Text.exists_append_lastLine before
  have hfront : input = front ++ (rest ++ (error.diagnostic.offending ++ behind)) := by
    rw [← String.append_assoc, ← hbefore, ← htext]
  have hcolumn : place.column = front.length + 1 := by
    simp [hplace, hlength, Location.behind, Text.lastLine, Nat.add_comm]
  have hspans : spans = InputPane.spans input (some (front.length + 1)) := by
    simp only [spans, Analysis.errorColumn?, h, ← hcolumn, place]
  have hmarked : InputPane.Highlights input spans front.utf8ByteSize :=
    hspans ▸ InputPane.highlights_column hfront
  rw [← hoffset] at hlater
  refine ⟨before, _, htext, hoffset, ⟨fun hhere hfeed => ?_, fun hfeed => ?_⟩, front, _, hfront,
    by rw [hcolumn, Nat.add_sub_cancel], hmarked, hlater⟩
  · exact absurd (hmarked.unique hhere) (Nat.ne_of_lt (hlater hfeed))
  · rwa [hoffset, ← hfirst hfeed]

/-- A character that begins no lexeme, on the second of two lines: the first character of the
first line is highlighted. -/
theorem highlights_fault_iff_second_line :
    let input := "1\n$"
    let error : FormulaError := .lex ⟨.unexpected, '$', ⟨2, 2, 1⟩⟩
    let spans := InputPane.spans input (Analysis.ofText input).errorColumn?
    (Analysis.ofText input).outcome = .error error ∧ InputPane.Highlights input spans 0 ∧
      ¬ InputPane.Highlights input spans error.location.offset := by
  intro input error spans
  have hfails : (Analysis.ofText input).outcome = .error error :=
    Analysis.outcome_eq_error_iff.mpr (by decide +kernel)
  obtain ⟨-, -, -, -, -, front, -, -, hlength, hmarked, -⟩ :=
    highlights_fault_iff input error hfails
  obtain rfl : front = "" := String.length_eq_zero_iff.mp hlength
  exact ⟨hfails, hmarked, fun hother => absurd (hmarked.unique hother) (by decide)⟩

/-- The place of a failure is not always the one that is highlighted. -/
theorem not_highlights_fault :
    ¬ ∀ (input : String) (error : FormulaError),
      (Analysis.ofText input).outcome = .error error →
        InputPane.Highlights input (InputPane.spans input (Analysis.ofText input).errorColumn?)
          error.location.offset := by
  intro hall
  have hfails : (Analysis.ofText "1\n$").outcome = .error (.lex ⟨.unexpected, '$', ⟨2, 2, 1⟩⟩) :=
    Analysis.outcome_eq_error_iff.mpr (by decide +kernel)
  have hfault := hall _ _ hfails
  have hcolumn : (Analysis.ofText "1\n$").errorColumn? = some 1 := by
    rw [Analysis.errorColumn?, hfails]
    rfl
  rw [hcolumn] at hfault
  have hfirst : InputPane.Highlights "1\n$" (InputPane.spans "1\n$" (some 1)) 0 :=
    InputPane.highlights_column (String.empty_append).symm
  exact absurd (hfirst.unique hfault) (by decide)

end Formula
