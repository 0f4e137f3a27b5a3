import Formula.Text.Line
import Mathlib.Data.List.Induction
import Mathlib.Data.List.TakeWhile

/-!
# Lines of a text and of its parts

The pieces between line feeds are found part by part: what stands in front of the last line
feed of a text makes up lines of its own, whatever follows behind the text. So the line that
a place is on is found from the characters behind the last line feed in front of it.
-/

namespace Formula

namespace Text

variable {front behind : List Char} {earlier later : List (List Char)} {piece : List Char}

/-- Every text has a piece, be it an empty one. -/
theorem pieces_ne_nil (text : List Char) : pieces text ≠ [] := by
  cases text with
  | nil => simp [pieces]
  | cons c text =>
    rw [pieces]
    split
    · simp
    · split <;> simp

/-- A character that is no line feed joins the first piece of the text behind it. -/
theorem pieces_cons_of_ne {c : Char} {text : List Char} (hc : c ≠ '\n')
    (h : pieces text = piece :: later) : pieces (c :: text) = (c :: piece) :: later := by
  simp [pieces, h, hc]

/-- A line feed ends a piece. -/
@[simp] theorem pieces_feed (text : List Char) : pieces ('\n' :: text) = [] :: pieces text := by
  rw [pieces]
  split
  · rename_i hnil
    exact absurd hnil (pieces_ne_nil text)
  · simp_all

/-- Characters other than line feeds become the head of the first piece behind them. -/
theorem pieces_append (hfront : '\n' ∉ front) (h : pieces behind = piece :: later) :
    pieces (front ++ behind) = (front ++ piece) :: later := by
  induction front with
  | nil => simpa using h
  | cons c front ih =>
    have hc : c ≠ '\n' := fun heq => hfront (by simp [heq])
    exact pieces_cons_of_ne hc (ih fun hmem => hfront (List.mem_cons_of_mem _ hmem))

/-- A text without line feeds is one piece. -/
theorem pieces_eq_singleton (hfront : '\n' ∉ front) : pieces front = [front] := by
  simpa using pieces_append hfront (rfl : pieces [] = [[]])

/-- No piece holds a line feed. -/
theorem feed_notMem_of_mem_pieces {text line : List Char} (h : line ∈ pieces text) :
    '\n' ∉ line := by
  induction text generalizing line with
  | nil =>
    obtain rfl := List.mem_singleton.mp h
    nofun
  | cons c text ih =>
    obtain ⟨piece, later, hpieces⟩ := List.exists_cons_of_ne_nil (pieces_ne_nil text)
    rw [hpieces] at ih
    by_cases hc : c = '\n'
    · rw [hc, pieces_feed, hpieces] at h
      rcases List.mem_cons.mp h with rfl | hmem
      · nofun
      · exact ih hmem
    · rw [pieces_cons_of_ne hc hpieces] at h
      rcases List.mem_cons.mp h with rfl | hmem
      · have hpiece := ih (List.mem_cons_self ..)
        simp [Ne.symm hc, hpiece]
      · exact ih (List.mem_cons_of_mem _ hmem)

/-- A line feed parts the pieces in front of it from those behind it. -/
theorem pieces_append_feed (front behind : List Char) :
    pieces (front ++ '\n' :: behind) = pieces front ++ pieces behind := by
  induction front with
  | nil => simp [pieces]
  | cons c front ih =>
    by_cases hc : c = '\n'
    · subst hc
      simp [ih]
    · obtain ⟨piece, later, hpieces⟩ := List.exists_cons_of_ne_nil (pieces_ne_nil front)
      rw [hpieces, List.cons_append] at ih
      rw [List.cons_append, pieces_cons_of_ne hc ih, pieces_cons_of_ne hc hpieces]
      rfl

/-- All pieces but the last one are ended by a line feed. -/
theorem endedLines_append (h : later ≠ []) :
    endedLines (earlier ++ later) = earlier.map dropReturn ++ endedLines later := by
  induction earlier with
  | nil => rfl
  | cons piece earlier ih =>
    obtain ⟨next, others, hnext⟩ := List.exists_cons_of_ne_nil
      (List.append_ne_nil_of_right_ne_nil earlier h)
    rw [List.map_cons, List.cons_append, List.cons_append, ← ih, hnext, endedLines]
    simp

/-- A carriage return is taken off the end of a line only. -/
theorem dropReturn_append (h : front.getLast? ≠ some '\r') :
    dropReturn (front ++ behind) = front ++ dropReturn behind := by
  by_cases hbehind : behind = []
  · simp [hbehind, dropReturn, h]
  · have hlast : (front ++ behind).getLast? = behind.getLast? := by
      rw [List.getLast?_append, Option.or_of_isSome (by simpa using hbehind)]
    simp only [dropReturn, hlast]
    split
    · rw [List.dropLast_append_of_ne_nil hbehind]
    · rfl

/-- A line is the front part of a piece. -/
theorem exists_prefix_of_mem_endedLines {line : List Char} (h : line ∈ endedLines later) :
    ∃ piece ∈ later, line <+: piece := by
  fun_induction endedLines later with
  | case1 => cases h
  | case2 => cases h
  | case3 => exact ⟨line, h, List.prefix_rfl⟩
  | case4 piece others _ ih =>
    rcases List.mem_cons.mp h with rfl | hmem
    · refine ⟨piece, List.mem_cons_self .., ?_⟩
      rw [dropReturn]
      split
      · exact List.dropLast_prefix piece
      · exact List.prefix_rfl
    · obtain ⟨found, hfound, hstart⟩ := ih hmem
      exact ⟨found, List.mem_cons_of_mem _ hfound, hstart⟩

/-- No line holds a line feed. -/
theorem feed_notMem_of_mem_lines {text line : String} (h : line ∈ lines text) :
    '\n' ∉ line.toList := by
  obtain ⟨found, hfound, rfl⟩ := List.mem_map.mp h
  obtain ⟨piece, hpiece, hstart⟩ := exists_prefix_of_mem_endedLines hfound
  rw [String.toList_ofList]
  exact fun hmem => feed_notMem_of_mem_pieces hpiece (hstart.subset hmem)

/-- The characters of a text behind its last line feed. -/
def lastLine (text : List Char) : List Char := (text.reverse.takeWhile (· != '\n')).reverse

/-- One more character is added to the last line, unless it is a line feed and begins a new one.
-/
theorem lastLine_concat (text : List Char) (c : Char) :
    lastLine (text ++ [c]) = if c = '\n' then [] else lastLine text ++ [c] := by
  by_cases hc : c = '\n' <;> simp [lastLine, hc]

/-- The last line holds no line feed. -/
theorem feed_notMem_lastLine (text : List Char) : '\n' ∉ lastLine text := by
  intro hmem
  have hfeed := List.mem_takeWhile_imp (List.mem_reverse.mp hmem)
  simp at hfeed

/-- The last line is at the end of the text. -/
theorem lastLine_suffix (text : List Char) : lastLine text <:+ text :=
  List.reverse_prefix.mp (by simpa [lastLine] using List.takeWhile_prefix (· != '\n'))

/-- Only a text without line feeds is its own last line. -/
theorem lastLine_eq_self_iff {text : List Char} : lastLine text = text ↔ '\n' ∉ text := by
  refine ⟨fun h hmem => feed_notMem_lastLine text (h.symm ▸ hmem), fun h => ?_⟩
  have hall : text.reverse.takeWhile (· != '\n') = text.reverse :=
    List.takeWhile_eq_self_iff.mpr (by simpa using fun c hc (heq : c = '\n') => h (heq ▸ hc))
  rw [lastLine, hall, List.reverse_reverse]

/-- A text with nothing behind its last line feed is empty or ends in one. -/
theorem lastLine_eq_nil {text : List Char} (h : lastLine text = []) :
    text = [] ∨ text.getLast? = some '\n' := by
  induction text using List.reverseRecOn with
  | nil => exact .inl rfl
  | append_singleton text c _ =>
    by_cases hc : c = '\n'
    · simp [hc]
    · simp [lastLine_concat, hc] at h

/-- The line feeds of a text end as many lines, and what is behind the last of them goes on
with what follows. -/
theorem exists_endedLines_append (front behind : List Char) :
    ∃ earlier : List (List Char), earlier.length = front.count '\n' ∧
      endedLines (pieces (front ++ behind)) =
        earlier ++ endedLines (pieces (lastLine front ++ behind)) := by
  suffices hpieces : ∃ earlier : List (List Char), earlier.length = front.count '\n' ∧
      pieces (front ++ behind) = earlier ++ pieces (lastLine front ++ behind) by
    obtain ⟨earlier, hlength, hpieces⟩ := hpieces
    refine ⟨earlier.map dropReturn, by simp [hlength], ?_⟩
    rw [hpieces, endedLines_append (pieces_ne_nil _)]
  induction front using List.reverseRecOn generalizing behind with
  | nil => exact ⟨[], rfl, rfl⟩
  | append_singleton front c ih =>
    obtain ⟨earlier, hlength, hpieces⟩ := ih (c :: behind)
    rw [List.append_assoc, List.singleton_append, hpieces, lastLine_concat]
    by_cases hc : c = '\n'
    · subst hc
      refine ⟨earlier ++ [lastLine front], by simp [hlength], ?_⟩
      rw [pieces_append_feed, pieces_eq_singleton (feed_notMem_lastLine front)]
      simp
    · refine ⟨earlier, by simp [hlength, hc], ?_⟩
      simp [hc]

/-- The line that a place is on begins behind the last line feed in front of the place. -/
theorem getElem?_lines_append (before behind : String) :
    (lines (before ++ behind))[before.toList.count '\n']? =
      (endedLines (pieces (lastLine before.toList ++ behind.toList))).head?.map String.ofList := by
  obtain ⟨earlier, hlength, hlines⟩ := exists_endedLines_append before.toList behind.toList
  rw [lines, String.toList_append, hlines, List.getElem?_map, ← hlength,
    List.getElem?_append_right (Nat.le_refl _), Nat.sub_self, List.head?_eq_getElem?]

/-- A line that begins with other characters than line feeds shows them, but for a carriage
return. -/
theorem head?_endedLines_append (behind : List Char) (hfeed : '\n' ∉ front)
    (hreturn : front.getLast? ≠ some '\r') (hne : front ≠ []) :
    ∃ others, (endedLines (pieces (front ++ behind))).head? = some (front ++ others) := by
  obtain ⟨piece, later, hpieces⟩ := List.exists_cons_of_ne_nil (pieces_ne_nil behind)
  rw [pieces_append hfeed hpieces]
  cases later with
  | nil => exact ⟨piece, by simp [endedLines, hne]⟩
  | cons next later => exact ⟨dropReturn piece, by simp [endedLines, dropReturn_append hreturn]⟩

/-- Behind the last line feed of a text is its last line, if there is anything. -/
theorem endedLines_lastLine (text : List Char) :
    endedLines (pieces (lastLine text)) = if lastLine text = [] then [] else [lastLine text] := by
  simp [pieces_eq_singleton (feed_notMem_lastLine text), endedLines]

/-- A text with nothing behind its last line feed has as many lines as line feeds. -/
theorem length_lines {text : String} (h : lastLine text.toList = []) :
    (lines text).length = text.toList.count '\n' := by
  obtain ⟨earlier, hlength, hlines⟩ := exists_endedLines_append text.toList []
  rw [List.append_nil, List.append_nil, endedLines_lastLine, if_pos h, List.append_nil] at hlines
  rw [lines, hlines, List.length_map, hlength]

end Text

end Formula
