import Formula.Explorer.Session
import Mathlib.Data.List.Induction

/-!
# The editor refines a text buffer

A session shows a buffer: the characters in front of the cursor and those behind it. Each
key does to the session what it does to the buffer, so that no edit is ever refused, and
keeps the analysis that of the text.
-/

namespace Formula

/-- The characters in front of a cursor, and those behind it. -/
structure Buffer where
  left : List Char
  right : List Char
deriving DecidableEq, Repr

namespace Key

/-- The character that a key puts in, if it does. -/
def typed? : Key → Option Char
  | char c control => if c = 'c' ∧ control then none else some c
  | _ => none

/-- What a key that does not change the text does to the offsets of the panes. -/
def scrolled (key : Key) (focus : Pane) (scroll : Scroll) : Scroll :=
  match key with
  | up => scroll.update focus (· - 1)
  | down => scroll.update focus fun lines => min (lines + 1) Scroll.limit
  | _ => scroll

end Key

/-- What a key does to a buffer. -/
def Buffer.press (buffer : Buffer) (key : Key) : Buffer :=
  match key with
  | .char _ _ =>
    match key.typed? with
    | some c => ⟨buffer.left ++ [c], buffer.right⟩
    | none => buffer
  | .backspace => ⟨buffer.left.dropLast, buffer.right⟩
  | .delete => ⟨buffer.left, buffer.right.tail⟩
  | .left =>
    match buffer.left.getLast? with
    | some c => ⟨buffer.left.dropLast, c :: buffer.right⟩
    | none => buffer
  | .right =>
    match buffer.right with
    | c :: right => ⟨buffer.left ++ [c], right⟩
    | [] => buffer
  | .home => ⟨[], buffer.left ++ buffer.right⟩
  | .ending => ⟨buffer.left ++ buffer.right, []⟩
  | .escape | .tab | .backTab | .up | .down | .other => buffer

namespace Session

variable {session next last : Session} {buffer : Buffer} {front behind : List Char} {c : Char}
  {key : Key} {keys : List Key}

/-- A session holds the text of a buffer, its cursor, and the analysis of the text. -/
structure Shows (session : Session) (buffer : Buffer) : Prop where
  input : session.input = String.ofList (buffer.left ++ buffer.right)
  cursor : session.cursor = buffer.left.length
  analysis : session.analysis = .ofText session.input

/-- The index of a character in bytes is the size of what stands in front of it. -/
theorem byteIndex_eq (h : session.input = String.ofList (front ++ behind)) :
    session.byteIndex front.length = (String.ofList front).utf8ByteSize := by
  rw [byteIndex, h, String.toList_ofList]
  cases behind with
  | nil =>
    have hnone : (Text.offsets 0 (front ++ []))[front.length]? = none := by
      simp [Text.length_offsets]
    rw [hnone, List.append_nil, Option.getD_none]
  | cons c behind =>
    rw [Text.getElem?_offsets, Option.getD_some, Nat.zero_add]

/-- A character is put in behind the characters in front of the cursor. -/
theorem insert?_eq (h : session.input = String.ofList (front ++ behind))
    (hcursor : session.cursor = front.length) :
    session.insert? c =
      some (session.edit (session.cursor + 1) (String.ofList (front ++ c :: behind))) := by
  rw [insert?, hcursor, byteIndex_eq h, Text.insertAt?, h, String.toList_ofList,
    Text.splitAt?_append]
  rfl

/-- The character behind some others is taken out. -/
theorem remove?_eq (h : session.input = String.ofList (front ++ c :: behind)) :
    session.remove? front.length =
      some (session.edit front.length (String.ofList (front ++ behind))) := by
  rw [remove?, byteIndex_eq h, Text.removeAt?, h, String.toList_ofList, Text.splitAt?_append]
  rfl

/-- An edited session shows what it was edited to. -/
theorem shows_edit (session : Session) (buffer : Buffer) :
    (session.edit buffer.left.length (String.ofList (buffer.left ++ buffer.right))).Shows buffer :=
  ⟨rfl, rfl, rfl⟩

/-- A key that leaves the text alone shows the same text, with the cursor where it is put. -/
theorem Shows.moved (h : session.Shows buffer) {other : Buffer}
    (hinput : next.input = session.input) (hanalysis : next.analysis = session.analysis)
    (htext : other.left ++ other.right = buffer.left ++ buffer.right)
    (hcursor : next.cursor = other.left.length) : next.Shows other where
  input := by rw [hinput, h.input, htext]
  cursor := hcursor
  analysis := by rw [hanalysis, h.analysis, hinput]

/-- A key does to the session what it does to the buffer. -/
theorem Shows.press? (h : session.Shows buffer) (key : Key) :
    ∃ next, session.press? key = some next ∧ next.Shows (buffer.press key) := by
  obtain ⟨left, right⟩ := buffer
  have hinput : session.input = String.ofList (left ++ right) := h.input
  have hcursor : session.cursor = left.length := h.cursor
  have hlength : session.input.length = left.length + right.length := by
    rw [hinput, String.length_ofList, List.length_append]
  cases key with
  | char c control =>
    by_cases hquit : c = 'c' ∧ control
    · refine ⟨{ session with quit := true }, if_pos hquit, ?_⟩
      simp only [Buffer.press, Key.typed?, if_pos hquit]
      exact h.moved rfl rfl rfl hcursor
    · refine ⟨_, (if_neg hquit).trans (insert?_eq hinput hcursor), ?_⟩
      simp only [Buffer.press, Key.typed?, if_neg hquit]
      have hshows := shows_edit session ⟨left ++ [c], right⟩
      simpa [hcursor] using hshows
  | backspace =>
    rcases List.eq_nil_or_concat left with rfl | ⟨front, c, rfl⟩
    · have hzero : ¬ 0 < session.cursor := by simp [hcursor]
      exact ⟨session, if_neg hzero, h⟩
    · rw [List.concat_eq_append] at h hinput hcursor ⊢
      rw [List.length_append, List.length_singleton] at hcursor
      rw [List.append_assoc, List.singleton_append] at hinput
      have hindex : session.cursor - 1 = front.length := by omega
      have hremove := remove?_eq hinput
      rw [← hindex] at hremove
      refine ⟨_, (if_pos (by omega)).trans hremove, ?_⟩
      have hshows := shows_edit session ⟨front, right⟩
      simpa [hindex, Buffer.press] using hshows
  | delete =>
    cases right with
    | nil =>
      have hend : ¬ session.cursor < session.input.length := by simp [hcursor, hlength]
      exact ⟨session, if_neg hend, h⟩
    | cons c right =>
      rw [List.length_cons] at hlength
      have hremove := remove?_eq hinput
      rw [← hcursor] at hremove
      refine ⟨_, (if_pos (by omega)).trans hremove, ?_⟩
      rw [hcursor]
      exact shows_edit session ⟨left, right⟩
  | left =>
    refine ⟨_, rfl, ?_⟩
    rcases List.eq_nil_or_concat left with rfl | ⟨front, c, rfl⟩
    · exact h.moved rfl rfl rfl (by simp [hcursor, Buffer.press])
    · exact h.moved rfl rfl (by simp [Buffer.press]) (by simp [hcursor, Buffer.press])
  | right =>
    refine ⟨_, rfl, ?_⟩
    cases right with
    | nil => exact h.moved rfl rfl rfl (by simp [hcursor, hlength, Buffer.press])
    | cons c right =>
      refine h.moved rfl rfl (by simp [Buffer.press]) ?_
      simp [hcursor, hlength, Buffer.press]
  | home => exact ⟨_, rfl, h.moved rfl rfl rfl rfl⟩
  | ending =>
    refine ⟨_, rfl, h.moved rfl rfl (by simp [Buffer.press]) ?_⟩
    simp [Buffer.press, hlength]
  | _ => exact ⟨_, rfl, h.moved rfl rfl rfl hcursor⟩

/-- An edit shows the panes from the top and keeps the focus. -/
theorem exists_edit_of_insert? (h : session.insert? c = some next) :
    ∃ cursor input, next = session.edit cursor input := by
  obtain ⟨input, -, rfl⟩ := Option.map_eq_some_iff.mp h
  exact ⟨_, input, rfl⟩

/-- A removal shows the panes from the top and keeps the focus, as an insertion does. -/
theorem exists_edit_of_remove? {index : Nat} (h : session.remove? index = some next) :
    ∃ cursor input, next = session.edit cursor input := by
  obtain ⟨input, -, rfl⟩ := Option.map_eq_some_iff.mp h
  exact ⟨_, input, rfl⟩

/-- A key edits the text, or leaves it alone. -/
theorem press?_cases (h : session.press? key = some next) :
    (∃ cursor input, next = session.edit cursor input ∧
      (key.typed?.isSome ∨ key = .backspace ∧ 0 < session.cursor ∨
        key = .delete ∧ session.cursor < session.input.length)) ∨
    (next.input = session.input ∧ next.scroll = key.scrolled session.focus session.scroll ∧
      (session.quit → next.quit) ∧ (key ≠ .tab → key ≠ .backTab → next.focus = session.focus)) := by
  cases key with
  | char c control =>
    by_cases hquit : c = 'c' ∧ control
    · obtain rfl := Option.some.inj ((if_pos hquit).symm.trans h)
      exact .inr ⟨rfl, rfl, fun _ => rfl, fun _ _ => rfl⟩
    · obtain ⟨cursor, input, hnext⟩ := exists_edit_of_insert? ((if_neg hquit).symm.trans h)
      exact .inl ⟨cursor, input, hnext, .inl (by simp [Key.typed?, if_neg hquit])⟩
  | backspace =>
    by_cases hpos : 0 < session.cursor
    · obtain ⟨cursor, input, hnext⟩ := exists_edit_of_remove? ((if_pos hpos).symm.trans h)
      exact .inl ⟨cursor, input, hnext, .inr (.inl ⟨rfl, hpos⟩)⟩
    · obtain rfl := Option.some.inj ((if_neg hpos).symm.trans h)
      exact .inr ⟨rfl, rfl, id, fun _ _ => rfl⟩
  | delete =>
    by_cases hlt : session.cursor < session.input.length
    · obtain ⟨cursor, input, hnext⟩ := exists_edit_of_remove? ((if_pos hlt).symm.trans h)
      exact .inl ⟨cursor, input, hnext, .inr (.inr ⟨rfl, hlt⟩)⟩
    · obtain rfl := Option.some.inj ((if_neg hlt).symm.trans h)
      exact .inr ⟨rfl, rfl, id, fun _ _ => rfl⟩
  | escape =>
    cases h
    exact .inr ⟨rfl, rfl, fun _ => rfl, fun _ _ => rfl⟩
  | tab =>
    cases h
    exact .inr ⟨rfl, rfl, id, fun htab _ => absurd rfl htab⟩
  | backTab =>
    cases h
    exact .inr ⟨rfl, rfl, id, fun _ hback => absurd rfl hback⟩
  | _ =>
    cases h
    exact .inr ⟨rfl, rfl, id, fun _ _ => rfl⟩

/-- The text is as long as the two parts of the buffer. -/
theorem Shows.length (h : session.Shows buffer) :
    session.input.length = buffer.left.length + buffer.right.length := by
  rw [h.input, String.length_ofList, List.length_append]

/-- An edit changes the text. -/
theorem Shows.input_ne (h : session.Shows buffer) (hnext : next.Shows (buffer.press key))
    (hedits : key.typed?.isSome ∨ key = .backspace ∧ 0 < session.cursor ∨
      key = .delete ∧ session.cursor < session.input.length) : next.input ≠ session.input := by
  intro hinput
  have hlength := h.length
  have hlength' := hnext.length
  rw [hinput, hlength] at hlength'
  rcases hedits with htyped | ⟨rfl, hpos⟩ | ⟨rfl, hlt⟩
  · obtain ⟨c, hc⟩ := Option.isSome_iff_exists.mp htyped
    cases key with
    | char =>
      simp only [Buffer.press, hc, List.length_append, List.length_singleton] at hlength'
      omega
    | _ => cases hc
  · rw [h.cursor] at hpos
    simp only [Buffer.press, List.length_dropLast] at hlength'
    omega
  · rw [h.cursor] at hlt
    simp only [Buffer.press, List.length_tail] at hlength'
    omega

/-- What a key does besides to the buffer: the panes are shown from the top again exactly
if the text changes, and a session that is over stays so. -/
theorem Shows.effects (h : session.Shows buffer) (hpress : session.press? key = some next) :
    (next.input ≠ session.input → next.scroll = {}) ∧
      (next.input = session.input → next.scroll = key.scrolled session.focus session.scroll) ∧
      (session.quit → next.quit) ∧ (key ≠ .tab → key ≠ .backTab → next.focus = session.focus) := by
  rcases press?_cases hpress with
    ⟨cursor, input, hnext, hedits⟩ | ⟨hinput, hscroll, hquit, hfocus⟩
  · obtain ⟨found, hfound, hshows⟩ := h.press? key
    obtain rfl : next = found := Option.some.inj (hpress.symm.trans hfound)
    have hne := h.input_ne hshows hedits
    subst hnext
    exact ⟨fun _ => rfl, fun heq => absurd heq hne, id, fun _ _ => rfl⟩
  · exact ⟨fun hne => absurd hinput hne, fun _ => hscroll, hquit, hfocus⟩

/-! ### Runs -/

/-- A run presses the first key and then goes on with the others. -/
theorem pressAll?_cons (session : Session) (key : Key) (keys : List Key) :
    session.pressAll? (key :: keys) = (session.press? key).bind (·.pressAll? keys) :=
  List.foldlM_cons

/-- Keys do to the session what they do to the buffer, and no edit is refused on the way.
The focus stays where it is unless it is moved. -/
theorem Shows.pressAll? (h : session.Shows buffer) (keys : List Key) :
    ∃ last, session.pressAll? keys = some last ∧ session.pressAll keys = last ∧
      last.Shows (keys.foldl Buffer.press buffer) ∧
      (.tab ∉ keys → .backTab ∉ keys → last.focus = session.focus) := by
  induction keys generalizing session buffer with
  | nil => exact ⟨session, rfl, rfl, h, fun _ _ => rfl⟩
  | cons key keys ih =>
    obtain ⟨next, hpress, hshows⟩ := h.press? key
    obtain ⟨-, -, -, hfocus⟩ := h.effects hpress
    obtain ⟨last, hrun, hall, hlast, hkept⟩ := ih hshows
    refine ⟨last, ?_, ?_, hlast, fun htab hback => ?_⟩
    · rw [pressAll?_cons, hpress, Option.bind_some, hrun]
    · rw [← hall, Session.pressAll, List.foldl_cons, press, hpress]
      rfl
    · rw [List.mem_cons, not_or] at htab hback
      rw [hkept htab.2 hback.2, hfocus (Ne.symm htab.1) (Ne.symm hback.1)]

/-- A session begins behind the end of its text. -/
theorem shows_start (input : String) : (start input).Shows ⟨input.toList, []⟩ where
  input := by simp [start]
  cursor := String.length_toList.symm
  analysis := rfl

end Session

namespace Buffer

variable {buffer : Buffer} {text : List Char} {typed : List Key}

/-- Typed characters are put in one behind the other. -/
theorem foldl_typed (htyped : typed.map Key.typed? = text.map some) :
    typed.foldl press buffer = ⟨buffer.left ++ text, buffer.right⟩ := by
  induction typed generalizing buffer text with
  | nil =>
    obtain rfl : text = [] := by simpa using htyped.symm
    simp
  | cons key typed ih =>
    cases text with
    | nil => cases htyped
    | cons c text =>
      obtain ⟨hkey, hrest⟩ := List.cons.inj htyped
      cases key with
      | char =>
        rw [List.foldl_cons, ih hrest]
        simp [press, hkey]
      | _ => cases hkey

/-- As many characters are taken out as the key is pressed. -/
theorem foldl_backspace (left right text : List Char) :
    (List.replicate text.length Key.backspace).foldl press ⟨left ++ text, right⟩ =
      ⟨left, right⟩ := by
  induction text using List.reverseRecOn with
  | nil => simp
  | append_singleton text c ih =>
    rw [List.length_append, List.length_singleton, List.replicate_succ, List.foldl_cons]
    simpa [press, ← List.append_assoc] using ih

end Buffer

/-- The editor refines a text buffer. From any text on, and whatever keys are pressed, no
edit is at an offset that is none of a character, and the session shows the buffer to which
the keys were applied, with the analysis of its text. Each further key shows the panes
from the top if it changes the text, and otherwise leaves the offsets alone, unless it
scrolls the pane with the focus; and no key takes back the wish to quit. Any text that is
typed and taken back leaves the text, the cursor, the analysis and the focus as they were. -/
theorem editor_refines_buffer (input : String) (keys : List Key) :
    let buffer := keys.foldl Buffer.press ⟨input.toList, []⟩
    ∃ session, (Session.start input).pressAll? keys = some session ∧
      (Session.start input).pressAll keys = session ∧
      session.input = String.ofList (buffer.left ++ buffer.right) ∧
      session.cursor = buffer.left.length ∧
      session.analysis = .ofText session.input ∧
      (∀ key, ∃ next, session.press? key = some next ∧
        (next.input ≠ session.input → next.scroll = {}) ∧
        (next.input = session.input → next.scroll = key.scrolled session.focus session.scroll) ∧
        (session.quit → next.quit)) ∧
      ∀ (text : List Char) (typed : List Key), typed.map Key.typed? = text.map some →
        ∃ restored,
          session.pressAll? (typed ++ List.replicate text.length .backspace) = some restored ∧
          restored.input = session.input ∧ restored.cursor = session.cursor ∧
          restored.analysis = session.analysis ∧ restored.focus = session.focus := by
  intro buffer
  obtain ⟨session, hrun, hall, hshows, -⟩ := (Session.shows_start input).pressAll? keys
  refine ⟨session, hrun, hall, hshows.input, hshows.cursor, hshows.analysis, ?_, ?_⟩
  · intro key
    obtain ⟨next, hpress, -⟩ := hshows.press? key
    obtain ⟨hedited, hkept, hquit, -⟩ := hshows.effects hpress
    exact ⟨next, hpress, hedited, hkept, hquit⟩
  · intro text typed htyped
    obtain ⟨restored, hrestored, -, hback, hfocus⟩ :=
      hshows.pressAll? (typed ++ List.replicate text.length .backspace)
    have hsame : (typed ++ List.replicate text.length Key.backspace).foldl Buffer.press buffer =
        buffer := by
      rw [List.foldl_append, Buffer.foldl_typed htyped]
      exact Buffer.foldl_backspace _ _ _
    rw [show _ = buffer from hsame] at hback
    have hinput : restored.input = session.input := hback.input.trans hshows.input.symm
    refine ⟨restored, hrestored, hinput, hback.cursor.trans hshows.cursor.symm, ?_, ?_⟩
    · rw [hback.analysis, hshows.analysis, hinput]
    · have hother : ∀ key : Key, key.typed? = none → key ≠ .backspace →
          key ∉ typed ++ List.replicate text.length .backspace := by
        intro key hnone hne hmem
        rcases List.mem_append.mp hmem with hmem | hmem
        · have hsome : key.typed? ∈ text.map some := htyped ▸ List.mem_map_of_mem hmem
          simp [hnone] at hsome
        · exact hne (List.eq_of_mem_replicate hmem)
      exact hfocus (hother _ rfl nofun) (hother _ rfl nofun)

/-- A line feed is put in behind a letter of two bytes, and the letter behind it taken out.
Two more characters are typed, one of them with a key held down, and taken back. -/
theorem editor_refines_buffer_line_feed :
    let keys : List Key := [.left, .char '\n' false, .delete]
    let typed : List Key := [.char 'é' true, .char 'c' false]
    typed.map Key.typed? = ['é', 'c'].map some ∧
      ∃ session, (Session.start "πr").pressAll? keys = some session ∧
        session.input = "π\n" ∧ session.cursor = 2 ∧
        ∃ restored,
          session.pressAll? (typed ++ List.replicate 2 .backspace) = some restored ∧
          restored.input = "π\n" ∧ restored.cursor = 2 := by
  intro keys typed
  have htyped : typed.map Key.typed? = ['é', 'c'].map some := by decide
  obtain ⟨session, hrun, -, hinput, hcursor, -, -, htaken⟩ := editor_refines_buffer "πr" keys
  obtain ⟨restored, hrestored, hsame, hback, -⟩ := htaken ['é', 'c'] typed htyped
  have htext : session.input = "π\n" := hinput.trans (by decide)
  have hplace : session.cursor = 2 := hcursor.trans (by decide)
  exact ⟨htyped, session, hrun, htext, hplace, restored, hrestored, hsame.trans htext,
    hback.trans hplace⟩

end Formula
