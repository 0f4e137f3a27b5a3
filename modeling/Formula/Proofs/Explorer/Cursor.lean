import Formula.Explorer.Panes
import Formula.Proofs.Explorer.Editing

/-!
# The column of the cursor

The cursor of a session lies within its text, and its column on the screen within the pane.
The column follows the cursor up to the border as long as the cursor fits into sixteen bits.
Beyond, it starts over at the left end of the pane whenever they are used up.
-/

namespace Formula

namespace InputPane

variable {area : Area} {cursor : Nat}

/-- The column is inside the border, wherever the cursor is. -/
theorem cursorColumn_mem (hwidth : 2 ≤ area.width) (cursor : Nat) :
    area.x < cursorColumn area cursor ∧ cursorColumn area cursor < area.x + area.width := by
  unfold cursorColumn
  omega

/-- The column follows the cursor as long as the cursor fits into sixteen bits, or what is left
of it reaches the border. -/
theorem cursorColumn_eq_iff :
    cursorColumn area cursor = area.x + 1 + min cursor (area.width - 2) ↔
      cursor < UInt16.size ∨ area.width - 2 ≤ cursor % UInt16.size := by
  have hle : cursor % UInt16.size ≤ cursor := Nat.mod_le _ _
  have hfits : cursor % UInt16.size = cursor ↔ cursor < UInt16.size :=
    Nat.mod_eq_iff_lt (by decide)
  rw [← hfits, cursorColumn]
  omega

/-- A step to the right moves the column to the left exactly if it takes the cursor to a multiple
of what fits into sixteen bits and the pane has room for two columns. -/
theorem cursorColumn_succ_lt_iff :
    cursorColumn area (cursor + 1) < cursorColumn area cursor ↔
      (cursor + 1) % UInt16.size = 0 ∧ 2 < area.width := by
  have hsize : 0 < UInt16.size := by decide
  unfold cursorColumn
  by_cases hlast : cursor % UInt16.size + 1 = UInt16.size
  · have hnext : (cursor + 1) % UInt16.size = 0 := by
      rw [Nat.add_mod, Nat.mod_eq_of_lt (by decide : 1 < UInt16.size), hlast, Nat.mod_self]
    have hpos : 0 < cursor % UInt16.size := by
      have : 1 < UInt16.size := by decide
      omega
    rw [hnext]
    omega
  · have hlt : cursor % UInt16.size + 1 < UInt16.size :=
      Nat.lt_of_le_of_ne (Nat.mod_lt cursor hsize) hlast
    have hnext : (cursor + 1) % UInt16.size = cursor % UInt16.size + 1 := by
      rw [Nat.add_mod, Nat.mod_eq_of_lt (by decide : 1 < UInt16.size), Nat.mod_eq_of_lt hlt]
    rw [hnext]
    omega

end InputPane

/-- Whatever keys were pressed, the cursor lies within the text. -/
theorem Session.cursor_le_length (input : String) (keys : List Key) :
    ((Session.start input).pressAll keys).cursor ≤
      ((Session.start input).pressAll keys).input.length := by
  obtain ⟨last, -, hall, hshows, -⟩ := (Session.shows_start input).pressAll? keys
  rw [hall, hshows.cursor, hshows.length]
  exact Nat.le_add_right _ _

/-- The column of the cursor, in every session that keys lead to and every pane on the screen. The
cursor lies within the text and its column inside the pane, so that no sum leaves the sixteen
bits in which columns are counted. The column is that of the cursor, or the last one of the pane
where the cursor is behind it, exactly as long as the cursor fits into sixteen bits or what is
left of it reaches the border. The key to the right moves the column to the left exactly if it
takes the cursor to a multiple of what fits. -/
theorem cursorColumn_of_pressAll (input : String) (keys : List Key) (area : Area)
    (hwidth : 2 ≤ area.width) (hright : area.x + area.width < UInt16.size) :
    let session := (Session.start input).pressAll keys
    let column := InputPane.cursorColumn area
    session.cursor ≤ session.input.length ∧
      area.x < column session.cursor ∧ column session.cursor < area.x + area.width ∧
      column session.cursor < UInt16.size ∧
      (column session.cursor = area.x + 1 + min session.cursor (area.width - 2) ↔
        session.cursor < UInt16.size ∨ area.width - 2 ≤ session.cursor % UInt16.size) ∧
      (column (session.press .right).cursor < column session.cursor ↔
        session.cursor < session.input.length ∧ (session.cursor + 1) % UInt16.size = 0 ∧
          2 < area.width) := by
  intro session column
  have hcursor : session.cursor ≤ session.input.length := Session.cursor_le_length input keys
  obtain ⟨hleft, hinside⟩ := InputPane.cursorColumn_mem hwidth session.cursor
  refine ⟨hcursor, hleft, hinside, Nat.lt_trans hinside hright, InputPane.cursorColumn_eq_iff, ?_⟩
  have hpress : (session.press .right).cursor = min (session.cursor + 1) session.input.length := rfl
  rw [hpress]
  rcases Nat.lt_or_eq_of_le hcursor with hlt | heq
  · rw [Nat.min_eq_left hlt, InputPane.cursorColumn_succ_lt_iff]
    simp [hlt]
  · rw [Nat.min_eq_right (heq ▸ Nat.le_succ _), ← heq]
    simp

/-- In front of the last of 65536 blanks, the key to the right takes the column of the cursor from
the right end of the pane to its left end. -/
theorem cursorColumn_of_pressAll_blanks :
    let area : Area := ⟨0, 0, 12, 3⟩
    let session := (Session.start (Text.blanks UInt16.size)).pressAll [.left]
    2 ≤ area.width ∧ area.x + area.width < UInt16.size ∧
      InputPane.cursorColumn area session.cursor = 11 ∧
      InputPane.cursorColumn area (session.press .right).cursor <
        InputPane.cursorColumn area session.cursor := by
  intro area session
  have hleft : ∀ input : String, ((Session.start input).pressAll [.left]).input = input ∧
      ((Session.start input).pressAll [.left]).cursor = input.length - 1 := fun _ => ⟨rfl, rfl⟩
  obtain ⟨hinput, hcursor⟩ := hleft (Text.blanks UInt16.size)
  have hlength := Text.length_blanks UInt16.size
  obtain ⟨-, -, -, -, hfollows, hmoves⟩ := cursorColumn_of_pressAll (Text.blanks UInt16.size)
    [.left] area (by decide) (by decide)
  rw [hinput, hlength] at hmoves
  rw [hcursor, hlength] at hfollows
  refine ⟨by decide, by decide, ?_, hmoves.mpr ?_⟩
  · rw [hcursor, hlength]
    exact hfollows.mpr (.inl (by decide))
  · rw [hcursor, hlength]
    decide

/-- The column of the cursor is not always that of the cursor or the last one of the pane. -/
theorem not_cursorColumn_eq_min :
    ¬ ∀ (input : String) (keys : List Key) (area : Area),
      2 ≤ area.width → area.x + area.width < UInt16.size →
        InputPane.cursorColumn area ((Session.start input).pressAll keys).cursor =
          area.x + 1 + min ((Session.start input).pressAll keys).cursor (area.width - 2) := by
  intro hall
  have hcolumn := InputPane.cursorColumn_eq_iff.mp
    (hall (Text.blanks UInt16.size) [] ⟨0, 0, 12, 3⟩ (by decide) (by decide))
  have hstart : ∀ input : String, ((Session.start input).pressAll []).cursor = input.length :=
    fun _ => rfl
  rw [hstart, Text.length_blanks] at hcolumn
  exact absurd hcolumn (by decide)

end Formula
