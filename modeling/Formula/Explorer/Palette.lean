import Formula.Screen.Basic

/-!
# Colors of the explorer

Each color is named for what it marks.
-/

namespace Formula

namespace Palette

/-- Plain text. -/
def text : Color := .rgb 205 214 244

/-- Variables. -/
def letter : Color := .rgb 137 180 250

/-- Operators. -/
def operator : Color := .rgb 250 179 135

/-- What is of lesser importance. -/
def comment : Color := .rgb 108 112 134

/-- Formulas that have a tree. -/
def success : Color := .rgb 166 227 161

/-- Formulas that have none. -/
def error : Color := .rgb 243 139 168

/-- Numbers. -/
def number : Color := .rgb 148 226 213

/-- Names of functions. -/
def function : Color := .rgb 249 226 175

/-- The border of the pane that has the focus. -/
def focusedBorder : Color := .rgb 249 226 175

/-- The borders of other panes. -/
def plainBorder : Color := .rgb 108 112 134

/-- The ground of the status bar. -/
def statusGround : Color := .rgb 50 50 70

end Palette

end Formula
