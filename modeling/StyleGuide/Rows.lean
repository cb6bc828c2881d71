import StyleGuide.Text

/-! # The rows of a source -/

namespace StyleGuide

/-- The rows of a source in order, each with its terminator. -/
abbrev Rows := Array Text

namespace Rows

/-- The rows of a source. -/
def ofSource (source : Text) : Rows := (Text.rows source).toArray

/-- The row with this number, counted from one; empty if there is none. -/
def row (rows : Rows) (number : Nat) : Text :=
  if number = 0 then [] else rows[number - 1]?.getD []

theorem row_of_size_lt {rows : Rows} {n : Nat} (h : rows.size < n) : rows.row n = [] := by
  rw [row, if_neg (by omega), Array.getElem?_eq_none (by omega)]
  rfl

theorem le_size_of_row {rows : Rows} {n : Nat} (h : rows.row n ≠ []) : n ≤ rows.size :=
  Nat.le_of_not_lt fun beyond => h (row_of_size_lt beyond)

/-- The row with this number without its terminator. -/
def shown (rows : Rows) (number : Nat) : Text := Text.withoutTerminator (rows.row number)

end Rows

end StyleGuide
