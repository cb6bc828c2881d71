import StyleGuide.Finding
import StyleGuide.Token

/-! # What a rule may look at -/

namespace StyleGuide

/-- What a rule for rows may look at. -/
structure RowContext where
  /-- The row with its terminator; an earlier fix may have changed it. -/
  row : Text
  /-- The first character of the first indented row of the file. -/
  indentChar : Option Char
  /-- The number of the row, counted from one. -/
  number : Nat
  /-- The number of rows of the file. -/
  total : Nat
  /-- The number of characters a row may have. -/
  maxLength : Nat

/-- What a rule for statements may look at. -/
structure StatementContext where
  /-- The statement as a logical line; an earlier fix may have changed it. -/
  text : Text
  /-- The tokens of the statement, layout and comments among them. -/
  tokens : List Token
  /-- The first character of the first indented row of the file. -/
  indentChar : Option Char
  /-- The row on which the statement starts. -/
  row : Nat
  indentLevel : Nat
  previousIndentLevel : Nat
  /-- The logical line of the statement before this one; empty for the first. -/
  previous : Text
  /-- The number of blank lines directly in front of the statement. -/
  blankLines : Nat
  /-- The largest number of blank lines in front of a comment before the statement. -/
  blankLinesBeforeComment : Nat

end StyleGuide
