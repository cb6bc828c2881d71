import StyleGuide.Code
import StyleGuide.Text

/-! # Reports on single files -/

namespace StyleGuide

/-- A violation in a file. -/
structure Violation where
  code : Code
  /-- The row, counted from one. -/
  row : Nat
  /-- The column, counted in characters from zero. -/
  column : Nat
  message : String
  /-- The row of the file, without its terminator. -/
  sourceLine : Text
  /-- What the style guide says about it. -/
  guidance : String
  deriving Repr, DecidableEq

namespace Violation

/-- Code and message. -/
def text (v : Violation) : String := s!"{v.code.text} {v.message}"

end Violation

/-- A change that was made to mend a violation. -/
structure FixNotice where
  /-- The index of the violation in the report. -/
  violation : Nat
  description : String
  old : Text
  new : Text
  deriving Repr, DecidableEq

/-- What is known about a file after a check. -/
structure FileReport where
  /-- The violations whose codes are not suppressed, in the order in which they were found. -/
  violations : List Violation
  /-- The number of findings that the filter kept out. -/
  suppressed : Nat
  physicalLines : Nat
  logicalLines : Nat
  fixes : List FixNotice
  /-- The mended source, if mending was asked for. -/
  fixed : Option Text
  deriving Repr, DecidableEq

end StyleGuide
