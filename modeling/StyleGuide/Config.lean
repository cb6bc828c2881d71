import StyleGuide.CodeFilter
import StyleGuide.Text

/-! # Configuration -/

namespace StyleGuide

/-- What to report, how to measure, which files to check and what to do with them. -/
structure Config where
  /-- Starts of the codes to report. -/
  select : List String := []
  /-- Starts of the codes to leave out. -/
  ignore : List String := ["E24"]
  /-- The number of characters a row may have. -/
  maxLineLength : Nat := 120
  /-- The distance of tab stops in the indentation of statements. -/
  tabSize : Nat := 8
  /-- Report every violation, not only the first of each code. -/
  everyOccurrence : Bool := false
  /-- Mend what can be mended. -/
  fix : Bool := false
  /-- Put the mended source in the place of the file. -/
  inPlace : Bool := false
  /-- Show the row of each violation. -/
  showSource : Bool := false
  /-- Show the guidance on each violation. -/
  showGuidance : Bool := false
  /-- Patterns of the names that are passed over. -/
  exclude : List String := [".svn", "CVS", ".bzr", ".hg", ".git"]
  /-- Patterns of the names of files that are checked. -/
  filename : List String := ["*.py"]
  deriving Repr, DecidableEq, BEq

namespace Config

/-- The filter of the selected and ignored codes. -/
def codeFilter (c : Config) : CodeFilter := ⟨c.select, c.ignore⟩

/-- The largest line length that may be asked for. -/
def lineLengthLimit : Nat := 1000

/-- The largest tab size that may be asked for. -/
def tabSizeLimit : Nat := 16

/-- Why a configuration cannot be used. -/
inductive Problem where
  | noLineLength
  | longLineLength (length : Nat)
  | noTabSize
  | wideTabSize (size : Nat)
  /-- Files are to be replaced but not mended. -/
  | inPlaceWithoutFix
  deriving Repr, DecidableEq

/-- The problem in words. -/
def Problem.message : Problem → String
  | .noLineLength => "max_line_length must be at least 1"
  | .longLineLength n => s!"max_line_length {n} exceeds maximum of {lineLengthLimit}"
  | .noTabSize => "tab_size must be at least 1"
  | .wideTabSize n => s!"tab_size {n} exceeds maximum of {tabSizeLimit}"
  | .inPlaceWithoutFix => "in_place requires fix"

/-- The first problem of a configuration. -/
def problem? (c : Config) : Option Problem :=
  if c.maxLineLength = 0 then some .noLineLength
  else if lineLengthLimit < c.maxLineLength then some (.longLineLength c.maxLineLength)
  else if c.tabSize = 0 then some .noTabSize
  else if tabSizeLimit < c.tabSize then some (.wideTabSize c.tabSize)
  else if c.inPlace && !c.fix then some .inPlaceWithoutFix
  else none

end Config

/-- The items of a list that is separated by commas; empty items do not count. -/
def splitList (value : String) : List String :=
  (((Text.splitOn ',' value.toList).map Text.trim).filter (!·.isEmpty)).map String.ofList

end StyleGuide
