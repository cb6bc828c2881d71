import StyleGuide.Rule.RowEnd
import StyleGuide.Rule.Tabs

/-! # Rules for rows

A rule for rows looks at one row of the source at a time.
-/

namespace StyleGuide

/-- A rule for rows. -/
inductive RowRule where
  /-- A row has at most a given number of characters. -/
  | lineLength
  /-- The last row ends in a newline. -/
  | missingNewline
  /-- Indentation holds no tabs. -/
  | tabIndentation
  /-- Indentation is of one kind of character. -/
  | mixedIndentation
  /-- The file does not end in a blank line. -/
  | trailingBlankLine
  /-- A row does not end in white space. -/
  | trailingWhitespace
  deriving Repr, DecidableEq, BEq

namespace RowRule

/-- The rules in the order of their names. -/
def all : List RowRule :=
  [.lineLength, .missingNewline, .tabIndentation, .mixedIndentation, .trailingBlankLine,
    .trailingWhitespace]

/-- The name of a rule. -/
def name : RowRule → String
  | .lineLength => "maximum_line_length"
  | .missingNewline => "missing_newline"
  | .tabIndentation => "tabs_obsolete"
  | .mixedIndentation => "tabs_or_spaces"
  | .trailingBlankLine => "trailing_blank_lines"
  | .trailingWhitespace => "trailing_whitespace"

/-- The codes that a rule can report. -/
def codes : RowRule → List Code
  | .lineLength => [.e501]
  | .missingNewline => [.w292]
  | .tabIndentation => [.w191]
  | .mixedIndentation => [.e101]
  | .trailingBlankLine => [.w391]
  | .trailingWhitespace => [.w291, .w293]

/-- What a rule finds; it reports at most one finding at a time. -/
def check (ctx : RowContext) : RowRule → Option Finding
  | .lineLength => LineLength.check ctx
  | .missingNewline => MissingNewline.check ctx
  | .tabIndentation => TabIndentation.check ctx
  | .mixedIndentation => MixedIndentation.check ctx
  | .trailingBlankLine => TrailingBlankLine.check ctx
  | .trailingWhitespace => TrailingWhitespace.check ctx

/-- How a rule mends its finding, if it can. -/
def fix (ctx : RowContext) : RowRule → Option Fix
  | .lineLength => none
  | .missingNewline => some (MissingNewline.fix ctx)
  | .tabIndentation => some (TabIndentation.fix ctx)
  | .mixedIndentation => some (MixedIndentation.fix ctx)
  | .trailingBlankLine => some (TrailingBlankLine.fix ctx)
  | .trailingWhitespace => some (TrailingWhitespace.fix ctx)

end RowRule

end StyleGuide
