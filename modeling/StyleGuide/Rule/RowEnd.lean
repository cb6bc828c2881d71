import StyleGuide.Rule.Context

/-! # The end of a row and of a file -/

namespace StyleGuide

namespace TrailingWhitespace

/-- The row without the terminator and the form feeds before it, which do not count as trailing
    white space. -/
def content (row : Text) : Text :=
  let unended := Text.dropEndWhile (· == '\r') (Text.dropEndWhile (· == '\n') row)
  Text.dropEndWhile (· == '\x0c') unended

/-- The row with a newline for the run of spaces, tabs and line ends at its end. -/
def strip (row : Text) : Text :=
  let kept := Text.dropEndWhile (fun c => c == ' ' || c == '\n' || c == '\r' || c == '\t') row
  if kept.length < row.length then kept ++ ['\n'] else row

/-- Points behind the last character that is not white space. -/
def check (ctx : RowContext) : Option Finding :=
  let row := content ctx.row
  let stripped := Text.trimEnd row
  if row = stripped then none
  else if stripped.isEmpty then some (.atOffset 0 .w293 "blank line contains whitespace")
  else some (.atOffset (Text.byteLength stripped) .w291 "trailing whitespace")

def fix (ctx : RowContext) : Fix :=
  ⟨"whitespace stripped from end of line.", .line (strip ctx.row)⟩

end TrailingWhitespace

namespace TrailingBlankLine

/-- The last row of a file is not blank. -/
def check (ctx : RowContext) : Option Finding :=
  if ctx.number = ctx.total ∧ Text.isAllBlank ctx.row then
    some (.atOffset 0 .w391 "blank line at end of file")
  else none

def fix (_ : RowContext) : Fix :=
  ⟨"superfluous trailing blank line removed from end of file.", .line []⟩

end TrailingBlankLine

namespace MissingNewline

/-- A row that ends in no white space at all has no terminator. -/
def check (ctx : RowContext) : Option Finding :=
  if Text.trimEnd ctx.row = ctx.row then
    some (.atOffset (Text.byteLength ctx.row) .w292 "no newline at end of file")
  else none

def fix (ctx : RowContext) : Fix :=
  ⟨"newline added to end of file.", .line (ctx.row ++ ['\n'])⟩

end MissingNewline

namespace LineLength

/-- Points at the first character past the limit. White space at the end does not count. -/
def check (ctx : RowContext) : Option Finding :=
  let row := Text.trimEnd ctx.row
  if row.length ≤ ctx.maxLength then none
  else
    some (.atOffset (Text.byteLength (row.take ctx.maxLength)) .e501
      s!"line too long ({row.length} characters)")

end LineLength

end StyleGuide
