import StyleGuide.Rule.Context

/-! # Tabs in the indentation of a row -/

namespace StyleGuide

/-- The run of spaces and tabs at the start of a row. -/
def indentation (row : Text) : Text := row.takeWhile fun c => c == ' ' || c == '\t'

/-- The row with four spaces for each tab of its indentation. -/
def untabify (row : Text) : Text :=
  (indentation row).flatMap (fun c => if c == '\t' then [' ', ' ', ' ', ' '] else [c])
    ++ row.drop (indentation row).length

namespace MixedIndentation

/-- Points at the first character of the indentation that differs from the one the file started
    to indent with. -/
def check (ctx : RowContext) : Option Finding :=
  let gap := indentation ctx.row
  let same := gap.takeWhile fun c => some c == ctx.indentChar
  if same.length < gap.length then
    some (.atOffset same.length .e101 "indentation contains mixed spaces and tabs")
  else none

def fix (ctx : RowContext) : Fix :=
  ⟨"mixed tabs and spaces converted to all spaces.", .line (untabify ctx.row)⟩

end MixedIndentation

namespace TabIndentation

/-- Points at the first tab of the indentation. -/
def check (ctx : RowContext) : Option Finding :=
  let gap := indentation ctx.row
  if '\t' ∈ gap then
    some (.atOffset (gap.takeWhile (· != '\t')).length .w191 "indentation contains tabs")
  else none

def fix (ctx : RowContext) : Fix :=
  ⟨"tab converted to 4 spaces.", .line (untabify ctx.row)⟩

end TabIndentation

end StyleGuide
