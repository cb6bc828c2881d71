import StyleGuide.Rule.Context

/-! # The indentation of statements -/

namespace StyleGuide.BlockIndentation

/-- Whether a block has to follow the statement: it ends in a colon. -/
def expectsBlock (text : Text) : Bool := [':'].isSuffixOf text

/-- A block is indented by a multiple of four where spaces are used, starts behind a colon, and
    nothing else is indented more than the statement before it. -/
def check (ctx : StatementContext) : Option Finding :=
  if ctx.indentChar = some ' ' ∧ ctx.indentLevel % 4 ≠ 0 then
    some (.atOffset 0 .e111 "indentation is not a multiple of four")
  else if expectsBlock ctx.previous ∧ ctx.indentLevel ≤ ctx.previousIndentLevel then
    some (.atOffset 0 .e112 "expected an indented block")
  else if ctx.previousIndentLevel < ctx.indentLevel ∧ ¬expectsBlock ctx.previous then
    some (.atOffset 0 .e113 "unexpected indentation")
  else none

end StyleGuide.BlockIndentation
