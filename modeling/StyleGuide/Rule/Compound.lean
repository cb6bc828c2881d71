import StyleGuide.Rule.Context
import StyleGuide.Text.Word

/-! # Several statements on one line -/

namespace StyleGuide

namespace SeparateImports

/-- Points at the first comma of an import of whole modules. -/
def check (ctx : StatementContext) : Option Finding :=
  if "import ".toList.isPrefixOf ctx.text then
    (Text.find? [','] ctx.text).map fun n => .atOffset n .e401 "multiple imports on one line"
  else none

end SeparateImports

namespace CompoundStatement

/-- Whether every bracket of one kind that is opened in the text is also closed in it. -/
def isClosed (opening closing : Char) (text : Text) : Bool :=
  text.count opening ≤ text.count closing

/-- Whether a colon behind the text ends the head of a compound statement: it lies outside all
    brackets, and no lambda is before it. -/
def isHead (text : Text) : Bool :=
  isClosed '\x7b' '\x7d' text && isClosed '[' ']' text && isClosed '(' ')' text
    && !(Text.runs Text.isWord text).contains "lambda".toList

/-- Points at the first colon if it ends a head and more follows it, or else at the first
    semicolon. -/
def check (ctx : StatementContext) : Option Finding :=
  let semicolon := (Text.find? [';'] ctx.text).map fun n =>
    Finding.atOffset n .e702 "multiple statements on one line (semicolon)"
  match Text.cut? [':'] ctx.text with
  | some (before, after) =>
    if !after.isEmpty && isHead before then
      some (.atOffset (Text.byteLength before) .e701 "multiple statements on one line (colon)")
    else semicolon
  | none => semicolon

end CompoundStatement

end StyleGuide
