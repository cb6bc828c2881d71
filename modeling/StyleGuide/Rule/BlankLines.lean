import StyleGuide.Lexeme.Literal
import StyleGuide.Rule.Context

/-! # Blank lines between definitions -/

namespace StyleGuide.BlankLines

/-- Whether the statement starts a function, a class or a decorated definition. -/
def startsDefinition (text : Text) : Bool :=
  "def ".toList.isPrefixOf text || "class ".toList.isPrefixOf text || ['@'].isPrefixOf text

/-- Whether the statement is a decorator. -/
def isDecorator (text : Text) : Bool := ['@'].isPrefixOf text

/-- Whether the statement starts with a string literal, as the documentation of a definition
    does. -/
def startsWithLiteral : Text → Bool
  | 'u' :: 'r' :: c :: _ => Lexeme.isQuote c
  | 'u' :: c :: _ => Lexeme.isQuote c
  | 'r' :: c :: _ => Lexeme.isQuote c
  | c :: _ => Lexeme.isQuote c
  | [] => false

/-- The number of blank lines that counts: the larger of the runs directly in front of the
    statement and in front of the comments before it. -/
def count (ctx : StatementContext) : Nat := max ctx.blankLines ctx.blankLinesBeforeComment

/-- Whether a method needs no blank line in front of it: it has one, it is the first of its block,
    or it follows a string literal. -/
def isOptional (ctx : StatementContext) : Bool :=
  0 < count ctx || ctx.previousIndentLevel < ctx.indentLevel || startsWithLiteral ctx.previous

/-- The first statement of a file needs no blank lines, a statement behind a decorator has none, a
    definition at the margin has two, a method has one, and nothing has more. -/
def check (ctx : StatementContext) : Option Finding :=
  let blank := count ctx
  if ctx.row = 1 then none
  else if isDecorator ctx.previous then
    if 0 < blank then some (.atOffset 0 .e304 "blank lines found after function decorator")
    else none
  else if 2 < blank ∨ (0 < ctx.indentLevel ∧ blank = 2) then
    some (.atOffset 0 .e303 s!"too many blank lines ({blank})")
  else if ¬startsDefinition ctx.text then none
  else if 0 < ctx.indentLevel then
    if isOptional ctx then none else some (.atOffset 0 .e301 "expected 1 blank line, found 0")
  else if blank = 2 then none
  else some (.atOffset 0 .e302 s!"expected 2 blank lines, found {blank}")

/-- The number of blank lines the statement should have, where that is not what it has. -/
def target? (ctx : StatementContext) : Option Nat :=
  let blank := count ctx
  let most := if 0 < ctx.indentLevel then 1 else 2
  if ctx.row = 1 then none
  else if isDecorator ctx.previous then if 0 < blank then some 0 else none
  else if most < blank then some most
  else if ¬startsDefinition ctx.text then none
  else if 0 < ctx.indentLevel then if isOptional ctx then none else some 1
  else if blank = 2 then none
  else some 2

def fix (ctx : StatementContext) : Option Fix :=
  (target? ctx).map fun n => ⟨"blank lines before statement adjusted.", .blankLines n⟩

end StyleGuide.BlankLines
