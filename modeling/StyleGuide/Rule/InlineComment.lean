import StyleGuide.Rule.Context

/-! # Comments behind a statement -/

namespace StyleGuide.InlineComment

/-- Whether a comment stands alone on its row. -/
def isAlone (comment : Token) : Bool :=
  Text.isAllBlank (Text.takeBytes comment.start.column comment.line)

/-- Whether a comment starts with a number sign, or the mark of a documented value, and a single
    space; nothing else may come before the first space. -/
def isWellStarted (comment : Text) : Bool :=
  let symbol := comment.takeWhile (· != ' ')
  let rest := comment.drop (symbol.length + 1)
  (symbol == ['#'] || symbol == ['#', ':']) && !(rest.head?.any Text.isBlank)

/-- The first inline comment that is badly set, behind a token that ends at `before`. -/
def first? (before : Position) : List Token → Option Finding
  | [] => none
  | t :: rest =>
    if t.kind.isLayout then first? before rest
    else if t.kind != .comment then first? t.stop rest
    else if isAlone t then first? before rest
    else if before.row = t.start.row ∧ t.start.column < before.column + 2 then
      some (.atPosition before .e261 "at least two spaces before inline comment")
    else if isWellStarted t.text then first? before rest
    else some (.atPosition t.start .e262 "inline comment should start with '# '")

/-- An inline comment is set apart by two spaces and starts with one. -/
def check (ctx : StatementContext) : Option Finding := first? ⟨0, 0⟩ ctx.tokens

end StyleGuide.InlineComment
