import StyleGuide.Rule.Context
import StyleGuide.Rule.Keyword

/-! # Spaces at brackets -/

namespace StyleGuide

/-- An opening bracket. -/
def isOpening (c : Char) : Bool := c == '(' || c == '[' || c == '\x7b'

/-- A closing bracket. -/
def isClosing (c : Char) : Bool := c == ')' || c == ']' || c == '\x7d'

/-- A comma, semicolon or colon. -/
def isSeparator (c : Char) : Bool := c == ',' || c == ';' || c == ':'

namespace InnerSpace

/-- A space behind an opening bracket. -/
def isAfterOpening (c d : Char) : Bool := isOpening c && d == ' '

/-- A space in front of a closing bracket or a separator. -/
def isBeforeMark (c d : Char) : Bool := c == ' ' && (isClosing d || isSeparator d)

/-- The first surplus space in the rest of a text, which starts at byte `offset` behind the
    character `before`. A space behind a comma may stay. -/
def first? (offset : Nat) (before : Option Char) : Text → Option Finding
  | c :: d :: rest =>
    if isAfterOpening c d then some (.atOffset (offset + 1) .e201 s!"whitespace after '{c}'")
    else if isBeforeMark c d then
      if before = some ',' then first? (offset + 2) (some d) rest
      else
        let code := if isClosing d then .e202 else .e203
        some (.atOffset offset code s!"whitespace before '{d}'")
    else first? (offset + c.utf8Size) (some c) (d :: rest)
  | _ => none

/-- The rest of a text behind the character `before`, without its surplus spaces. -/
def remove (before : Option Char) : Text → Text
  | c :: d :: rest =>
    if isAfterOpening c d then c :: remove (some d) rest
    else if isBeforeMark c d then
      if before = some ',' then c :: d :: remove (some d) rest
      else d :: remove (some d) rest
    else c :: remove (some c) (d :: rest)
  | rest => rest

/-- No space stands on the inner side of a bracket or in front of a separator. -/
def check (ctx : StatementContext) : Option Finding := first? 0 none ctx.text

def fix (ctx : StatementContext) : Fix :=
  ⟨"whitespace removed inside brackets and before punctuation.", .line (remove none ctx.text)⟩

end InnerSpace

namespace ArgumentSpace

/-- Whether `t` opens an argument list or an index of `before` and is set apart from it. Base
    classes and the operand of a keyword may be set apart. -/
def isApart (before? : Option Token) (before t : Token) : Bool :=
  (t.isOperator "(" || t.isOperator "[") && t.start != before.stop
    && (before.kind == .name || before.text == [')'] || before.text == [']']
      || before.text == ['\x7d'])
    && (before?.map Token.text) != some "class".toList && !isKeyword before.text

/-- The first of the tokens behind `before?` and `before` that is set apart. -/
def first? (before? : Option Token) (before : Token) : List Token → Option Finding
  | [] => none
  | t :: rest =>
    if isApart before? before t then
      some (.atPosition before.stop .e211 s!"whitespace before '{String.ofList t.text}'")
    else first? (some before) t rest

/-- No space stands in front of an argument list or an index. -/
def check (ctx : StatementContext) : Option Finding :=
  match ctx.tokens.filter isSpaced with
  | [] => none
  | t :: rest => first? none t rest

end ArgumentSpace

end StyleGuide
