import StyleGuide.Rule.Context
import StyleGuide.Text.Word

/-! # Constructs that newer versions of the language have removed -/

namespace StyleGuide

namespace HasKey

/-- Points at the first call of the method that tests for a key. -/
def check (ctx : StatementContext) : Option Finding :=
  (Text.find? ".has_key(".toList ctx.text).map fun n =>
    .atOffset n .w601 ".has_key() is deprecated, use 'in'"

end HasKey

namespace RaiseComma

/-- A statement that raises an exception with an argument behind a comma. -/
structure Raise where
  /-- What is before the exception. -/
  head : Text
  exception : Text
  argument : Text
  /-- What is behind the row of the argument. -/
  rest : Text
  deriving Repr, DecidableEq

/-- The parts of such a statement, if the text is one. The argument reaches to the end of its
    row. -/
def parse? (text : Text) : Option Raise :=
  let word := "raise".toList
  if word.isPrefixOf text then
    let gap := (text.drop word.length).takeWhile Text.isBlank
    let head := word ++ gap
    let exception := (text.drop head.length).takeWhile Text.isWord
    match ((text.drop head.length).drop exception.length).dropWhile Text.isBlank with
    | ',' :: behind =>
      if gap.isEmpty || exception.isEmpty then none
      else
        let argument := Text.trimStart behind
        some {
          head, exception
          argument := argument.takeWhile (· != '\n')
          rest := Text.trimStart (argument.dropWhile (· != '\n')) }
    | _ => none
  else none

/-- The statement with the exception called on its argument. -/
def Raise.call (r : Raise) : Text :=
  "raise ".toList ++ r.exception ++ ['('] ++ r.argument ++ [')'] ++ r.rest

/-- Points at the exception that an argument follows behind a comma. -/
def check (ctx : StatementContext) : Option Finding :=
  (parse? ctx.text).map fun r =>
    .atOffset (Text.byteLength r.head) .w602 "deprecated form of raising exception"

def fix (ctx : StatementContext) : Fix :=
  ⟨"exception raised with a call.", .line (((parse? ctx.text).map Raise.call).getD ctx.text)⟩

end RaiseComma

namespace NotEqual

/-- Points at the first obsolete inequality operator. -/
def check (ctx : StatementContext) : Option Finding :=
  (Text.find? "<>".toList ctx.text).map fun n => .atOffset n .w603 "'<>' is deprecated, use '!='"

def fix (ctx : StatementContext) : Fix :=
  ⟨"'<>' replaced with '!='.", .line (Text.replace "<>".toList "!=".toList ctx.text)⟩

end NotEqual

namespace Backticks

/-- The quote mark of an expression. -/
def backtick : Char := Char.ofNat 0x60

/-- The text with a call for each pair of backticks; `isOpen` says whether a pair has been opened
    before it. -/
def call (isOpen : Bool) : Text → Text
  | [] => []
  | c :: rest =>
    if c == backtick then
      if isOpen then ')' :: call false rest else "repr(".toList ++ call true rest
    else c :: call isOpen rest

/-- Points at the first backtick. -/
def check (ctx : StatementContext) : Option Finding :=
  (Text.find? [backtick] ctx.text).map fun n =>
    .atOffset n .w604 "backticks are deprecated, use 'repr()'"

/-- Only backticks in pairs are replaced. -/
def fix (ctx : StatementContext) : Option Fix :=
  if ctx.text.count backtick % 2 = 0 then
    some ⟨"backticks replaced with repr().", .line (call false ctx.text)⟩
  else none

end Backticks

end StyleGuide
