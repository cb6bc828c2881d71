import StyleGuide.Rule.BracketSpace
import StyleGuide.Text.Word
import StyleGuide.TokenStream

/-! # Spaces around operators -/

namespace StyleGuide

/-- Operators that always have two operands. -/
def binaryOperators : List String :=
  ["**=", "*=", "+=", "-=", "!=", "<>", "%=", "^=", "&=", "|=", "==", "/=", "//=", "<=", ">=",
    "<<=", ">>=", "%", "^", "&", "|", "=", "/", "//", "<", ">", "<<"]

/-- Operators whose number of operands depends on what is before them. -/
def unaryOperators : List String := [">>", "**", "*", "+", "-"]

/-- Whether the text is an operator with two operands in every place. -/
def isBinaryOperator (text : Text) : Bool := binaryOperators.any fun o => o.toList == text

/-- Whether the text is an operator that may have one operand. -/
def isUnaryOperator (text : Text) : Bool := unaryOperators.any fun o => o.toList == text

/-- Whether the text is an operator that spaces are kept around. -/
def isSpacedOperator (text : Text) : Bool := isBinaryOperator text || isUnaryOperator text

namespace WideOperatorSpace

/-- A character that is neither part of a word nor white space. -/
def isMark (c : Char) : Bool := !Text.isWord c && !Text.isBlank c

/-- Whether white space is wide: it holds a tab or two spaces in a row. -/
def isWide : Text → Bool
  | ' ' :: ' ' :: _ => true
  | c :: rest => c == '\t' || isWide rest
  | [] => false

/-- Of a wide gap, the part before the last tab or pair of spaces in it. -/
def beforeLastWide : Text → Text
  | [] => []
  | c :: rest => if isWide rest then c :: beforeLastWide rest else []

/-- A part of a statement. -/
inductive Part where
  | plain (text : Text)
  /-- A wide gap with the marks directly before and behind it. -/
  | wide (before gap after : Text)
  deriving Repr, DecidableEq

namespace Part

/-- The part as it is in the statement. -/
def text : Part → Text
  | .plain text => text
  | .wide before gap after => before ++ gap ++ after

/-- The part with one space for a gap beside an operator. -/
def collapse : Part → Text
  | .plain text => text
  | .wide before gap after =>
    if isSpacedOperator before || isSpacedOperator after then before ++ [' '] ++ after
    else before ++ gap ++ after

/-- The finding in a part that starts at byte `offset`: a wide gap beside an operator, where the
    operator before the gap comes first. -/
def finding? (offset : Nat) : Part → Option Finding
  | .plain _ => none
  | .wide before gap after =>
    let blank := beforeLastWide gap
    let place := offset + Text.byteLength before + Text.byteLength blank
    let isTab := (gap.drop blank.length).head? == some '\t'
    if isSpacedOperator before then
      if isTab then some (.atOffset place .e224 "tab after operator")
      else some (.atOffset place .e222 "multiple spaces after operator")
    else if isSpacedOperator after then
      if isTab then some (.atOffset place .e223 "tab before operator")
      else some (.atOffset place .e221 "multiple spaces before operator")
    else none

end Part

/-- The parts of a statement, split at its wide gaps from the left. -/
def parts (s : Text) : List Part :=
  match s with
  | [] => []
  | c :: rest =>
    let before := (c :: rest).takeWhile isMark
    let gap := ((c :: rest).drop before.length).takeWhile Text.isBlank
    let width := before.length + gap.length
    if isWide gap then
      let after := ((c :: rest).drop width).takeWhile isMark
      .wide before gap after :: parts (rest.drop (width + after.length - 1))
    else .plain ((c :: rest).take (max width 1)) :: parts (rest.drop (width - 1))
termination_by s.length
decreasing_by all_goals simp only [List.length_drop, List.length_cons]; omega

/-- The first finding in parts that start at byte `offset`. -/
def first? (offset : Nat) : List Part → Option Finding
  | [] => none
  | p :: rest => p.finding? offset <|> first? (offset + Text.byteLength p.text) rest

/-- No tab and no run of spaces stands beside an operator. -/
def check (ctx : StatementContext) : Option Finding := first? 0 (parts ctx.text)

def fix (ctx : StatementContext) : Fix :=
  ⟨"whitespace around operator collapsed.", .line ((parts ctx.text).flatMap Part.collapse)⟩

end WideOperatorSpace

namespace MissingOperatorSpace

/-- Whether an operator that may have one operand has two, which depends on the token before
    it. -/
def hasTwoOperands (before : Token) : Bool :=
  match before.kind with
  | .operator =>
    before.text == [')'] || before.text == [']'] || before.text == ['\x7d']
  | .name => !isKeyword before.text || isConstant before.text
  | _ => true

/-- Whether an operator behind the token `before` needs spaces around it. The equals sign of a
    keyword argument, inside parentheses, needs none. -/
def isSpacedBehind (depth : Nat) (before t : Token) : Bool :=
  if t.kind != .operator || (t.isOperator "=" && 0 < depth) then false
  else if isBinaryOperator t.text then true
  else isUnaryOperator t.text && hasTwoOperands before

/-- The depth of parentheses behind a token; a lambda counts as one that stays open. -/
def depthBehind (depth : Nat) (t : Token) : Nat :=
  if t.text = ['('] ∨ t.text = "lambda".toList then depth + 1
  else if t.text = [')'] then depth - 1
  else depth

/-- The places behind the token `before` where a space is missing at an operator; `isNeeded` says
    that `before` is an operator that needs one behind it. -/
def gapsBehind (depth : Nat) (isNeeded : Bool) (before : Token) : List Token → List Position
  | [] => []
  | t :: rest =>
    let depth := depthBehind depth t
    let isGlued := t.start == before.stop
    if isNeeded then
      if isGlued && !(t.text == ['>'] && before.text == ['<']) then
        before.stop :: gapsBehind depth false t rest
      else gapsBehind depth isGlued t rest
    else
      let needs := isSpacedBehind depth before t
      if needs && isGlued then t.start :: gapsBehind depth needs t rest
      else gapsBehind depth needs t rest

/-- The places where a space is missing beside an operator, in order. -/
def gaps (tokens : List Token) : List Position :=
  match tokens.filter isSpaced with
  | [] => []
  | t :: rest => gapsBehind (depthBehind 0 t) false t rest

/-- The text with a space at each of the byte columns, counted from `column` on. -/
def insertSpaces (columns : List Nat) (column : Nat) : Text → Text
  | [] => if columns.contains column then [' '] else []
  | c :: rest =>
    let more := c :: insertSpaces columns (column + c.utf8Size) rest
    if columns.contains column then ' ' :: more else more

/-- A space stands on both sides of an operator with two operands. -/
def check (ctx : StatementContext) : Option Finding :=
  (gaps ctx.tokens).head?.map fun p =>
    .atPosition p .e225 "missing whitespace around operator"

/-- The text is read again, since an earlier fix may have changed it; a text that cannot be read
    stays as it is. -/
def fix (ctx : StatementContext) : Option Fix :=
  match tokenize (ctx.text ++ ['\n']) with
  | .error _ => none
  | .ok tokens =>
    let columns := ((gaps tokens).filter (·.row = 1)).map Position.column
    some ⟨"whitespace added around operator.", .line (insertSpaces columns 0 ctx.text)⟩

end MissingOperatorSpace

end StyleGuide
