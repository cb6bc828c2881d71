import StyleGuide.Lexeme
import StyleGuide.SyntaxError
import StyleGuide.Token

/-! # Token streams

`tokenize` reads a source row by row. Between rows it remembers the open blocks, the bracket depth
and whether the last row ended inside a string literal or with a joining backslash.
-/

namespace StyleGuide

/-- A string literal that is still open at the end of a row. -/
structure OpenLiteral where
  delimiter : Delimiter
  start : Position
  /-- What has been read of it, with its opening. -/
  text : Text
  /-- The row it starts on. -/
  line : Text
  deriving Repr, DecidableEq

/-- How a row ends. -/
inductive RowEnd where
  | plain
  /-- A backslash joins the next row. -/
  | joined
  /-- A string literal goes on with the next row. -/
  | inLiteral (literal : OpenLiteral)
  deriving Repr, DecidableEq

/-- What a row holds: its tokens, the bracket depth behind it and how it ends. -/
structure RowTokens where
  tokens : List Token
  depth : Nat
  rowEnd : RowEnd
  deriving Repr, DecidableEq

namespace RowTokens

/-- The row with a token in front. -/
def after (t : Token) (r : RowTokens) : RowTokens := { r with tokens := t :: r.tokens }

end RowTokens

/-- The bracket depth behind an operator; `none` where a bracket closes that was never opened. -/
def depthAfter? (operator : Text) (depth : Nat) : Option Nat :=
  if operator = ['('] ∨ operator = ['['] ∨ operator = ['\x7b'] then some (depth + 1)
  else if operator = [')'] ∨ operator = [']'] ∨ operator = ['\x7d'] then
    if depth = 0 then none else some (depth - 1)
  else some depth

namespace RowItem

/-- The kind of the token that the lexeme stands for, where it stands for one. A word that begins
    with a mark or a connector is no name. -/
def kind (item : RowItem) : Token.Kind :=
  match item.lexeme with
  | .literal | .openLiteral _ => .string
  | .comment => .comment
  | .number => .number
  | .operator => .operator
  | .word =>
    if item.text.head?.any fun c => c == '_' || Text.isLetterOrDigit c then .name else .operator
  | .terminator => .newline
  | .joint | .stray => .stray

/-- The bracket depth behind the lexeme. A quote mark that starts no literal is an error. -/
def depthAfter (item : RowItem) (depth : Nat) : Except SyntaxError.Cause Nat :=
  match item.lexeme with
  | .operator =>
    match depthAfter? item.text depth with
    | some depth => .ok depth
    | none => .error .unmatchedClosingBracket
  | .stray => if item.text.head?.any Lexeme.isQuote then .error .unterminatedString else .ok depth
  | _ => .ok depth

/-- The lexeme as a token on the row `line`, with its gap at byte `column`. -/
def token (item : RowItem) (row : Nat) (line : Text) (column : Nat) : Token :=
  let start := column + Text.byteLength item.gap
  ⟨item.kind, item.text, ⟨row, start⟩, ⟨row, start + Text.byteLength item.text⟩, line⟩

/-- The tokens of the lexemes in the part of the row `line` from byte `column` on. A joining
    backslash and a terminator are the last of a row; a terminator ends a statement unless
    brackets are open. -/
def tokens (row : Nat) (line : Text) (depth column : Nat) :
    List RowItem → Except SyntaxError RowTokens
  | [] => .ok ⟨[], depth, .plain⟩
  | item :: more =>
    let t := item.token row line column
    match item.lexeme with
    | .joint => .ok ⟨[], depth, .joined⟩
    | .openLiteral q => .ok ⟨[], depth, .inLiteral ⟨q, t.start, t.text, line⟩⟩
    | .terminator =>
      .ok ⟨[{ t with kind := if depth = 0 then .newline else .rowBreak }], depth, .plain⟩
    | _ =>
      match item.depthAfter depth with
      | .error cause => .error ⟨cause, t.start⟩
      | .ok depth => (tokens row line depth t.stop.column more).map (.after t)

end RowItem

/-- The tokens in `rest`, the part of the row `line` from byte `column` on. -/
def scanRow (row : Nat) (line : Text) (depth column : Nat) (rest : Text) :
    Except SyntaxError RowTokens :=
  RowItem.tokens row line depth column (RowItem.list rest)

/-- The width of the gap at the start of a row: a tab goes to the next multiple of eight, a form
    feed back to zero. -/
def indentWidth (gap : Text) : Nat :=
  gap.foldl (fun width c => if c == '\x0c' then 0 else Text.columnBehind 8 width c) 0

/-- What is remembered between rows. -/
structure ScanState where
  /-- The tokens so far. -/
  tokens : Array Token
  /-- The number of the next row. -/
  row : Nat
  /-- The widths of the open blocks, the innermost first; the outermost block, of width zero, is
      not listed. -/
  indents : List Nat
  /-- The number of open brackets. -/
  depth : Nat
  /-- How the last row ended. -/
  rowEnd : RowEnd
  deriving Repr

namespace ScanState

/-- The state before the first row. -/
def initial : ScanState := ⟨#[], 1, [], 0, .plain⟩

/-- The width of the innermost open block. -/
def indent (s : ScanState) : Nat := s.indents.headD 0

/-- The state behind a row whose last part has been scanned. -/
def advance (s : ScanState) (first : List Token) (r : RowTokens) : ScanState :=
  { s with
    tokens := s.tokens ++ first ++ r.tokens
    row := s.row + 1
    depth := r.depth
    rowEnd := r.rowEnd }

/-- A row that starts a statement: it may open a block or close some. A block closes only at the
    width of a block around it. -/
def openStatement (s : ScanState) (line : Text) : Except SyntaxError ScanState :=
  let gap := line.takeWhile Lexeme.isGap
  let column := Text.byteLength gap
  let width := indentWidth gap
  let scan := scanRow s.row line s.depth column (line.dropWhile Lexeme.isGap)
  if s.indent < width then do
    let opened : Token := ⟨.indent, gap, ⟨s.row, 0⟩, ⟨s.row, column⟩, line⟩
    return { s with indents := width :: s.indents }.advance [opened] (← scan)
  else
    let closed := s.indents.takeWhile (width < ·)
    let kept := s.indents.dropWhile (width < ·)
    if kept.headD 0 = width then do
      let mark : Token := ⟨.dedent, [], ⟨s.row, column⟩, ⟨s.row, column⟩, line⟩
      return { s with indents := kept }.advance (closed.map fun _ => mark) (← scan)
    else .error ⟨.inconsistentDedent, ⟨s.row, column⟩⟩

/-- A row of white space or a comment between statements opens and closes no block. The result is
    `none` for a last row of white space that has no terminator: such a row holds no token. -/
def betweenStatements? (s : ScanState) (line : Text) : Option (Option RowTokens) :=
  let column := Text.byteLength (line.takeWhile Lexeme.isGap)
  let token (kind : Token.Kind) (start : Nat) (text : Text) : Token :=
    ⟨kind, text, ⟨s.row, start⟩, ⟨s.row, start + Text.byteLength text⟩, line⟩
  match line.dropWhile Lexeme.isGap with
  | [] => some none
  | '#' :: rest =>
    let comment := Text.withoutTerminator ('#' :: rest)
    let ending := ('#' :: rest).drop comment.length
    some (some ⟨[token .comment column comment,
      token .rowBreak (column + Text.byteLength comment) ending], s.depth, .plain⟩)
  | c :: rest =>
    if c == '\r' || c == '\n' then
      some (some ⟨[token .rowBreak column (c :: rest)], s.depth, .plain⟩)
    else none

/-- Read the next row. -/
def feed (s : ScanState) (line : Text) : Except SyntaxError ScanState :=
  match s.rowEnd with
  | .inLiteral literal =>
    match literal.delimiter.closing? line with
    | some n => do
      let text := line.take n
      let stop := Text.byteLength text
      let token : Token :=
        ⟨.string, literal.text ++ text, literal.start, ⟨s.row, stop⟩, literal.line⟩
      return s.advance [token] (← scanRow s.row line s.depth stop (line.drop n))
    | none =>
      if literal.delimiter.isTriple || Lexeme.endsInBackslash line then
        .ok (s.advance [] ⟨[], s.depth, .inLiteral { literal with text := literal.text ++ line }⟩)
      else .error ⟨.unterminatedString, literal.start⟩
  | .joined => do return s.advance [] (← scanRow s.row line s.depth 0 line)
  | .plain =>
    if s.depth = 0 then
      match s.betweenStatements? line with
      | some (some r) => .ok (s.advance [] r)
      | some none => .ok s
      | none => s.openStatement line
    else do return s.advance [] (← scanRow s.row line s.depth 0 line)

/-- A last row without terminator that holds more than a comment still ends a statement. -/
def lacksNewline (lastRow : Text) : Bool :=
  let content := Text.trim lastRow
  lastRow.getLast? != some '\n' && !content.isEmpty && content.head? != some '#'

/-- The layout tokens behind the last row: the statement and the open blocks end. -/
def endMarks (s : ScanState) (rows : List Text) : List Token :=
  let lastRow := rows.getLast?.getD []
  let width := Text.byteLength lastRow
  let newline : List Token :=
    if lacksNewline lastRow then
      [⟨.newline, [], ⟨rows.length, width⟩, ⟨rows.length, width + 1⟩, []⟩]
    else []
  let mark (kind : Token.Kind) : Token := ⟨kind, [], ⟨s.row, 0⟩, ⟨s.row, 0⟩, []⟩
  newline ++ s.indents.map (fun _ => mark .dedent) ++ [mark .endMarker]

/-- All tokens, where `rows` are the rows of the source; nothing may be open behind the last. -/
def finish (s : ScanState) (rows : List Text) : Except SyntaxError (List Token) :=
  match s.rowEnd with
  | .inLiteral literal =>
    let cause := if literal.delimiter.isTriple then .unterminatedTripleQuotedString
      else .unterminatedString
    .error ⟨cause, literal.start⟩
  | .joined => .error ⟨.unfinishedStatement, ⟨s.row, 0⟩⟩
  | .plain =>
    if s.depth = 0 then .ok (s.tokens.toList ++ s.endMarks rows)
    else .error ⟨.unfinishedStatement, ⟨s.row, 0⟩⟩

end ScanState

/-- The tokens of a source, or the first reason why it has none. -/
def tokenize (source : Text) : Except SyntaxError (List Token) := do
  let rows := Text.rows source
  let state ← rows.foldlM ScanState.feed ScanState.initial
  state.finish rows

end StyleGuide
