import StyleGuide.LogicalLine.Mask
import StyleGuide.Rows
import StyleGuide.Token

/-! # Logical lines

A logical line is one statement on a single line: string literals are masked, rows that belong
together are joined by at most one space, and each token keeps the place it came from.
-/

namespace StyleGuide

/-- A token's share of a logical line: the gap in front of it and the form in which it is shown. -/
structure Piece where
  gap : Text
  shown : Text
  start : Position
  deriving Repr, DecidableEq

/-- A token's offset in the text of a logical line and its place in the source. -/
structure Mark where
  offset : Nat
  position : Position
  deriving Repr, DecidableEq

/-- One statement on a single line. -/
structure LogicalLine where
  text : Text
  /-- Where each token starts, in order. -/
  marks : List Mark
  /-- The string literals as they are in the source, in order. -/
  literals : List Text
  /-- The comment behind the statement with the gap in front of it. -/
  comment : Option Text
  firstRow : Nat
  lastRow : Nat
  deriving Repr, DecidableEq

/-- The form in which a token is shown in a logical line. -/
def Token.shown (t : Token) : Text :=
  if t.kind = .string then mask t.text else t.text

namespace LogicalLine

/-- The gap between two neighbouring tokens. On one row it is what the source has there. A row
    break becomes a space behind a comma, and elsewhere unless it is on the inner side of a
    bracket. -/
def gap (rows : Rows) (before after : Token) : Text :=
  if before.stop.row = after.start.row then
    Text.slice before.stop.column after.start.column (rows.row before.stop.row)
  else
    let last := before.text.getLast?
    let afterOpening := last = some '(' ∨ last = some '[' ∨ last = some '\x7b'
    let beforeClosing :=
      after.shown = [')'] ∨ after.shown = [']'] ∨ after.shown = ['\x7d']
    if last = some ',' ∨ (¬afterOpening ∧ ¬beforeClosing) then [' '] else []

/-- The pieces of a statement, from its content tokens. -/
def pieces (rows : Rows) : List Token → List Piece
  | [] => []
  | first :: rest => ⟨[], first.shown, first.start⟩ :: go first rest
where
  /-- The pieces behind the token `before`. -/
  go (before : Token) : List Token → List Piece
    | [] => []
    | t :: rest => ⟨gap rows before t, t.shown, t.start⟩ :: go t rest

/-- The text of the pieces. -/
def join (pieces : List Piece) : Text := pieces.flatMap fun p => p.gap ++ p.shown

/-- The marks of the pieces, the first of which has its gap at `offset`. -/
def marksFrom (offset : Nat) : List Piece → List Mark
  | [] => []
  | p :: rest =>
    let start := offset + Text.byteLength p.gap
    ⟨start, p.start⟩ :: marksFrom (start + Text.byteLength p.shown) rest

/-- The last comment that shares its row with the end of the content token before it, with the
    gap between the two. -/
def commentBehind (rows : Rows) (before : Option Token) : List Token → Option Text
  | [] => none
  | t :: rest =>
    if t.isContent then commentBehind rows (some t) rest
    else
      let later := commentBehind rows before rest
      match before with
      | none => later
      | some b =>
        if t.kind = .comment ∧ b.stop.row = t.start.row then
          later <|> some (Text.slice b.stop.column t.stop.column (rows.row t.start.row))
        else later

/-- The logical line of a run of tokens; `none` if the run has no content. -/
def ofTokens? (rows : Rows) (tokens : List Token) : Option LogicalLine :=
  match tokens.filter Token.isContent with
  | [] => none
  | first :: rest =>
    let content := first :: rest
    let pieces := pieces rows content
    some {
      text := Text.trimEnd (join pieces)
      marks := marksFrom 0 pieces
      literals := (content.filter fun t => t.kind = .string).map Token.text
      comment := commentBehind rows none tokens
      firstRow := first.start.row
      lastRow := (content.map fun t => t.stop.row).foldl max 0 }

/-- The place of the first token. -/
def start (l : LogicalLine) : Position :=
  match l.marks with
  | [] => ⟨0, 0⟩
  | m :: _ => m.position

/-- Whether the statement lies on one row of the source. -/
def isSingleRow (l : LogicalLine) : Bool := l.firstRow == l.lastRow

/-- The place in the source of an offset in the text: counted from the last token that starts at
    or before the offset, but not beyond the end of that token's row. -/
def resolve (l : LogicalLine) (rows : Rows) (offset : Nat) : Position :=
  match (l.marks.takeWhile (·.offset ≤ offset)).getLast? <|> l.marks.head? with
  | none => ⟨l.firstRow, 0⟩
  | some m =>
    let column := m.position.column + (offset - m.offset)
    ⟨m.position.row, min column (Text.byteLength (rows.shown m.position.row))⟩

end LogicalLine

/-- The width of the white space at the start of a row; a tab goes to the next multiple of the
    tab size. -/
def indentLevel (tabSize : Nat) (row : Text) : Nat :=
  (row.takeWhile fun c => c == ' ' || c == '\t').foldl (Text.columnBehind (max tabSize 1)) 0

end StyleGuide
