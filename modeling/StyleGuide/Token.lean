import StyleGuide.Position
import StyleGuide.Text
import StyleGuide.Text.Quoted

/-! # Tokens

A token is a word, number, operator, string literal or comment of a source, or one of the layout
marks that say how its rows group into statements and blocks.
-/

namespace StyleGuide

/-- What a token stands for. -/
inductive Token.Kind where
  | name
  | number
  | operator
  | string
  | comment
  /-- The end of a row that does not end a statement: of a blank row, of a comment row, or of a
      row inside brackets. -/
  | rowBreak
  /-- The end of a statement. -/
  | newline
  | indent
  | dedent
  | endMarker
  /-- A character that belongs to no other kind. -/
  | stray
  deriving Repr, DecidableEq, BEq, ReflBEq, LawfulBEq

/-- A token and the part of the source it covers. -/
structure Token where
  kind : Token.Kind
  text : Text
  start : Position
  stop : Position
  /-- The row on which the token starts; empty for the marks at the end of a source. -/
  line : Text
  deriving Repr, DecidableEq, BEq

namespace Token

/-- The name of a kind in listings. -/
def Kind.label : Kind → String
  | .name => "NAME"
  | .number => "NUMBER"
  | .operator => "OP"
  | .string => "STRING"
  | .comment => "COMMENT"
  | .rowBreak => "NL"
  | .newline => "NEWLINE"
  | .indent => "INDENT"
  | .dedent => "DEDENT"
  | .endMarker => "ENDMARKER"
  | .stray => "ERRORTOKEN"

/-- Layout marks carry nothing of a statement. -/
def Kind.isLayout : Kind → Bool
  | .rowBreak | .newline | .indent | .dedent | .endMarker => true
  | .name | .number | .operator | .string | .comment | .stray => false

/-- A token that is part of a statement: neither layout nor a comment. -/
def isContent (t : Token) : Bool := !t.kind.isLayout && t.kind != .comment

/-- Whether the token is the operator with this text. -/
def isOperator (t : Token) (text : String) : Bool :=
  t.kind == .operator && t.text == text.toList

/-- Whether the token opens a bracket. -/
def opensBracket (t : Token) : Bool :=
  t.isOperator "(" || t.isOperator "[" || t.isOperator "\x7b"

/-- Whether the token closes a bracket. -/
def closesBracket (t : Token) : Bool :=
  t.isOperator ")" || t.isOperator "]" || t.isOperator "\x7d"

/-- One line of a token listing: row, columns, or the last row where there are several, kind and
    quoted text. -/
def listing (t : Token) : String :=
  let span :=
    if t.start.row = t.stop.row then s!"[{t.start.column}:{t.stop.column}]"
    else s!"l.{t.stop.row}"
  s!"l.{t.start.row}\t{span}\t{t.kind.label}\t{Text.quoted t.text}"

end Token

end StyleGuide
