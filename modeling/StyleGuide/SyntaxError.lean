import StyleGuide.Position

/-! # Syntax errors -/

namespace StyleGuide

/-- Why a source has no token stream. -/
inductive SyntaxError.Cause where
  /-- A literal between single quote marks has no end on its row. -/
  | unterminatedString
  | unterminatedTripleQuotedString
  /-- The source ends inside brackets or behind a joining backslash. -/
  | unfinishedStatement
  | unmatchedClosingBracket
  /-- A row is indented less than the block before it and like no block around that. -/
  | inconsistentDedent
  deriving Repr, DecidableEq, BEq

/-- Why and where a source has no token stream. -/
structure SyntaxError where
  cause : SyntaxError.Cause
  position : Position
  deriving Repr, DecidableEq, BEq

namespace SyntaxError

/-- The cause in words. -/
def Cause.message : Cause → String
  | .unterminatedString => "EOL while scanning string literal"
  | .unterminatedTripleQuotedString => "EOF in multi-line string"
  | .unfinishedStatement => "EOF in multi-line statement"
  | .unmatchedClosingBracket => "unmatched closing bracket"
  | .inconsistentDedent => "unindent does not match any outer indentation level"

/-- The cause with its place. -/
def message (e : SyntaxError) : String :=
  s!"{e.cause.message} at {e.position.shown}"

end SyntaxError

end StyleGuide
