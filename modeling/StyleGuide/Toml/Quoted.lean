import StyleGuide.Lexeme.Number
import StyleGuide.Text.Phrase

/-! # Quoted text in settings documents

Between double quote marks a backslash starts an escape; between single ones every character stands
for itself. Three marks enclose a text of several rows.
-/

namespace StyleGuide.Toml

open Phrase

/-- A character that a document may hold anywhere between line breaks: a tab or no control
    character. -/
def isPlain (c : Char) : Bool := c == '\t' || (0x20 ≤ c.toNat && c.toNat != 0x7F)

/-- A blank within a row. -/
def isGap (c : Char) : Bool := c == ' ' || c == '\t'

/-- Blanks within a row. -/
def gap : Phrase Unit := discard (run isGap)

/-- The end of a row: a newline, perhaps with a carriage return in front. -/
def lineBreak : Phrase Unit := word ['\n'] <|> word ['\r', '\n']

/-- The value of a digit in a base up to sixteen. -/
def digitValue (c : Char) : Nat :=
  if c.isDigit then c.toNat - 48
  else if 'a' ≤ c then c.toNat - 87
  else c.toNat - 55

/-- The number that digits denote in a base. -/
def numeral (base : Nat) (digits : Text) : Nat :=
  digits.foldl (fun n c => n * base + digitValue c) 0

/-- The character whose number is written in a fixed count of hexadecimal digits. -/
def numberedChar (count : Nat) : Phrase Char := do
  let digits ← upTo (one Lexeme.isHexDigit) count
  let n := numeral 16 digits
  guard (digits.length = count ∧ n.isValidChar)
  return Char.ofNat n

/-- A backslash and what it escapes. -/
def escape : Phrase Char := do
  char '\\'
  match ← one fun _ => true with
  | 'b' => return '\x08'
  | 't' => return '\t'
  | 'n' => return '\n'
  | 'f' => return '\x0c'
  | 'r' => return '\r'
  | '"' => return '"'
  | '\\' => return '\\'
  | 'u' => numberedChar 4
  | 'U' => numberedChar 8
  | _ => failure

/-- Text on one row between double quote marks. -/
def basicText : Phrase Text := do
  char '"'
  let body ← many (one (fun c => isPlain c && c != '"' && c != '\\') <|> escape)
  char '"'
  return body

/-- Text on one row between single quote marks. -/
def literalText : Phrase Text := do
  char '\''
  let body ← run fun c => isPlain c && c != '\''
  char '\''
  return body

/-- A backslash at the end of a row, which joins the row with the next text. -/
def joint : Phrase Unit := do
  char '\\'
  gap
  lineBreak
  discard (many (lineBreak <|> discard (someRun isGap)))

/-- One or two quote marks, which do not end a text of several rows. -/
def innerMarks (mark : Char) : Phrase Text := do
  let marks ← someRun (· == mark)
  guard (marks.length ≤ 2)
  return marks

/-- Text of several rows with these pieces between three quote marks on each side. A line break
    right behind the opening marks does not count, and up to two marks right in front of the
    closing ones belong to the text. -/
def tripleText (mark : Char) (piece : Phrase Text) : Phrase Text := do
  word [mark, mark, mark]
  discard (optional lineBreak)
  let body ← many (piece <|> (pure ['\n'] <* lineBreak) <|> innerMarks mark)
  let marks ← run (· == mark)
  guard (3 ≤ marks.length ∧ marks.length ≤ 5)
  return body.flatten ++ marks.drop 3

/-- Text of several rows between double quote marks. -/
def basicTripleText : Phrase Text :=
  tripleText '"' (someRun (fun c => isPlain c && c != '"' && c != '\\')
    <|> (pure [] <* joint) <|> (do return [← escape]))

/-- Text of several rows between single quote marks. -/
def literalTripleText : Phrase Text :=
  tripleText '\'' (someRun fun c => isPlain c && c != '\'')

/-- Text between quote marks of any kind. -/
def quotedText : Phrase Text :=
  basicTripleText <|> basicText <|> literalTripleText <|> literalText

end StyleGuide.Toml
