import StyleGuide.Toml.Moment
import StyleGuide.Toml.Node
import StyleGuide.Toml.Number

/-! # Keys and values in settings documents -/

namespace StyleGuide.Toml

open Phrase

/-- A character of a key without quote marks. -/
def isKeyChar (c : Char) : Bool := c.isAlphanum || c == '_' || c == '-'

/-- One part of a key. -/
def keyPart : Phrase Text := basicText <|> literalText <|> someRun isKeyChar

/-- The number of parts of a key, and of brackets around a value, must be less than this. -/
def nestingLimit : Nat := 80

/-- A key: parts with dots between them. -/
def key : Phrase (List Text) := do
  let parts ← someSeparated (char '.') (gap *> keyPart <* gap)
  guard (parts.length < nestingLimit)
  return parts

/-- A comment up to the end of its row. -/
def comment : Phrase Unit := do
  char '#'
  discard (run isPlain)

/-- Blanks, line breaks and comments between the items of an array. -/
def filler : Phrase Unit :=
  discard (many (lineBreak <|> (comment *> lineBreak) <|> discard (someRun isGap)))

/-- A value without brackets around it. -/
def scalar : Phrase Node :=
  (.text <$> quotedText)
  <|> (.moment <$> written moment)
  <|> (.float <$> written float)
  <|> (.integer <$> integer)
  <|> (pure (.boolean true) <* word ['t', 'r', 'u', 'e'])
  <|> (pure (.boolean false) <* word ['f', 'a', 'l', 's', 'e'])

/-- Values in square brackets, over any number of rows; a comma may follow the last one. -/
def array (value : Phrase Node) : Phrase Node := do
  char '['
  let items ← separated (char ',') (filler *> value <* filler)
  unless items.isEmpty do discard (optional (char ','))
  filler
  char ']'
  return .array items

/-- A key, an equals sign and a value. -/
def keyValue (value : Phrase Node) : Phrase (List Text × Node) := do
  let path ← key
  char '='
  gap
  return (path, ← value)

/-- Keys with values in braces, on one row. -/
def braced (value : Phrase Node) : Phrase Node := do
  char '\x7b'
  let pairs ← separated (char ',') (keyValue value <* gap)
  gap
  char '\x7d'
  let add (entries : Entries) (pair : List Text × Node) := entries.assign? pair.2 pair.1 true
  let entries ← StateT.lift (pairs.foldlM add [])
  return .table .braces entries

/-- A value with at most so many brackets around its parts. -/
def value : Nat → Phrase Node
  | 0 => scalar
  | depth + 1 => scalar <|> array (value depth) <|> braced (value depth)

end StyleGuide.Toml
