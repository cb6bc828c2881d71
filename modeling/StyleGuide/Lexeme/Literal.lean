import StyleGuide.Text

/-! # String literals

A literal is an optional prefix of one or two letters, a delimiter of one or three quote marks, a
body in which a backslash escapes the character behind it, and the delimiter again.
-/

namespace StyleGuide

/-- The delimiter of a string literal: a quote mark, written once or three times. -/
structure Delimiter where
  mark : Char
  isTriple : Bool
  deriving Repr, DecidableEq, BEq

namespace Delimiter

/-- The delimiter as it is written. -/
def text (q : Delimiter) : Text :=
  if q.isTriple then [q.mark, q.mark, q.mark] else [q.mark]

/-- The number of characters from here to the end of the closing delimiter. A backslash hides the
    character behind it; a delimiter of one mark is not looked for on the next row. -/
def closing? (q : Delimiter) : Text → Option Nat
  | '\\' :: _ :: rest => (q.closing? rest).map (· + 2)
  | c :: rest =>
    if q.text.isPrefixOf (c :: rest) then some q.text.length
    else if c == '\\' || (c == '\n' && !q.isTriple) then none
    else (q.closing? rest).map (· + 1)
  | [] => none

end Delimiter

namespace Lexeme

/-- A character that a string literal may start with in front of its delimiter. -/
def isLiteralLetter (c : Char) : Bool :=
  ['r', 'R', 'u', 'U', 'b', 'B', 'f', 'F'].contains c

/-- Two letters that a string literal may start with in front of its delimiter. -/
def isLiteralPair (c d : Char) : Bool :=
  let isRaw (c : Char) := c == 'r' || c == 'R'
  if isRaw c then ['b', 'B', 'f', 'F'].contains d
  else isLiteralLetter c && isRaw d

/-- A quote mark. -/
def isQuote (c : Char) : Bool := c == '\'' || c == '"'

/-- The delimiter at the start of a text. -/
def delimiter? : Text → Option Delimiter
  | c :: rest => if isQuote c then some ⟨c, [c, c].isPrefixOf rest⟩ else none
  | [] => none

/-- The opening of the literal at the start of a text: the number of letters in front of its
    delimiter, and the delimiter. -/
def opening? : Text → Option (Nat × Delimiter)
  | c :: rest =>
    match delimiter? (c :: rest) with
    | some q => some (0, q)
    | none =>
      match rest with
      | d :: rest' =>
        match delimiter? (d :: rest') with
        | some q => if isLiteralLetter c then some (1, q) else none
        | none => if isLiteralPair c d then (delimiter? rest').map (2, ·) else none
      | [] => none
  | [] => none

/-- Whether the row ends in an escaped newline, where every backslash before that escapes the
    character behind it and no quote mark of this kind stands unescaped. -/
def runsOn (mark : Char) : Text → Bool
  | ['\\', '\n'] => true
  | ['\\', '\r', '\n'] => true
  | '\\' :: _ :: rest => runsOn mark rest
  | c :: rest => c != mark && c != '\n' && c != '\\' && runsOn mark rest
  | [] => false

/-- Whether a row inside a literal ends in a backslash and a newline. -/
def endsInBackslash (row : Text) : Bool :=
  ['\\', '\n'].isSuffixOf row || ['\\', '\r', '\n'].isSuffixOf row

/-- What a string literal does on the row where it starts. -/
inductive LiteralStart where
  /-- It ends on the row, after this many characters. -/
  | closed (length : Nat)
  /-- It takes the rest of the row and goes on with the next one. -/
  | runsOn (delimiter : Delimiter)
  deriving Repr, DecidableEq

/-- The literal at the start of the rest of a row, if there is one that ends on the row or may go
    on behind it. -/
def literal? (s : Text) : Option LiteralStart := do
  let (letters, q) ← opening? s
  let opening := letters + q.text.length
  match q.closing? (s.drop opening) with
  | some n => some (.closed (opening + n))
  | none =>
    if q.isTriple || runsOn q.mark (s.drop opening) then some (.runsOn q) else none

end Lexeme

end StyleGuide
