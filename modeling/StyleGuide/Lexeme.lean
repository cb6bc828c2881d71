import StyleGuide.Lexeme.Literal
import StyleGuide.Lexeme.Number
import StyleGuide.Lexeme.Operator
import StyleGuide.Text.Word

/-! # Lexemes

A row is split into lexemes and the gaps of spaces, tabs and form feeds in front of them.
-/

namespace StyleGuide

/-- What the rest of a row starts with. -/
inductive Lexeme where
  /-- A backslash that joins the next row to this one. -/
  | joint
  | comment
  | number
  | operator
  /-- The terminator of the row. -/
  | terminator
  /-- A string literal that ends on this row. -/
  | literal
  /-- A string literal that takes the rest of the row and goes on with the next one. -/
  | openLiteral (delimiter : Delimiter)
  | word
  /-- A character that starts nothing else. -/
  | stray
  deriving Repr, DecidableEq

namespace Lexeme

/-- A character of the gap in front of a lexeme. -/
def isGap (c : Char) : Bool := c == ' ' || c == '\t' || c == '\x0c'

/-- The length of a row terminator at the start of the text. -/
def terminator? : Text → Option Nat
  | '\n' :: _ => some 1
  | '\r' :: '\n' :: _ => some 2
  | _ => none

/-- The lexeme at the start of a text that starts with no gap, and the number of its characters.
    A literal is preferred to a word, so its letters are not taken for a name. -/
def next : Text → Lexeme × Nat
  | [] => (.stray, 0)
  | c :: rest =>
    if c == '#' then (.comment, ((c :: rest).takeWhile fun d => d != '\r' && d != '\n').length)
    else if let some n := terminator? (c :: rest) then (.terminator, n)
    else if let some n := if c == '\\' then terminator? rest else none then (.joint, n + 1)
    else if let some n := number? (c :: rest) then (.number, n)
    else if let some n := operator? (c :: rest) then (.operator, n)
    else
      match literal? (c :: rest) with
      | some (.closed n) => (.literal, n)
      | some (.runsOn q) => (.openLiteral q, rest.length + 1)
      | none =>
        if Text.isWord c then (.word, ((c :: rest).takeWhile Text.isWord).length)
        else (.stray, 1)

/-- Whether nothing of the row is read behind the lexeme. -/
def endsRow : Lexeme → Bool
  | .joint | .terminator | .openLiteral _ => true
  | .comment | .number | .operator | .literal | .word | .stray => false

end Lexeme

/-- A lexeme as it is written on a row, with the gap in front of it. -/
structure RowItem where
  gap : Text
  lexeme : Lexeme
  text : Text
  deriving Repr, DecidableEq

namespace RowItem

/-- The lexemes of the rest of a row. -/
def list (rest : Text) : List RowItem :=
  match hs : rest.dropWhile Lexeme.isGap with
  | [] => []
  | c :: more =>
    let (lexeme, length) := Lexeme.next (c :: more)
    have : more.length < rest.length := by
      have h : (rest.dropWhile Lexeme.isGap).length ≤ rest.length :=
        (List.dropWhile_suffix _).length_le
      rw [hs] at h
      exact h
    ⟨rest.takeWhile Lexeme.isGap, lexeme, (c :: more).take length⟩
      :: if lexeme.endsRow then [] else list (more.drop (length - 1))
termination_by rest.length
decreasing_by all_goals simp only [List.length_drop]; omega

end RowItem

end StyleGuide
