import StyleGuide.Text.Phrase

/-! # Glob patterns

A pattern for names: a question mark stands for any character, a star for any characters, and a set
in square brackets for one of the set or, behind an exclamation mark, for one outside of it. Two
stars between slashes stand for any directories on the way.
-/

namespace StyleGuide

/-- A part of a pattern. -/
inductive Glob.Part where
  | letter (c : Char)
  | any
  /-- A character in one of some ranges, both ends included. -/
  | oneOf (ranges : List (Char × Char))
  /-- A character in none of some ranges. -/
  | noneOf (ranges : List (Char × Char))
  | sequence
  /-- Any directories on the way, or everything. -/
  | directories
  deriving Repr, DecidableEq

/-- A pattern for names. -/
abbrev Glob := List Glob.Part

namespace Glob

open Phrase

/-- The ranges that a set lists: a hyphen between two characters makes a range of them. -/
def ranges : Text → List (Char × Char)
  | a :: '-' :: b :: rest => (a, b) :: ranges rest
  | a :: rest => (a, a) :: ranges rest
  | [] => []

/-- The characters of a set up to its closing bracket, which does not close it in first place. -/
def set : Phrase (List (Char × Char)) := do
  let first ← one fun _ => true
  let more ← run (· ≠ ']')
  char ']'
  return ranges (first :: more)

/-- Two stars as a whole piece of a path, together with the slash behind them. -/
def directoriesPart : Phrase Part := do
  word ['*', '*']
  char '/' <|> atEnd
  return .directories

/-- One star. -/
def sequencePart : Phrase Part := do
  char '*'
  guard ((← get).head? ≠ some '*')
  return .sequence

/-- A set in square brackets. -/
def setPart : Phrase Part := do
  char '['
  if (← get).head? = some '!' then
    char '!'
    return .noneOf (← set)
  else return .oneOf (← set)

/-- A slash and what may follow only there, or any other part. -/
def parts : Phrase (List Part) :=
  (do
    char '/'
    return .letter '/' :: (← many directoriesPart))
  <|> (do char '?'; return [.any])
  <|> (do return [← sequencePart])
  <|> (do return [← setPart])
  <|> (do return [.letter (← one fun c => c ≠ '*' && c ≠ '[')])

/-- The pattern that a text writes. -/
def parse? (pattern : Text) : Option Glob :=
  whole? (do return (← many directoriesPart) ++ (← many parts).flatten) pattern

/-- Whether a character lies in one of some ranges. -/
def inRanges (ranges : List (Char × Char)) (c : Char) : Bool :=
  ranges.any fun range => range.1 ≤ c && c ≤ range.2

/-- What is left of a text behind some of its characters. -/
def tails : Text → List Text
  | [] => [[]]
  | c :: rest => (c :: rest) :: tails rest

/-- What is left of a text behind each of its slashes, and the empty text. -/
def behindSlashes : Text → List Text
  | [] => [[]]
  | c :: rest => if c = '/' then rest :: behindSlashes rest else behindSlashes rest

/-- Whether a name fits a pattern. -/
def fits : Glob → Text → Bool
  | [], name => name.isEmpty
  | .sequence :: rest, name => (tails name).any (fits rest)
  | .directories :: rest, name => (name :: behindSlashes name).any (fits rest)
  | .letter c :: rest, d :: name => c == d && fits rest name
  | .any :: rest, _ :: name => fits rest name
  | .oneOf set :: rest, c :: name => inRanges set c && fits rest name
  | .noneOf set :: rest, c :: name => !inRanges set c && fits rest name
  | _ :: _, [] => false

end Glob

end StyleGuide
