import StyleGuide.Text

/-! # Phrases

A phrase reads a value off the start of a text and leaves the rest. Where one alternative does not
fit, the next one is tried on the same text.
-/

namespace StyleGuide

/-- The value at the start of a text and the text behind it, or nothing where the phrase does not
    fit. -/
abbrev Phrase (α : Type) := StateT Text Option α

namespace Phrase

/-- A character that satisfies `p`. -/
def one (p : Char → Bool) : Phrase Char
  | [] => none
  | c :: rest => if p c then some (c, rest) else none

/-- The longest run of characters that satisfy `p`. -/
def run (p : Char → Bool) : Phrase Text := fun s => some (s.span p)

/-- The longest run of characters that satisfy `p`, if it is not empty. -/
def someRun (p : Char → Bool) : Phrase Text := do
  let found ← run p
  guard (!found.isEmpty)
  return found

/-- A fixed character. -/
def char (c : Char) : Phrase Unit := do discard (one (· == c))

/-- A fixed text. -/
def word (w : Text) : Phrase Unit := fun s =>
  if w.isPrefixOf s then some ((), s.drop w.length) else none

/-- The end of the text. -/
def atEnd : Phrase Unit := fun s => if s.isEmpty then some ((), s) else none

/-- The phrase as often as it fits, but at most `count` times. -/
def upTo (phrase : Phrase α) : Nat → Phrase (List α)
  | 0 => pure []
  | count + 1 => (do return (← phrase) :: (← upTo phrase count)) <|> pure []

/-- The phrase as often as it fits. It must not be empty: then it fits no more often than the text
    has characters. -/
def many (phrase : Phrase α) : Phrase (List α) := do upTo phrase (← get).length

/-- One phrase or more, with separators between them. -/
def someSeparated (separator : Phrase Unit) (phrase : Phrase α) : Phrase (List α) := do
  return (← phrase) :: (← many (separator *> phrase))

/-- Any number of phrases with separators between them. -/
def separated (separator : Phrase Unit) (phrase : Phrase α) : Phrase (List α) :=
  someSeparated separator phrase <|> pure []

/-- The text that a phrase reads. -/
def written (phrase : Phrase α) : Phrase Text := do
  let before ← get
  discard phrase
  return before.take (before.length - (← get).length)

/-- The value of a phrase that covers a whole text. -/
def whole? (phrase : Phrase α) (s : Text) : Option α :=
  ((phrase <* atEnd) s).map Prod.fst

end Phrase

end StyleGuide
