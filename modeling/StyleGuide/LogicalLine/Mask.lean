import StyleGuide.Lexeme.Literal

/-! # Masks of string literals

A mask has the length of its literal and the same letters and delimiters, and hides the body
behind a filler, so that nothing inside a literal looks like a part of the statement.
-/

namespace StyleGuide

/-- The character that stands for each byte of a hidden body. -/
def maskFiller : Char := 'x'

/-- The mask of a literal. A text that does not end in a quote mark, or that has nothing between
    its delimiters, is its own mask. -/
def mask (literal : Text) : Text :=
  match literal.getLast? with
  | none => literal
  | some mark =>
    if Lexeme.isQuote mark then
      let width := if [mark, mark, mark].isSuffixOf literal then 3 else 1
      let start := Text.byteLength (literal.takeWhile (· != mark)) + width
      let stop := Text.byteLength literal - width
      if stop ≤ start then literal
      else Text.takeBytes start literal ++ List.replicate (stop - start) maskFiller
        ++ Text.dropBytes stop literal
    else literal

end StyleGuide
