import StyleGuide.Text

/-! # Operator lexemes -/

namespace StyleGuide.Lexeme

/-- Operator characters that may have an equals sign behind them. -/
def augmentable : List Char :=
  ['+', '-', '*', '/', '%', '&', '@', '|', '^', '=', '<', '>']

/-- Operators of one character that are never part of a longer one by an equals sign. -/
def single : List Char :=
  "~()[]\x7b\x7d:;.,`".toList

/-- One where the text goes on with an equals sign. -/
def equalsSign : Text → Nat
  | '=' :: _ => 1
  | _ => 0

/-- The length of the operator at the start of the text; the longest one is meant. -/
def operator? : Text → Option Nat
  | '*' :: '*' :: rest => some (2 + equalsSign rest)
  | '>' :: '>' :: rest => some (2 + equalsSign rest)
  | '<' :: '<' :: rest => some (2 + equalsSign rest)
  | '/' :: '/' :: rest => some (2 + equalsSign rest)
  | '<' :: '>' :: _ => some 2
  | '!' :: '=' :: _ => some 2
  | '-' :: '>' :: _ => some 2
  | '.' :: '.' :: '.' :: _ => some 3
  | ':' :: '=' :: _ => some 2
  | c :: rest =>
    if augmentable.contains c then some (1 + equalsSign rest)
    else if single.contains c then some 1
    else none
  | [] => none

end StyleGuide.Lexeme
