import StyleGuide.Text

/-! # Number lexemes

The numbers a statement can hold: integers in four bases, floats and imaginary numbers, with
underscores between digits. Each function gives the number of characters at the start of a text
that it reads.
-/

namespace StyleGuide.Lexeme

/-- A digit of the hexadecimal system. -/
def isHexDigit (c : Char) : Bool :=
  c.isDigit || ('a' ≤ c && c ≤ 'f') || ('A' ≤ c && c ≤ 'F')

/-- A digit of the octal system. -/
def isOctalDigit (c : Char) : Bool := '0' ≤ c && c ≤ '7'

/-- A digit of the binary system. -/
def isBinaryDigit (c : Char) : Bool := c == '0' || c == '1'

/-- The length of a run of digits in which each may have one underscore in front. -/
def moreDigits (isDigit : Char → Bool) : Text → Nat
  | '_' :: c :: rest => if isDigit c then moreDigits isDigit rest + 2 else 0
  | c :: rest => if isDigit c then moreDigits isDigit rest + 1 else 0
  | [] => 0

/-- One or more digits, each after the first perhaps with an underscore in front. -/
def digits? : Text → Option Nat
  | c :: rest => if c.isDigit then some (moreDigits Char.isDigit rest + 1) else none
  | [] => none

/-- The length of an optional single letter out of `letters`. -/
def optionalLetter (letters : List Char) : Text → Nat
  | c :: _ => if letters.contains c then 1 else 0
  | [] => 0

/-- An exponent: its letter, perhaps a sign, and digits. -/
def exponent? (s : Text) : Option Nat :=
  match s with
  | c :: rest =>
    if c == 'e' || c == 'E' then
      let sign := optionalLetter ['-', '+'] rest
      (digits? (rest.drop sign)).map fun n => n + sign + 1
    else none
  | [] => none

/-- Digits with a point after or before them and perhaps an exponent. -/
def pointFloat? (s : Text) : Option Nat :=
  let mantissa :=
    match digits? s with
    | some whole =>
      match s.drop whole with
      | '.' :: rest => some (whole + 1 + (digits? rest).getD 0)
      | _ => none
    | none =>
      match s with
      | '.' :: rest => (digits? rest).map (· + 1)
      | _ => none
  mantissa.map fun n => n + (exponent? (s.drop n)).getD 0

/-- A float: with a point, or digits with an exponent. -/
def float? (s : Text) : Option Nat :=
  pointFloat? s <|> do
    let whole ← digits? s
    let power ← exponent? (s.drop whole)
    return whole + power

/-- The part of a number in a base other than ten behind its zero: the letter of the base, where
    there is one, and at least one digit. -/
def based? (letters : List Char) (isDigit : Char → Bool) (s : Text) : Option Nat :=
  let letter := optionalLetter letters s
  let count := moreDigits isDigit (s.drop letter)
  if count = 0 then none else some (letter + count)

/-- The part of an integer behind a zero at its start: a hexadecimal, binary or octal number, in
    this order of preference, or a row of zeros. -/
def behindZero (s : Text) : Nat :=
  let hexadecimal :=
    if optionalLetter ['x', 'X'] s = 1 then based? ['x', 'X'] isHexDigit s else none
  let binary :=
    if optionalLetter ['b', 'B'] s = 1 then based? ['b', 'B'] isBinaryDigit s else none
  let octal := based? ['o', 'O'] isOctalDigit s
  (hexadecimal <|> binary <|> octal).getD (moreDigits (· == '0') s)

/-- An integer, perhaps with the letter of a long one behind it. -/
def integer? (s : Text) : Option Nat :=
  let body :=
    match s with
    | '0' :: rest => some (behindZero rest + 1)
    | _ => digits? s
  body.map fun n => n + optionalLetter ['l', 'L'] (s.drop n)

/-- A number: imaginary, float or integer, in this order of preference. -/
def number? (s : Text) : Option Nat :=
  let imaginary (n : Nat) : Option Nat :=
    if optionalLetter ['j', 'J'] (s.drop n) = 1 then some (n + 1) else none
  (do imaginary (← digits? s)) <|> (do imaginary (← float? s)) <|> float? s <|> integer? s

end StyleGuide.Lexeme
