import StyleGuide.Toml.Quoted

/-! # Numbers in settings documents

Integers have 64 bits. Of a number with a fraction or an exponent only the size matters here: one
too large for a double is refused.
-/

namespace StyleGuide.Toml

open Phrase

/-- A sign, if there is one: whether it is a minus. -/
def sign : Phrase Bool := do
  return (← optional (one fun c => c == '+' || c == '-')) == some '-'

/-- Digits, each after the first perhaps with an underscore in front. -/
def digits (isDigit : Char → Bool) : Phrase Text := do
  let first ← one isDigit
  let more ← many (optional (char '_') *> one isDigit)
  return first :: more

/-- Decimal digits of a whole number: no zero in front of others. -/
def wholeDigits : Phrase Text :=
  (do return (← one fun c => c.isDigit && c != '0') ::
    (← many (optional (char '_') *> one Char.isDigit)))
  <|> (do return [← one (· == '0')])

/-- A number without sign in a base that a letter behind a zero tells. -/
def basedNumber (letter : Char) (base : Nat) (isDigit : Char → Bool) : Phrase Nat := do
  word ['0', letter]
  return numeral base (← digits isDigit)

/-- An integer of 64 bits. -/
def integer : Phrase Int := do
  let value ← (Int.ofNat <$> (basedNumber 'x' 16 Lexeme.isHexDigit
      <|> basedNumber 'o' 8 Lexeme.isOctalDigit <|> basedNumber 'b' 2 Lexeme.isBinaryDigit))
    <|> (do
      let isNegative ← sign
      let n := numeral 10 (← wholeDigits)
      return if isNegative then -n else n)
  guard (Int64.minValue.toInt ≤ value ∧ value ≤ Int64.maxValue.toInt)
  return value

/-- The least number that is rounded to infinity: half a unit above the largest double. -/
def doubleBound : Nat := Nat.pow 2 1024 - Nat.pow 2 970

/-- Whether `n · 10 ^ (exponent - places)` is too large for a double, where `n` has at most
    `length` decimal digits. -/
def exceedsDouble (n length places : Nat) (exponent : Int) : Bool :=
  let scale := exponent - places
  if n = 0 then false
  else if 0 ≤ scale then 310 ≤ scale || doubleBound ≤ n * Nat.pow 10 scale.toNat
  else length > (-scale).toNat && doubleBound * Nat.pow 10 (-scale).toNat ≤ n

/-- The exponent of a number. -/
def exponent : Phrase Int := do
  discard (one fun c => c == 'e' || c == 'E')
  let isNegative ← sign
  let n := numeral 10 (← digits Char.isDigit)
  return if isNegative then -n else n

/-- A number with a fraction, an exponent or both. It may be too small for a double, and a negative
    one too large in size, but a positive one must not be too large. -/
def decimal : Phrase Unit := do
  let isNegative ← sign
  let whole ← wholeDigits
  let fraction ← optional (char '.' *> digits Char.isDigit)
  let power ← optional exponent
  guard (fraction.isSome ∨ power.isSome)
  let places := fraction.getD []
  let all := whole ++ places
  guard (isNegative || !exceedsDouble (numeral 10 all) all.length places.length (power.getD 0))

/-- A number with a fraction or an exponent, infinity or no number at all. -/
def float : Phrase Unit :=
  decimal <|> (sign *> (word ['i', 'n', 'f'] <|> word ['n', 'a', 'n']))

end StyleGuide.Toml
