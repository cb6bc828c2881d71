import StyleGuide.Toml.Quoted

/-! # Dates and times in settings documents -/

namespace StyleGuide.Toml

open Phrase

/-- A number of exactly so many digits. -/
def figure (count : Nat) : Phrase Nat := do
  let found ← upTo (one Char.isDigit) count
  guard (found.length = count)
  return numeral 10 found

/-- A number of two digits within limits. -/
def limitedFigure (least most : Nat) : Phrase Nat := do
  let n ← figure 2
  guard (least ≤ n ∧ n ≤ most)
  return n

/-- Whether a year has a twenty-ninth of February. -/
def isLeapYear (year : Nat) : Bool :=
  year % 4 == 0 && (year % 100 != 0 || year % 400 == 0)

/-- The number of days of a month. -/
def daysIn (year month : Nat) : Nat :=
  if month = 2 then (if isLeapYear year then 29 else 28)
  else if month = 4 ∨ month = 6 ∨ month = 9 ∨ month = 11 then 30
  else 31

/-- A day of the calendar. -/
def date : Phrase Unit := do
  let year ← figure 4
  char '-'
  let month ← limitedFigure 1 12
  char '-'
  let day ← figure 2
  guard (1 ≤ day ∧ day ≤ daysIn year month)

/-- A time of day, perhaps with a fraction of a second. A minute may have a leap second. -/
def time : Phrase Unit := do
  discard (limitedFigure 0 23)
  char ':'
  discard (limitedFigure 0 59)
  char ':'
  discard (limitedFigure 0 60)
  discard (optional (char '.' *> someRun Char.isDigit))

/-- The distance of local time from universal time. -/
def timeOffset : Phrase Unit :=
  discard (one fun c => c == 'Z' || c == 'z') <|> do
    discard (one fun c => c == '+' || c == '-')
    discard (limitedFigure 0 23)
    char ':'
    discard (limitedFigure 0 59)

/-- A date, a time of day, or a date with a time of day and perhaps an offset. -/
def moment : Phrase Unit :=
  (do
    date
    discard (optional do
      discard (one fun c => c == 'T' || c == 't' || c == ' ')
      time
      discard (optional timeOffset)))
  <|> time

end StyleGuide.Toml
