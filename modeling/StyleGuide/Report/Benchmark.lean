import StyleGuide.Report

/-! # Throughput

The duration of a run is measured in seconds as a binary fraction; it is shown with two decimal
places, and each counter with its rate per second.
-/

namespace StyleGuide

/-- The whole number nearest to a quotient; of two, the even one. -/
def roundDiv (numerator denominator : Nat) : Nat :=
  let whole := numerator / denominator
  let twice := 2 * (numerator % denominator)
  if twice < denominator ∨ (twice = denominator ∧ whole % 2 = 0) then whole else whole + 1

/-- A duration of so many nanoseconds in seconds. -/
def secondsOf (nanoseconds : Nat) : Float :=
  (nanoseconds / 1000000000).toFloat + (nanoseconds % 1000000000).toFloat / 1000000000.0

/-- The hundredths of a number that is finite and not negative, rounded from its exact value. -/
def hundredths (x : Float) : Nat :=
  let bits := x.toBits.toNat
  let exponent := bits / Nat.pow 2 52
  let fraction := bits % Nat.pow 2 52
  let significand := if exponent = 0 then fraction else fraction + Nat.pow 2 52
  -- The value is the significand times two to the power of the exponent less 1075.
  roundDiv (significand * Nat.pow 2 (max exponent 1) * 100) (Nat.pow 2 1075)

/-- A number of hundredths with two decimal places. -/
def twoPlaces (n : Nat) : String :=
  s!"{n / 100}." ++ (if n % 100 < 10 then "0" else "") ++ s!"{n % 100}"

/-- How often a total fits into a second, where a duration is at least two to the power of -52
    seconds. -/
def rate (total : Nat) (seconds : Float) : Nat :=
  let least := Float.scaleB 1.0 (-52)
  (total.toFloat / (if seconds < least then least else seconds)).toUInt64.toNat

namespace Report

/-- The lines with the duration of a run and the rate of each counter. -/
def benchmark (r : Report) (nanoseconds : Nat) : List String :=
  let seconds := secondsOf nanoseconds
  let line (name : String) (total : Nat) : String :=
    s!"{leftAligned (toString (rate total seconds))} {name} per second ({total} total)"
  [s!"{leftAligned (twoPlaces (hundredths seconds))} seconds elapsed",
    line "directories" r.directories, line "files" r.files,
    line "logical lines" r.logicalLines, line "physical lines" r.physicalLines]

end Report

end StyleGuide
