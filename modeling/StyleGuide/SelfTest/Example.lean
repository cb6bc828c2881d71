import StyleGuide.Checker
import StyleGuide.Report.Tally
import StyleGuide.SelfTest
import StyleGuide.Text.Word

/-! # Checking the examples of the rules

An example names the code that is to be found in its source text, or says that none is.
-/

namespace StyleGuide

/-- An example: the expected code, or `Okay`, and the rows of source text. -/
structure Example where
  expected : String
  rows : List Text
  deriving Repr, DecidableEq

namespace Example

/-- What an example says that expects nothing. -/
def okay : String := "Okay"

/-- The number of characters at the start of an example that name what it expects. -/
def expectationLength? : Text → Option Nat
  | 'O' :: 'k' :: 'a' :: 'y' :: _ => some 4
  | letter :: a :: b :: c :: _ =>
    if (letter == 'E' || letter == 'W') && [a, b, c].all Text.isDecimalDigit then some 4 else none
  | _ => none

/-- A row of an example, in which a backslash and a letter stand for a tab or a space. -/
def rowOf (part : Text) : Text :=
  Text.replace ['\\', 's'] [' '] (Text.replace ['\\', 't'] ['\t'] part) ++ ['\n']

/-- The parts of an example. Its text is on one line. -/
def parse? (text : String) : Option Example := do
  let s := Text.trimStart text.toList
  let n ← expectationLength? s
  match s.drop n with
  | ':' :: blank :: source =>
    if Text.isBlank blank && !source.contains '\n' then
      some ⟨String.ofList (s.take n), (Text.split ['\\', 'n'] source).map rowOf⟩
    else none
  | _ => none

/-- What is wrong with an example: it cannot be read, more is found than nothing, or the expected
    code is not found. -/
def failure? (c : Checker) (e : Example) : Option String :=
  match c.check e.rows.flatten with
  | .error error => some s!"syntax error ({error.cause.message})"
  | .ok report =>
    let found := (Tally.addAll [] report.violations).map fun t => t.code.text
    if e.expected = okay then
      if found.isEmpty then none else some ("incorrectly found " ++ ", ".intercalate found)
    else if found.contains e.expected then none
    else some s!"failed to find {e.expected}"

/-- The lines that announce the failure of an example. -/
def failureLines (e : Example) (failure : String) : List String :=
  let shown (row : Text) : String := String.ofList (Text.trimEnd row)
  match e.rows with
  | [row] => [s!"pep8check: {failure}: {shown row}"]
  | rows => s!"pep8check: {failure}:" :: rows.map shown

/-- Check one more example. -/
def test (c : Checker) (state : TestSummary × List String) (e : Example) :
    TestSummary × List String :=
  match failure? c e with
  | none => (state.1.add true, state.2)
  | some failure => (state.1.add false, state.2 ++ e.failureLines failure)

end Example

/-- Check the examples of all registered rules without mending anything. The result has the
    outcome and the printed lines. -/
def testExamples (registry : Registry) (config : Config) (verbose : Bool) :
    TestSummary × List String :=
  let c : Checker := ⟨registry, { config with fix := false }⟩
  let examples := (registry.examples.flatMap (·.2)).filterMap Example.parse?
  let (summary, lines) := examples.foldl (Example.test c) ({}, [])
  let verdict := if summary.isSuccess then "Test passed." else "Test failed."
  let closing :=
    if verbose then [s!"{summary.passed} passed and {summary.failed} failed.", verdict] else []
  (summary, lines ++ closing)

end StyleGuide
