import StyleGuide.Report.Tally

/-! # Reports over several files

A report prints the violations of each file that is added and counts them by code. Printed text is
a list of lines.
-/

namespace StyleGuide

/-- What a report prints. -/
structure ReportOptions where
  /-- One keeps all but the names of files with violations from being printed, more keeps these
      too. -/
  quiet : Nat := 0
  /-- Print every violation, not only the first of each code. -/
  everyOccurrence : Bool := false
  /-- Show the row of each violation. -/
  showSource : Bool := false
  /-- Show the guidance on each violation. -/
  showGuidance : Bool := false
  deriving Repr, DecidableEq

/-- What has been counted over several files. -/
structure Report where
  options : ReportOptions := {}
  tallies : List Tally := []
  directories : Nat := 0
  files : Nat := 0
  logicalLines : Nat := 0
  physicalLines : Nat := 0
  syntaxErrors : Nat := 0
  deriving Repr, DecidableEq

/-- A number at the left of a field of seven columns. -/
def leftAligned (text : String) : String :=
  text ++ String.ofList (List.replicate (7 - text.length) ' ')

namespace Violation

/-- The lines that show a violation in a file of this name, where so many lines come before the
    part of the file that was checked. -/
def lines (o : ReportOptions) (path : String) (lineOffset : Nat) (v : Violation) : List String :=
  let source :=
    if o.showSource then
      [String.ofList (Text.trimEnd v.sourceLine),
        String.ofList (List.replicate v.column ' ') ++ "^"]
    else []
  let guidance :=
    if o.showGuidance then [String.ofList (Text.trim v.guidance.toList)] else []
  s!"{path}:{lineOffset + v.row}:{v.column + 1}: {v.text}" :: source ++ guidance

end Violation

namespace FixNotice

/-- A text on one line, with its newlines in words. -/
def shown (text : Text) : String :=
  String.ofList (text.flatMap fun c => if c == '\n' then ['\\', 'n'] else [c])

/-- The lines that announce a change. -/
def lines (n : FixNotice) : List String :=
  [s!" - pep8 fix: {n.description}", s!"\t-{shown n.old}", s!"\t+{shown n.new}"]

end FixNotice

namespace Report

/-- Whether a violation was announced. -/
def isExpected (expected : List String) (v : Violation) : Bool :=
  expected.contains v.code.text

/-- The lines for the violations from `index` on, where `tallies` counts those before. -/
def linesFrom (o : ReportOptions) (path : String) (fixes : List FixNotice)
    (expected : List String) (lineOffset : Nat) (tallies : List Tally) (index : Nat) :
    List Violation → List String
  | [] => []
  | v :: rest =>
    let name := if o.quiet = 1 ∧ index = 0 then [path] else []
    let isShown := !isExpected expected v
      && (o.everyOccurrence || !Tally.has tallies v.code.text)
    let violation := if o.quiet = 0 ∧ isShown then v.lines o path lineOffset else []
    let notices :=
      if o.quiet = 0 then (fixes.filter (·.violation = index)).flatMap FixNotice.lines else []
    name ++ violation ++ notices
      ++ linesFrom o path fixes expected lineOffset (Tally.add v tallies) (index + 1) rest

/-- Add a part of a file behind `lineOffset` lines, in which some codes are expected. The result
    has the report, the number of violations that were not expected, and the printed lines. -/
def addCase (r : Report) (path : String) (file : FileReport) (expected : List String)
    (lineOffset : Nat) : Report × Nat × List String :=
  let report := { r with
    tallies := Tally.addAll r.tallies file.violations
    logicalLines := r.logicalLines + file.logicalLines
    physicalLines := r.physicalLines + file.physicalLines }
  let unexpected := file.violations.filter fun v => !isExpected expected v
  (report, unexpected.length,
    linesFrom r.options path file.fixes expected lineOffset r.tallies 0 file.violations)

/-- Add a file in which nothing is expected. -/
def addFile (r : Report) (path : String) (file : FileReport) : Report × Nat × List String :=
  r.addCase path file [] 0

/-- The number of violations whose codes start with a text. -/
def count (r : Report) (start : String) : Nat := Tally.total start r.tallies

/-- Whether a code was reported since the last reset. -/
def has (r : Report) (code : String) : Bool := Tally.has r.tallies code

/-- The codes that were reported since the last reset. -/
def codes (r : Report) : List Code := r.tallies.map Tally.code

/-- A line for each code that starts with a text: its count, the code and its first message. -/
def statistics (r : Report) (start : String) : List String :=
  (Tally.startingWith start r.tallies).map fun t =>
    s!"{leftAligned (toString t.count)} {t.code.text} {t.firstMessage}"

/-- Forget the counts by code; the other counters go on. -/
def resetCounts (r : Report) : Report := { r with tallies := [] }

end Report

end StyleGuide
