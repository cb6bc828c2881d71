import StyleGuide.Checker
import StyleGuide.Report
import StyleGuide.SelfTest

/-! # Checking fixture files

A fixture file is divided by declaration rows, which start with a number sign and a colon. Such a
row lists the codes that the section behind it is to report, or says `Okay`; a section that lists
nothing is passed over. The rows before the first declaration are to report nothing.
-/

namespace StyleGuide

namespace Fixture

/-- A section of a fixture file. -/
structure Section where
  /-- The index of the row that declares it, counted from zero; zero for the rows before the first
      declaration. -/
  declaredAt : Nat
  /-- What the declaration lists. -/
  declared : List String
  source : Text
  deriving Repr, DecidableEq

/-- Whether a row declares a section. -/
def isDeclaration (row : Text) : Bool := ['#', ':'].isPrefixOf row

/-- What a declaration lists: its words but for the first. -/
def declaredIn (row : Text) : List String := ((Text.words row).drop 1).map String.ofList

/-- The section declared by the row with index `declaredAt`, and those behind it, where `rows` are
    the rows from index `next` on. -/
def sectionsFrom (declaredAt next : Nat) (declared : List String) (rows : List Text) :
    List Section :=
  let body := rows.takeWhile fun row => !isDeclaration row
  let current : Section := ⟨declaredAt, declared, body.flatten⟩
  match h : rows.dropWhile fun row => !isDeclaration row with
  | [] => [current]
  | declaration :: rest =>
    have : rest.length < rows.length := by
      have := (List.dropWhile_suffix (fun row => !isDeclaration row) (l := rows)).length_le
      rw [h] at this
      exact this
    let index := next + body.length
    current :: sectionsFrom index (index + 1) (declaredIn declaration) rest
termination_by rows.length

/-- The sections of a fixture file that are checked. -/
def sections (contents : Text) : List Section :=
  let rows := Text.rows contents
  let all :=
    match rows with
    | [] => []
    | first :: rest =>
      if isDeclaration first then sectionsFrom 0 1 (declaredIn first) rest
      else sectionsFrom 0 0 ["Okay"] rows
  all.filter fun s => !s.declared.isEmpty

namespace Section

/-- The codes that a section is to report. -/
def expected (s : Section) : List String := s.declared.filter (· ≠ "Okay")

/-- The place of a section in the file of this name. -/
def label (s : Section) (name : String) : String := s!"{name}:{s.declaredAt + 1}:1"

end Section

/-- What is known while a fixture file is checked. -/
structure State where
  report : Report
  summary : TestSummary
  lines : List String

/-- Check a section of the file of this name. It passes if it reports the expected codes and no
    others; the counts of its codes are forgotten behind it. -/
def check (c : Checker) (name : String) (verbose : Bool) (state : State) (s : Section) : State :=
  let label := s.label name
  let (report, unexpected, lines) :=
    match c.check s.source with
    | .ok file => state.report.addCase name file s.expected (s.declaredAt + 1)
    | .error e =>
      ({ state.report with syntaxErrors := state.report.syntaxErrors + 1 }, 1,
        [s!"{label}: syntax error: {e.message}"])
  let missing := s.expected.filter fun code => !report.has code
  let hasPassed := unexpected = 0 ∧ missing.isEmpty
  let passedLine :=
    if verbose ∧ hasPassed then [label ++ ": passed (" ++ " ".intercalate s.expected ++ ")"]
    else []
  { report := report.resetCounts
    summary := state.summary.add hasPassed
    lines := state.lines ++ lines ++ missing.map (fun code => s!"{label}: error {code} not found")
      ++ passedLine }

end Fixture

/-- Check the sections of a fixture file with this name and contents. -/
def testFixture (c : Checker) (name : String) (contents : Text) (verbose : Bool)
    (report : Report) : Fixture.State :=
  (Fixture.sections contents).foldl (Fixture.check c name verbose) ⟨report, {}, []⟩

end StyleGuide
