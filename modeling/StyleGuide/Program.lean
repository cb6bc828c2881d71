import StyleGuide.CommandLine
import StyleGuide.Config.Discovery
import StyleGuide.FileCheck
import StyleGuide.FileWalk
import StyleGuide.Report.Benchmark
import StyleGuide.SelfTest.Example
import StyleGuide.SelfTest.Fixture

/-! # The program

A run reads the command line, makes a configuration, tests the rules with their own examples if
asked for, and checks files or tests them as fixtures.
-/

namespace StyleGuide.Program

open CommandLine (Options Stop UsageError)

/-- What a run leaves behind for its caller. -/
structure Outcome where
  exitStatus : Nat
  /-- The lines of the standard output. -/
  output : List String := []
  /-- The lines of the standard error output. -/
  errors : List String := []
  deriving Repr, DecidableEq

/-- Why a run ends early. -/
inductive Failure where
  | noInput
  | badDocument (cause : Config.DocumentError)
  | badConfig (problem : Config.Problem)
  | unreadableFixture (path : Path) (cause : FileError)
  deriving Repr, DecidableEq

/-- The lines that explain a failure. -/
def Failure.lines : Failure → List String
  | .noInput => ["Error: input not specified (try --help)"]
  | .badDocument (.unreadable cause) => [s!"Error: {cause.message}"]
  | .badDocument .malformed => ["Error: TOML parse error"]
  | .badConfig problem => [s!"Error: Invalid configuration: {problem.message}"]
  | .unreadableFixture path cause =>
    [s!"Error: failed to read {String.ofList path}", "", "Caused by:", s!"    {cause.message}"]

/-- What a run has found and printed so far. -/
structure Session where
  report : Report
  output : List String := []
  errors : List String := []
  /-- Whether a self test failed or a file could not be read or written. -/
  hasFailed : Bool := false

namespace Session

/-- Whether there is nothing to complain about. -/
def isClean (s : Session) : Bool :=
  s.report.count "" == 0 && s.report.syntaxErrors == 0 && !s.hasFailed

/-- The outcome of a session that came to its end. -/
def outcome (s : Session) : Outcome := ⟨if s.isClean then 0 else 1, s.output, s.errors⟩

/-- The outcome of a session that ends early. -/
def outcomeOfFailure (s : Session) (failure : Failure) : Outcome :=
  ⟨1, s.output, s.errors ++ failure.lines⟩

/-- Take in the result of checking a file. -/
def addResult (s : Session) (path : Path) :
    Except CheckFailure FileReport → Session
  | .ok file =>
    let (report, _, lines) := s.report.addFile (String.ofList path) file
    { s with report, output := s.output ++ lines }
  | .error e =>
    let errors := s.errors ++ [e.message]
    if e.isSyntax then
      { s with errors, report.syntaxErrors := s.report.syntaxErrors + 1 }
    else { s with errors, hasFailed := true }

/-- Test the rules with their own examples. -/
def testRules (s : Session) (c : Checker) (verbose : Bool) : Session :=
  let (summary, lines) := testExamples c.registry c.config verbose
  { s with output := s.output ++ lines, hasFailed := s.hasFailed || !summary.isSuccess }

variable {m : Type → Type} [Monad m] [Host m]

/-- Check files; their results are taken in afterwards. -/
def checkFiles (s : Session) (c : Checker) (files : List Path) : m Session := do
  let results ← files.mapM c.checkFile
  return (files.zip results).foldl (fun s (path, result) => s.addResult path result) s

/-- Test files as fixtures, up to the first that cannot be read. -/
def testFiles (c : Checker) (verbose : Bool) :
    List Path → Session → m (Session × Option Failure)
  | [], s => return (s, none)
  | path :: rest, s => do
    match ← Host.readText path with
    | .error e => return (s, some (.unreadableFixture path e))
    | .ok contents =>
      let tested := testFixture c (String.ofList path) contents verbose s.report
      testFiles c verbose rest { s with
        report := tested.report
        output := s.output ++ tested.lines
        hasFailed := s.hasFailed || !tested.summary.isSuccess }

end Session

variable {m : Type → Type} [Monad m] [Host m]

/-- The configuration of a run: the document that the options name or else those for the working
    directory, changed by the options. -/
def configuration (o : Options) : m (Except Failure Config) := do
  let base ←
    match o.config with
    | some path => Config.ofDocument path
    | none => Except.ok <$> (Host.workingDirectory >>= Config.discover)
  match base with
  | .error e => return .error (.badDocument e)
  | .ok base =>
    let config := base.apply o.settings
    match config.problem? with
    | some problem => return .error (.badConfig problem)
    | none => return .ok config

/-- The report before a run. -/
def emptyReport (o : Options) (c : Config) : Report :=
  { options := ⟨o.quiet, c.everyOccurrence, c.showSource, c.showGuidance⟩ }

/-- Check or test the files that the inputs name and print what is asked for at the end. -/
def work (o : Options) (c : Checker) (inputs : List Path) : m Outcome := do
  let verbose := 0 < o.verbose
  let s : Session := { report := emptyReport o c.config }
  let s := if o.doctest then s.testRules c verbose else s
  let start ← Host.now
  let found ← FoundFiles.ofInputs (.ofConfig c.config) inputs
  let s := { s with
    report.directories := found.directories
    report.files := found.files.length }
  let (s, failure) ←
    if o.testsuite.isSome then Session.testFiles c verbose found.files s
    else (·, none) <$> s.checkFiles c found.files
  let stop ← Host.now
  match failure with
  | some failure => return s.outcomeOfFailure failure
  | none =>
    let statistics := if o.statistics then s.report.statistics "" else []
    let speed := if o.benchmark then s.report.benchmark (stop - start) else []
    let count := s.report.count ""
    let errors := if o.count && 0 < count then [toString count] else []
    return { s with
      output := s.output ++ statistics ++ speed
      errors := s.errors ++ errors }.outcome

/-- Carry out the options of a command line. -/
def carryOut (o : Options) : m Outcome := do
  let session : Session := { report := {} }
  let inputs := o.inputs ++ o.testsuite.toList
  if inputs.isEmpty && !o.doctest then return session.outcomeOfFailure .noInput
  match ← configuration o with
  | .error failure => return session.outcomeOfFailure failure
  | .ok config => work o ⟨.ofFilter config.codeFilter, config⟩ inputs

/-- The line that explains a switch. -/
def switchLine (entry : String × CommandLine.Switch) : String :=
  let letter :=
    match CommandLine.Switch.letters.find? fun (_, switch) => switch == entry.2 with
    | some (letter, _) => String.ofList ['-', letter, ',']
    | none => "   "
  let value :=
    match entry.2 with
    | .flag _ => ""
    | .parameter _ => " <VALUE>"
  s!"  {letter} --{entry.1}{value}"

/-- The lines that explain how the program is called. -/
def helpLines : List String :=
  ["Check Python source code against the PEP 8 style conventions", "",
    "Usage: pep8check [OPTIONS] [FILE]...", "", "Options:"]
    ++ CommandLine.Switch.names.map switchLine

/-- The outcome of a command line that is not carried out. -/
def outcomeOfStop : Stop → Outcome
  | .help => ⟨0, helpLines, []⟩
  | .version => ⟨0, ["pep8check 0.1.0"], []⟩
  | .misuse e => ⟨2, [], [s!"error: {e.message}", "", "For more information, try '--help'."]⟩

/-- Carry out a command line. -/
def run (arguments : List Text) : m Outcome :=
  match Options.ofArguments arguments with
  | .error stop => return outcomeOfStop stop
  | .ok options => carryOut options

end StyleGuide.Program
