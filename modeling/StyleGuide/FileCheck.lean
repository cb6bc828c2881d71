import StyleGuide.Checker
import StyleGuide.Encoding
import StyleGuide.Host

/-! # Checking files

A file is read, checked and, if asked for, mended: the mended source takes its place or is put
beside it, in the encoding in which it was read.
-/

namespace StyleGuide

/-- Why a file has no report. -/
inductive CheckFailure where
  | unreadable (path : Path) (cause : FileError)
  | malformed (path : Path) (cause : SyntaxError)
  | unwritable (path : Path) (cause : FileError)
  deriving Repr, DecidableEq

namespace CheckFailure

/-- The failure in words. -/
def message : CheckFailure → String
  | .unreadable path cause => s!"failed to read {String.ofList path}: {cause.message}"
  | .malformed path cause =>
    s!"{String.ofList path}:{cause.position.shown}: syntax error: {cause.cause.message}"
  | .unwritable path cause => s!"failed to write {String.ofList path}: {cause.message}"

/-- Whether the file was read but could not be understood. -/
def isSyntax : CheckFailure → Bool
  | .malformed .. => true
  | _ => false

end CheckFailure

/-- The path of the file beside another that takes its mended source. -/
def fixedPath (path : Path) : Path :=
  path.withFileName ("fixed_".toList ++ path.fileName?.getD [])

namespace Checker

/-- Where the mended source of a file goes. -/
def target (c : Checker) (path : Path) : Path :=
  if c.config.inPlace then path else fixedPath path

variable {m : Type → Type} [Monad m] [Host m]

/-- Write the mended source of a file, if there is one. -/
def writeFixed (c : Checker) (path : Path) (encoding : Encoding) (report : FileReport) :
    m (Except CheckFailure FileReport) := do
  match report.fixed with
  | none => return .ok report
  | some fixed =>
    match encoding.encode fixed with
    | .error letter => return .error (.unwritable (c.target path) (.notLatin1 letter))
    | .ok bytes =>
      match ← Host.write (c.target path) bytes with
      | .error e => return .error (.unwritable (c.target path) e)
      | .ok _ => return .ok report

/-- Check a file and, if asked for, write its mended source. -/
def checkFile (c : Checker) (path : Path) : m (Except CheckFailure FileReport) := do
  match ← Host.read path with
  | .error e => return .error (.unreadable path e)
  | .ok bytes =>
    let (encoding, source) := Encoding.decode bytes
    match c.check source with
    | .error e => return .error (.malformed path e)
    | .ok report => c.writeFixed path encoding report

end Checker

end StyleGuide
