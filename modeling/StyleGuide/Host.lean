import StyleGuide.Path
import StyleGuide.Text.Quoted

/-! # Hosts

The program runs on a host, which has files and directories, a place to work in, perhaps a home and
a clock.
-/

namespace StyleGuide

/-- Why a file was not read or written. -/
inductive FileError where
  | missing
  /-- The path goes on behind a file. -/
  | notADirectory
  | isADirectory
  /-- The content was to be text, but it is not UTF-8. -/
  | notUtf8
  /-- A character that the encoding of the file does not have. -/
  | notLatin1 (c : Char)
  /-- Any other reason, in the words of the host. -/
  | other (reason : String)
  deriving Repr, DecidableEq

/-- The reason in words. -/
def FileError.message : FileError → String
  | .missing => "No such file or directory (os error 2)"
  | .notADirectory => "Not a directory (os error 20)"
  | .isADirectory => "Is a directory (os error 21)"
  | .notUtf8 => "stream did not contain valid UTF-8"
  | .notLatin1 c => s!"'{Text.quotedChar c}' cannot be written as Latin-1"
  | .other reason => reason

/-- What a path leads to. -/
inductive FileKind where
  | file
  | directory
  deriving Repr, DecidableEq, BEq

/-- What the program asks of the host it runs on. -/
class Host (m : Type → Type) where
  /-- What a path leads to, if to anything. -/
  kind? : Path → m (Option FileKind)
  read : Path → m (Except FileError ByteArray)
  write : Path → ByteArray → m (Except FileError Unit)
  /-- The names in a directory, in ascending order. -/
  entries : Path → m (List Text)
  workingDirectory : m Path
  home? : m (Option Path)
  /-- The time in nanoseconds since some moment. -/
  now : m Nat

namespace Host

variable {m : Type → Type} [Monad m] [Host m]

/-- The content of a file that must be UTF-8. -/
def readText (path : Path) : m (Except FileError Text) := do
  match ← Host.read path with
  | .error e => return .error e
  | .ok bytes =>
    match String.fromUTF8? bytes with
    | none => return .error .notUtf8
    | some text => return .ok text.toList

end Host

end StyleGuide
