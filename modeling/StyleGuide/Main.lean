import StyleGuide.Program

/-! # The command line program

The program runs on the machine it was started on: its files, its environment and its clock.
-/

namespace StyleGuide

/-- The number of an error of the system, which may come with a minus sign. -/
def errorNumber (code : UInt32) : Nat := min code.toNat (UInt32.size - code.toNat)

/-- The reason for an error of the system. -/
def FileError.ofError : IO.Error → FileError
  | .noFileOrDirectory .. => .missing
  | .inappropriateType _ code details =>
    if errorNumber code = 20 then .notADirectory
    else if errorNumber code = 21 then .isADirectory
    else .other s!"{details} (os error {errorNumber code})"
  | .permissionDenied _ code _ => .other s!"Permission denied (os error {errorNumber code})"
  | e => .other (toString e)

/-- The result of an action on a file. -/
def attempt (action : IO α) : IO (Except FileError α) := do
  try return .ok (← action)
  catch e => return .error (.ofError e)

/-- The names in a directory, or none if it cannot be read. -/
def namesIn (path : Path) : IO (List Text) := do
  try
    let found ← ((← IO.currentDir) / String.ofList path).readDir
    return Text.sorted (found.toList.map fun entry => entry.fileName.toList)
  catch _ => return []

instance : Host IO where
  kind? path := do
    if path.isEmpty then return none
    let file := (← IO.currentDir) / String.ofList path
    if ← file.isDir then return some .directory
    else if ← file.pathExists then return some .file
    else return none
  read path := attempt (IO.FS.readBinFile (String.ofList path))
  write path contents := attempt (IO.FS.writeBinFile (String.ofList path) contents)
  entries := namesIn
  workingDirectory := do return (← IO.currentDir).toString.toList
  home? := do
    let home ← IO.getEnv "HOME"
    let profile ← IO.getEnv "USERPROFILE"
    return (home <|> profile).map String.toList
  now := IO.monoNanosNow

end StyleGuide

/-- Run the program and print what it says. -/
def main (arguments : List String) : IO UInt32 := do
  let outcome ← StyleGuide.Program.run (arguments.map String.toList)
  for line in outcome.output do IO.println line
  for line in outcome.errors do IO.eprintln line
  return UInt32.ofNat outcome.exitStatus
