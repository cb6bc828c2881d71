import StyleGuide.Config.Settings
import StyleGuide.Host

/-! # Finding settings

Settings documents lie in the home directory and in the directories from the root down to the one
where the search starts. They are applied in this order, so the nearest one wins, field by field.
-/

namespace StyleGuide.Config

/-- The name of settings documents. -/
def documentName : Text := "pep8check.toml".toList

variable {m : Type → Type} [Monad m] [Host m]

/-- The settings document in a directory, if there is one. -/
def documentIn? (directory : Path) : m (Option Path) := do
  let path := directory.join documentName
  return if (← Host.kind? path) == some .file then some path else none

/-- The directory where a search starts: the path itself, the directory of a file, or the working
    directory where the path leads to nothing. -/
def startDirectory (start : Path) : m Path := do
  match ← Host.kind? start with
  | some .directory => return start
  | some .file => return start.parent?.getD []
  | none => Host.workingDirectory

/-- Paths without those that have the same components as one before. -/
def distinct (paths : List Path) : List Path :=
  paths.foldl (fun kept path =>
    if kept.any fun other => other.components == path.components then kept else kept ++ [path]) []

/-- The settings documents for a path: that of the home directory, then those of the directories
    above the path, root first. -/
def documents (start : Path) : m (List Path) := do
  let home ←
    match ← Host.home? with
    | none => pure none
    | some home => documentIn? home
  let directory ← startDirectory start
  let above ← directory.ancestors.reverse.mapM documentIn?
  return distinct (home.toList ++ above.filterMap id)

/-- The settings of a document, or nothing if it cannot be read or makes no sense. -/
def settingsIn? (path : Path) : m (Option Settings) := do
  match ← Host.readText path with
  | .error _ => return none
  | .ok contents => return Settings.parse? contents

/-- The configuration that settings change one after another. -/
def ofSettings (settings : List Settings) : Config := settings.foldl apply {}

/-- The configuration for a path. -/
def discover (start : Path) : m Config := do
  let settings ← (← documents start).mapM settingsIn?
  return ofSettings (settings.filterMap id)

/-- Why a settings document that was asked for cannot be used. -/
inductive DocumentError where
  | unreadable (cause : FileError)
  | malformed
  deriving Repr, DecidableEq

/-- The configuration of a single document. -/
def ofDocument (path : Path) : m (Except DocumentError Config) := do
  match ← Host.readText path with
  | .error e => return .error (.unreadable e)
  | .ok contents =>
    match Settings.parse? contents with
    | none => return .error .malformed
    | some settings => return .ok (ofSettings [settings])

end StyleGuide.Config
