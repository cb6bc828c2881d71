import StyleGuide.Config
import StyleGuide.Glob
import StyleGuide.Host

/-! # Finding files

The files to check are named one by one or found in directories. Patterns are matched with the last
name of a path, or with the whole path where it has no such name.
-/

namespace StyleGuide

/-- The patterns that tell which files are checked. -/
structure FileFilter where
  /-- What is passed over, with all it contains. -/
  exclude : List Glob
  /-- What is checked in directories; without patterns, every file is. -/
  filename : List Glob

namespace FileFilter

/-- The patterns of a configuration. Texts that write no pattern do not count. -/
def ofConfig (c : Config) : FileFilter :=
  let globs (patterns : List String) := patterns.filterMap fun p => Glob.parse? p.toList
  ⟨globs c.exclude, globs c.filename⟩

/-- Whether a path fits one of some patterns. -/
def fitsAny (patterns : List Glob) (path : Path) : Bool :=
  patterns.any fun pattern => Glob.fits pattern (path.fileName?.getD path)

/-- Whether a path is passed over. -/
def excludes (f : FileFilter) (path : Path) : Bool := fitsAny f.exclude path

/-- Whether a file in a directory is checked. -/
def includes (f : FileFilter) (path : Path) : Bool :=
  f.filename.isEmpty || fitsAny f.filename path

end FileFilter

/-- Files that were found and the number of directories that were looked into. -/
structure FoundFiles where
  directories : Nat := 0
  files : List Path := []
  deriving Repr, DecidableEq

namespace FoundFiles

/-- What two searches found. -/
def append (a b : FoundFiles) : FoundFiles := ⟨a.directories + b.directories, a.files ++ b.files⟩

instance : Append FoundFiles := ⟨append⟩

/-- What several searches found. -/
def join (found : List FoundFiles) : FoundFiles := found.foldl (· ++ ·) {}

/-- How deep directories are looked into. -/
def depthLimit : Nat := 256

variable {m : Type → Type} [Monad m] [Host m]

/-- Look into a path and, if it is a directory, into what it contains, in ascending order. -/
def search (f : FileFilter) : Nat → Path → m FoundFiles
  | depth, path => do
    if f.excludes path then return {}
    match ← Host.kind? path with
    | none => return {}
    | some .file => return ⟨0, if f.includes path then [path] else []⟩
    | some .directory =>
      match depth with
      | 0 => return ⟨1, []⟩
      | depth + 1 =>
        let names ← Host.entries path
        let found ← names.mapM fun name => search f depth (path.join name)
        return ⟨1, []⟩ ++ join found

/-- The files that one input names: those in a directory, or else the input itself, whatever its
    name and whether or not it exists, unless it is passed over. -/
def ofInput (f : FileFilter) (input : Path) : m FoundFiles := do
  match ← Host.kind? input with
  | some .directory => search f depthLimit input
  | _ => return ⟨0, if f.excludes input then [] else [input]⟩

/-- The files that the inputs name, in their order. -/
def ofInputs (f : FileFilter) (inputs : List Path) : m FoundFiles := do
  return join (← inputs.mapM (ofInput f))

end FoundFiles

end StyleGuide
