import StyleGuide.Host

/-! # Machines

A machine is a host whose files are a value, so that what a program does to them can be computed
and compared. Its clock stands still.
-/

namespace StyleGuide

/-- The way from the root to a file or directory, by name. -/
abbrev Location := List Text

/-- The files of a host and where the program stands among them. -/
structure Machine where
  files : List (Location × ByteArray)
  /-- Directories. Those on the way to these and to the files exist as well. -/
  directories : List Location := []
  workingDirectory : Location := []
  home? : Option Path := none

namespace Machine

/-- The content of the file at a location. -/
def fileAt? (m : Machine) (location : Location) : Option ByteArray := m.files.lookup location

/-- The locations of the files and directories that the machine lists. -/
def locations (m : Machine) : List Location := m.files.map Prod.fst ++ m.directories

/-- What is at a location. -/
def kindAt? (m : Machine) (location : Location) : Option FileKind :=
  if (m.fileAt? location).isSome then some .file
  else if location.isEmpty || m.locations.any location.isPrefixOf then some .directory
  else none

/-- Follow a name from a location, which must be a directory. -/
def follow (m : Machine) (location : Location) (name : Text) : Except FileError Location :=
  match m.kindAt? location with
  | none => .error .missing
  | some .file => .error .notADirectory
  | some .directory => .ok (if name = Path.above then location.dropLast else location ++ [name])

/-- The location a path leads to. It need not hold anything yet, but a path that ends in a slash
    does not lead to a file. -/
def resolve (m : Machine) (path : Path) : Except FileError Location :=
  if path.isEmpty then .error .missing
  else do
    let start := if path.isAbsolute then [] else m.workingDirectory
    let location ← path.names.foldlM m.follow start
    if path.pieces.getLast?.any Path.isIdle && m.kindAt? location == some .file then
      .error .notADirectory
    else .ok location

/-- What a path leads to. -/
def kind? (m : Machine) (path : Path) : Option FileKind :=
  match m.resolve path with
  | .error _ => none
  | .ok location => m.kindAt? location

/-- The content of the file a path leads to. -/
def read (m : Machine) (path : Path) : Except FileError ByteArray := do
  let location ← m.resolve path
  match m.fileAt? location with
  | some contents => .ok contents
  | none => .error (if (m.kindAt? location).isSome then .isADirectory else .missing)

/-- The files with one more, or with new content for one. -/
def put (location : Location) (contents : ByteArray) :
    List (Location × ByteArray) → List (Location × ByteArray)
  | [] => [(location, contents)]
  | file :: rest =>
    if file.1 = location then (location, contents) :: rest else file :: put location contents rest

/-- The machine with new content for the file a path leads to. -/
def write (m : Machine) (path : Path) (contents : ByteArray) : Except FileError Machine := do
  let location ← m.resolve path
  if m.kindAt? location = some .directory then .error .isADirectory
  else .ok { m with files := put location contents m.files }

/-- The name by which a location is entered on the way to another. -/
def nextName? (location target : Location) : Option Text :=
  if location.isPrefixOf target then target[location.length]? else none

/-- The names in the directory a path leads to, in ascending order. -/
def entries (m : Machine) (path : Path) : List Text :=
  match m.resolve path with
  | .error _ => []
  | .ok location =>
    Text.sorted (m.locations.filterMap (nextName? location)).eraseDups

end Machine

instance : Host (StateM Machine) where
  kind? path := do return (← get).kind? path
  read path := do return (← get).read path
  write path contents := do
    match (← get).write path contents with
    | .error e => return .error e
    | .ok m => set m; return .ok ()
  entries path := do return (← get).entries path
  workingDirectory := do return '/' :: Path.ofPieces (← get).workingDirectory
  home? := do return (← get).home?
  now := return 0

end StyleGuide
