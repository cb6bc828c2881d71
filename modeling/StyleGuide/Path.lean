import StyleGuide.Text

/-! # Paths

A path is kept as it was written, since it is shown that way. Slashes part it into pieces. Empty
pieces and single dots lead nowhere, except that a path may start with a slash or a single dot.
-/

namespace StyleGuide

/-- The way to a file or directory, as written. -/
abbrev Path := Text

namespace Path

/-- Whether a path starts at the root and not at the working directory. -/
def isAbsolute (path : Path) : Bool := path.head? == some '/'

/-- The parts of a path between slashes. -/
def pieces (path : Path) : List Text := Text.splitOn '/' path

/-- The path with these pieces. -/
def ofPieces (pieces : List Text) : Path := ['/'].intercalate pieces

/-- Whether a piece stays where it is. -/
def isIdle (piece : Text) : Bool := piece.isEmpty || piece == ['.']

/-- The name of the directory above. -/
def above : Text := ['.', '.']

/-- The names a path follows, one after another. -/
def names (path : Path) : List Text := path.pieces.filter fun piece => !isIdle piece

/-- Where a path starts and the names it follows. Paths with the same components lead to the same
    place. -/
def components (path : Path) : List Text :=
  let start : List Text :=
    if path.isAbsolute then [['/']]
    else if path.pieces.head? = some ['.'] then [['.']]
    else []
  start ++ path.names

/-- The name at the end of a path, unless the path leads upwards there. -/
def fileName? (path : Path) : Option Text :=
  path.names.getLast?.filter (· ≠ above)

/-- Pieces without the idle ones at the end; the first piece stays. -/
def dropIdle : List Text → List Text
  | [] => []
  | first :: rest => first :: (rest.reverse.dropWhile isIdle).reverse

/-- The path without its last component. -/
def parent? (path : Path) : Option Path :=
  if path.components = [] ∨ path.components = [['/']] then none
  else
    match dropIdle (dropIdle path.pieces).dropLast with
    | [[]] => some ['/']
    | pieces => some (ofPieces pieces)

/-- The path from a directory on. -/
def join (directory : Path) (path : Path) : Path :=
  if path.isAbsolute then path
  else if directory.isEmpty || directory.getLast? == some '/' then directory ++ path
  else directory ++ '/' :: path

/-- The path with another name at its end; a path without a name at its end gets one. -/
def withFileName (path : Path) (name : Text) : Path :=
  if path.fileName?.isSome then join (path.parent?.getD []) name else join path name

/-- A path and the directories above it, nearest first, up to so many. -/
def ancestorsUpTo : Nat → Path → List Path
  | 0, path => [path]
  | count + 1, path =>
    match path.parent? with
    | none => [path]
    | some parent => path :: ancestorsUpTo count parent

/-- A path and all the directories above it, nearest first. -/
def ancestors (path : Path) : List Path := ancestorsUpTo path.components.length path

end Path

end StyleGuide
