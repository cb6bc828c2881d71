import StyleGuide.Text

/-! # Switches of the command line

A switch is a flag, which stands alone, or a parameter, which takes a value. It has long names
behind two hyphens and perhaps a letter behind one.
-/

namespace StyleGuide.CommandLine

/-- A switch without a value. -/
inductive Flag where
  | verbose
  | quiet
  | everyOccurrence
  | showSource
  | showGuidance
  | statistics
  | count
  | benchmark
  | doctest
  | fix
  | inPlace
  | help
  | version
  deriving Repr, DecidableEq, BEq

/-- A switch with a value. -/
inductive Parameter where
  | exclude
  | filename
  | select
  | ignore
  | testsuite
  | maxLineLength
  | tabSize
  | config
  | jobs
  deriving Repr, DecidableEq, BEq

/-- A switch of either kind. -/
inductive Switch where
  | flag (flag : Flag)
  | parameter (parameter : Parameter)
  deriving Repr, DecidableEq, BEq

namespace Switch

/-- The long names of switches. -/
def names : List (String × Switch) := [
  ("verbose", .flag .verbose),
  ("quiet", .flag .quiet),
  ("repeat", .flag .everyOccurrence),
  ("exclude", .parameter .exclude),
  ("filename", .parameter .filename),
  ("select", .parameter .select),
  ("ignore", .parameter .ignore),
  ("show-source", .flag .showSource),
  ("show-pep8", .flag .showGuidance),
  ("statistics", .flag .statistics),
  ("count", .flag .count),
  ("benchmark", .flag .benchmark),
  ("testsuite", .parameter .testsuite),
  ("doctest", .flag .doctest),
  ("fix", .flag .fix),
  ("in-place", .flag .inPlace),
  ("inplace", .flag .inPlace),
  ("max-line-length", .parameter .maxLineLength),
  ("tab-size", .parameter .tabSize),
  ("config", .parameter .config),
  ("jobs", .parameter .jobs),
  ("help", .flag .help),
  ("version", .flag .version)]

/-- The letters of switches. -/
def letters : List (Char × Switch) := [
  ('v', .flag .verbose),
  ('q', .flag .quiet),
  ('r', .flag .everyOccurrence),
  ('f', .flag .fix),
  ('i', .flag .inPlace),
  ('c', .parameter .config),
  ('j', .parameter .jobs),
  ('h', .flag .help),
  ('V', .flag .version)]

/-- The switch with a long name. -/
def ofName? (name : Text) : Option Switch := names.lookup (String.ofList name)

/-- The switch with a letter. -/
def ofLetter? (letter : Char) : Option Switch := letters.lookup letter

end Switch

end StyleGuide.CommandLine
