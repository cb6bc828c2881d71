import StyleGuide.Config
import StyleGuide.Toml.Document

/-! # Settings

Settings change some fields of a configuration and leave the others as they are. They come from
settings documents and from the command line; of several settings the ones applied last win, field
by field.
-/

namespace StyleGuide

/-- New values for some fields of a configuration. -/
structure Settings where
  select : Option (List String) := none
  ignore : Option (List String) := none
  maxLineLength : Option Nat := none
  tabSize : Option Nat := none
  everyOccurrence : Option Bool := none
  fix : Option Bool := none
  inPlace : Option Bool := none
  showSource : Option Bool := none
  showGuidance : Option Bool := none
  exclude : Option (List String) := none
  filename : Option (List String) := none
  deriving Repr, DecidableEq

/-- A pattern without the slashes at its end, since patterns are matched with plain names. -/
def withoutSlashes (pattern : String) : String :=
  String.ofList (Text.dropEndWhile (· == '/') pattern.toList)

/-- The configuration with some fields changed. -/
def Config.apply (c : Config) (s : Settings) : Config :=
  { select := s.select.getD c.select
    ignore := s.ignore.getD c.ignore
    maxLineLength := s.maxLineLength.getD c.maxLineLength
    tabSize := s.tabSize.getD c.tabSize
    everyOccurrence := s.everyOccurrence.getD c.everyOccurrence
    fix := s.fix.getD c.fix
    inPlace := s.inPlace.getD c.inPlace
    showSource := s.showSource.getD c.showSource
    showGuidance := s.showGuidance.getD c.showGuidance
    exclude := (s.exclude.map fun patterns => patterns.map withoutSlashes).getD c.exclude
    filename := s.filename.getD c.filename }

namespace Toml.Node

/-- The value of an integer that is not negative. -/
def nat? : Node → Option Nat
  | .integer n => if 0 ≤ n then some n.toNat else none
  | _ => none

/-- The value of a truth value. -/
def flag? : Node → Option Bool
  | .boolean b => some b
  | _ => none

/-- The value of a text. -/
def string? : Node → Option String
  | .text t => some (String.ofList t)
  | _ => none

/-- The values of an array of texts. -/
def strings? : Node → Option (List String)
  | .array items => items.mapM string?
  | _ => none

end Toml.Node

namespace Settings

/-- The value of a key that a document may leave out, or nothing if the key stands for something
    that cannot be read. -/
def field? (entries : Toml.Entries) (read : Toml.Node → Option α) (key : String) :
    Option (Option α) :=
  match entries.get? key.toList with
  | none => some none
  | some node => (read node).map some

/-- The settings that a table holds under the names of fields. Other names do not count. -/
def ofEntries? (entries : Toml.Entries) : Option Settings := do
  return {
    select := ← field? entries Toml.Node.strings? "select"
    ignore := ← field? entries Toml.Node.strings? "ignore"
    maxLineLength := ← field? entries Toml.Node.nat? "max_line_length"
    tabSize := ← field? entries Toml.Node.nat? "tab_size"
    everyOccurrence := ← field? entries Toml.Node.flag? "repeat"
    fix := ← field? entries Toml.Node.flag? "fix"
    inPlace := ← field? entries Toml.Node.flag? "in_place"
    showSource := ← field? entries Toml.Node.flag? "show_source"
    showGuidance := ← field? entries Toml.Node.flag? "show_pep8"
    exclude := ← field? entries Toml.Node.strings? "exclude"
    filename := ← field? entries Toml.Node.strings? "filename" }

/-- The settings of a document. -/
def parse? (contents : Text) : Option Settings := do ofEntries? (← Toml.document? contents)

end Settings

end StyleGuide
