import StyleGuide.Toml.Value

/-! # Settings documents

A document is a sequence of rows: headers, which open tables, and keys with values, which belong to
the table opened last. Only the rows inside of arrays and of texts between three quote marks are
not read one by one.
-/

namespace StyleGuide.Toml

open Phrase

/-- What a row of a document says. -/
inductive Entry where
  | nothing
  /-- The header of a table. -/
  | header (path : List Text)
  /-- The header of one more table of several with the same header. -/
  | rowHeader (path : List Text)
  | assignment (path : List Text) (value : Node)

/-- Blanks and perhaps a comment, to the end of the row or of the document. -/
def lineEnd : Phrase Unit := do
  gap
  discard (optional comment)
  lineBreak <|> atEnd

/-- A row of a document. -/
def entry : Phrase Entry := do
  gap
  (do
    comment
    lineBreak <|> atEnd
    return .nothing)
  <|> (do
    lineBreak
    return .nothing)
  <|> (do
    word ['[', '[']
    let path ← key
    word [']', ']']
    lineEnd
    return .rowHeader path)
  <|> (do
    char '['
    let path ← key
    char ']'
    lineEnd
    return .header path)
  <|> (do
    let (path, value) ← keyValue (value (nestingLimit - 1))
    lineEnd
    return .assignment path value)

/-- The table of a document so far and the path of the table opened last. -/
structure Draft where
  root : Entries := []
  current : List Text := []

namespace Draft

/-- Take in a row, unless it contradicts the rows before. -/
def add? (draft : Draft) : Entry → Option Draft
  | .nothing => some draft
  | .header path => opened path Entries.openTable?
  | .rowHeader path => opened path Entries.openRow?
  | .assignment path value =>
    (draft.root.within? (Entries.assign? value path true) draft.current).map fun root =>
      { draft with root }
where
  /-- Open the table at a path. -/
  opened (path : List Text) (openAt : Text → Entries → Option Entries) : Option Draft := do
    let last ← path.getLast?
    let root ← draft.root.within? (openAt last) path.dropLast
    return ⟨root, path⟩

end Draft

/-- The content of a document. A byte order mark in front does not count. -/
def document? (s : Text) : Option Entries := do
  let s := if s.head? = some '\ufeff' then s.drop 1 else s
  let entries ← whole? (many entry <* gap) s
  let draft ← entries.foldlM Draft.add? {}
  return draft.root

end StyleGuide.Toml
