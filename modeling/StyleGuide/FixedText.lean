import StyleGuide.LogicalLine

/-! # The text of a mended file

A mended file is put together from comments and statements, each with its blank lines. A statement
on one row is written from its logical line, with the literals back in the place of their masks;
a statement on several rows keeps its rows.
-/

namespace StyleGuide

/-- The text with each literal in the place of its mask. A mask is looked for behind the place of
    the one before; the result is `none` if one is missing. -/
def restore? (text : Text) : List Text → Option Text
  | [] => some text
  | literal :: rest =>
    match Text.cut? (mask literal) text with
    | none => none
    | some (before, after) => (restore? after rest).map fun s => before ++ literal ++ s

/-- A comment on a row of its own, and the number of blank lines in front of it. -/
structure Comment where
  blankLines : Nat
  text : Text
  deriving Repr, DecidableEq

namespace Comment

/-- The comment with at most `most` blank lines. -/
def clamp (most : Nat) (c : Comment) : Comment := { c with blankLines := min c.blankLines most }

/-- The largest number of blank lines in front of a comment. -/
def widest (comments : List Comment) : Nat := (comments.map blankLines).foldl max 0

/-- The comments with at most `target` blank lines each, except that the last of those with
    `most` blank lines has exactly `target`. -/
def fitLast (most target : Nat) : List Comment → List Comment
  | [] => []
  | c :: rest =>
    if c.blankLines = most ∧ rest.all (fun d => d.blankLines < most) then
      { c with blankLines := target } :: rest.map (clamp target)
    else c.clamp target :: fitLast most target rest

/-- Fit the blank lines in front of a statement, `own` directly and the others in front of the
    comments before it, so that the widest run becomes `target` and none is wider. The result
    has the comments and the number directly in front of the statement. -/
def fit (comments : List Comment) (own target : Nat) : List Comment × Nat :=
  if own < widest comments then
    (fitLast (widest comments) target comments, min own target)
  else (comments.map (clamp target), target)

/-- The comment as it is written. -/
def written (c : Comment) : Text := List.replicate c.blankLines '\n' ++ c.text ++ ['\n']

end Comment

namespace LogicalLine

/-- The statement as it is written behind `blankLines` blank lines, with `text` for its logical
    line and `rows` for the rows of the file. -/
def written (l : LogicalLine) (text : Text) (blankLines : Nat) (rows : Array Text) : Text :=
  let kept := (rows.extract (l.firstRow - 1) l.lastRow).toList.flatten
  let statement :=
    if l.isSingleRow then
      match restore? text l.literals with
      | some restored =>
        ((rows[l.firstRow - 1]?.getD []).takeWhile Text.isBlank) ++ restored
          ++ Text.trimEnd (l.comment.getD []) ++ ['\n']
      | none => kept
    else kept
  List.replicate blankLines '\n' ++ statement

end LogicalLine

end StyleGuide
