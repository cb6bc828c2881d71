import StyleGuide.Rule.Context

/-! # The equals sign of a keyword argument -/

namespace StyleGuide.ArgumentEquals

/-- A part of a statement. -/
inductive Part where
  | plain (c : Char)
  | opening
  | closing
  /-- An equals sign with a neighbour on each side, one of which is white space. -/
  | spaced (before after : Char)
  deriving Repr, DecidableEq

namespace Part

/-- The part as it is in the statement. -/
def text : Part → Text
  | .plain c => [c]
  | .opening => ['(']
  | .closing => [')']
  | .spaced before after => [before, '=', after]

end Part

/-- Whether `c` and `d` stand around a lone equals sign and one of them is white space. An equals
    sign that is part of a longer operator is not meant. -/
def isSpacedEquals (c d : Char) : Bool :=
  (Text.isBlank c && d != '=')
    || (!(c == '=' || c == '!' || c == '<' || c == '>') && Text.isBlank d)

/-- The parts of a statement, split from the left. -/
def parts : Text → List Part
  | '(' :: rest => .opening :: parts rest
  | ')' :: rest => .closing :: parts rest
  | c :: '=' :: d :: rest =>
    if isSpacedEquals c d then .spaced c d :: parts rest
    else .plain c :: parts ('=' :: d :: rest)
  | c :: rest => .plain c :: parts rest
  | [] => []

/-- The first spaced equals sign inside parentheses, in parts that start at byte `offset` and at
    this depth. -/
def first? (offset depth : Nat) : List Part → Option Finding
  | [] => none
  | p :: rest =>
    let next := offset + Text.byteLength p.text
    match p with
    | .plain _ => first? next depth rest
    | .opening => first? next (depth + 1) rest
    | .closing => first? next (depth - 1) rest
    | .spaced _ _ =>
      if 0 < depth then some (.atOffset offset .e251 "no spaces around keyword / parameter equals")
      else first? next depth rest

/-- A part in front of a text whose unopened parentheses are counted by `depth`: inside them an
    equals sign loses its spaces. -/
def prepend (p : Part) (behind : Nat × Text) : Nat × Text :=
  let (depth, text) := behind
  match p with
  | .plain c => (depth, c :: text)
  | .opening => (depth - 1, '(' :: text)
  | .closing => (depth + 1, ')' :: text)
  | .spaced before after =>
    (depth, (if 0 < depth then Text.trim p.text else [before, '=', after]) ++ text)

/-- The parts without the spaces around equals signs inside parentheses, which are matched from
    the right. -/
def tighten (parts : List Part) : Text := (parts.foldr prepend (0, [])).2

/-- No space stands beside the equals sign of a keyword argument or a default value. -/
def check (ctx : StatementContext) : Option Finding := first? 0 0 (parts ctx.text)

def fix (ctx : StatementContext) : Fix :=
  ⟨"spaces around keyword equals removed.", .line (tighten (parts ctx.text))⟩

end StyleGuide.ArgumentEquals
