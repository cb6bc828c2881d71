import StyleGuide.Rule.BracketSpace

/-! # Spaces behind commas, semicolons and colons -/

namespace StyleGuide

namespace MissingSeparatorSpace

/-- Whether the separator `c` needs a space in front of the character `d`. A colon needs none
    inside square brackets, of which `opened` are opened and `closed` are closed before it, and a
    comma needs none at the end of a tuple or list. -/
def isNeeded (opened closed : Nat) (c d : Char) : Bool :=
  isSeparator c && d != ' ' && d != '\t' && !(c == ':' && closed < opened)
    && !(c == ',' && (d == ')' || d == ']'))

/-- The count of a square bracket behind the character `c`. -/
def tally (bracket c : Char) (count : Nat) : Nat := if c == bracket then count + 1 else count

/-- The first separator that needs a space, in the rest of a text that starts at byte `offset`
    behind so many opened and closed square brackets. -/
def first? (offset opened closed : Nat) : Text → Option Finding
  | c :: d :: rest =>
    if isNeeded opened closed c d then
      some (.atOffset offset .e231 s!"missing whitespace after '{c}'")
    else
      first? (offset + c.utf8Size) (tally '[' c opened) (tally ']' c closed) (d :: rest)
  | _ => none

/-- The rest of a text with a space behind each separator that needs one. -/
def add (opened closed : Nat) : Text → Text
  | c :: d :: rest =>
    let more := add (tally '[' c opened) (tally ']' c closed) (d :: rest)
    if isNeeded opened closed c d then c :: ' ' :: more else c :: more
  | rest => rest

/-- White space follows each separator. -/
def check (ctx : StatementContext) : Option Finding := first? 0 0 0 ctx.text

def fix (ctx : StatementContext) : Fix :=
  ⟨"space added after separator.", .line (add 0 0 ctx.text)⟩

end MissingSeparatorSpace

namespace WideSeparatorSpace

/-- The first separator `mark` behind which there are two spaces, or else a tab. -/
def first? (text : Text) (mark : Char) : Option Finding :=
  match Text.find? [mark, ' ', ' '] text with
  | some n => some (.atOffset (n + 1) .e241 s!"multiple spaces after '{mark}'")
  | none =>
    (Text.find? [mark, '\t'] text).map fun n => .atOffset (n + 1) .e242 s!"tab after '{mark}'"

/-- The text with one space for each run of spaces and tabs behind a separator. -/
def collapse : Text → Text
  | [] => []
  | c :: rest =>
    if isSeparator c then
      let gap := rest.takeWhile fun d => d == ' ' || d == '\t'
      let behind := rest.drop gap.length
      if gap.isEmpty then c :: collapse behind else c :: ' ' :: collapse behind
    else c :: collapse rest
termination_by s => s.length
decreasing_by all_goals simp only [List.length_drop, List.length_cons]; omega

/-- At most one space follows a separator. -/
def check (ctx : StatementContext) : Option Finding :=
  [',', ';', ':'].findSome? (first? ctx.text)

def fix (ctx : StatementContext) : Fix :=
  ⟨"whitespace after separator collapsed.", .line (collapse ctx.text)⟩

end WideSeparatorSpace

end StyleGuide
