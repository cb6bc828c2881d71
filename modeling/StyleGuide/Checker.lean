import StyleGuide.Config
import StyleGuide.FileReport
import StyleGuide.FixedText
import StyleGuide.Registry
import StyleGuide.TokenStream

/-! # Checking a source

A source is checked in one pass over its tokens. Each row is checked as soon as a token reaches
it, each statement when it ends. What is mended is collected as the text of a new file.
-/

namespace StyleGuide

/-- The rules and settings of a check. -/
structure Checker where
  registry : Registry
  config : Config

/-- A check of one source, given by its rows. -/
structure Pass extends Checker where
  rows : Rows

/-- What has been found so far. -/
structure Findings where
  violations : Array Violation
  suppressed : Nat
  notices : Array FixNotice

namespace Findings

/-- Nothing has been found. -/
def none : Findings := ⟨#[], 0, #[]⟩

/-- One more finding that the filter keeps out. -/
def suppress (f : Findings) : Findings := { f with suppressed := f.suppressed + 1 }

/-- One more violation. -/
def add (f : Findings) (v : Violation) : Findings := { f with violations := f.violations.push v }

/-- One more change, made for the last violation. -/
def announce (f : Findings) (description : String) (old new : Text) : Findings :=
  { f with notices := f.notices.push ⟨f.violations.size - 1, description, old, new⟩ }

end Findings

/-- A row with the changes made so far, and what has been found. -/
structure RowState where
  row : Text
  findings : Findings

/-- A statement with the changes made so far, and what has been found. -/
structure StatementState where
  /-- The logical line. -/
  text : Text
  /-- The number of blank lines in front of the statement and the comments before it. -/
  blankLines : Nat
  /-- Whether that number has been changed. -/
  isRefitted : Bool
  findings : Findings

/-- What is remembered between tokens. -/
structure CheckState where
  /-- The rows checked so far, with the changes made. -/
  fixedRows : Array Text
  /-- The first character of the first indented row. -/
  indentChar : Option Char
  /-- The indentation of the last statement. -/
  indentLevel : Nat
  /-- The logical line of the last statement. -/
  previous : Text
  /-- The number of blank lines since the last statement or comment row. -/
  blankLines : Nat
  /-- The largest number of blank lines in front of a comment row since the last statement. -/
  blankLinesBeforeComment : Nat
  /-- A comment on a row of its own whose row has not ended. -/
  pending : Option Comment
  /-- The comments on rows of their own since the last statement. -/
  comments : List Comment
  /-- The number of open brackets. -/
  depth : Nat
  /-- The tokens since the end of the last statement or row between statements. -/
  run : Array Token
  logicalLines : Nat
  findings : Findings
  /-- The parts of the mended source so far. -/
  output : Array Text

namespace CheckState

/-- The state before the first token. -/
def initial : CheckState :=
  ⟨#[], none, 0, [], 0, 0, none, [], 0, #[], 0, Findings.none, #[]⟩

end CheckState

namespace Pass

/-- Whether the filter keeps a code out of the report. -/
def suppresses (p : Pass) (code : Code) : Bool := p.config.codeFilter.suppresses code.text

/-- Apply a rule to a row. A change is announced if it changes the row. -/
def applyRowRule (p : Pass) (indentChar : Option Char) (number : Nat) (s : RowState)
    (rule : RowRule) : RowState :=
  let ctx : RowContext :=
    ⟨s.row, indentChar, number, p.rows.size, p.config.maxLineLength⟩
  match rule.check ctx with
  | none => s
  | some finding =>
    if p.suppresses finding.code then { s with findings := s.findings.suppress }
    else
      let column := Text.characterColumn s.row finding.place.column
      let findings := s.findings.add
        ⟨finding.code, number, column, finding.message, p.rows.shown number, rule.guidance⟩
      match if p.config.fix then rule.fix ctx else none with
      | some ⟨description, .line new⟩ =>
        if new = s.row then { s with findings }
        else ⟨new, findings.announce description s.row new⟩
      | _ => { s with findings }

/-- Check the next row. -/
def checkRow (p : Pass) (s : CheckState) : CheckState :=
  let number := s.fixedRows.size + 1
  let row := p.rows.row number
  let indentChar := s.indentChar <|> row.head?.filter fun c => c == ' ' || c == '\t'
  let checked := p.registry.rowRules.foldl (p.applyRowRule indentChar number) ⟨row, s.findings⟩
  { s with fixedRows := s.fixedRows.push checked.row, indentChar, findings := checked.findings }

/-- Check the rows up to this one that have not been checked. -/
def checkRowsThrough (p : Pass) (row : Nat) (s : CheckState) : CheckState :=
  (List.range (min row p.rows.size - s.fixedRows.size)).foldl (fun s _ => p.checkRow s) s

/-- Apply a rule to a statement. Offsets count in its logical line as it was before any change. -/
def applyStatementRule (p : Pass) (line : LogicalLine) (ctx : StatementContext)
    (s : StatementState) (rule : StatementRule) : StatementState :=
  let ctx := { ctx with text := s.text }
  match rule.check ctx with
  | none => s
  | some finding =>
    if p.suppresses finding.code then { s with findings := s.findings.suppress }
    else
      let position :=
        match finding.place with
        | .offset n => line.resolve p.rows n
        | .position position => position
      let sourceLine := p.rows.shown position.row
      let column := Text.characterColumn sourceLine position.column
      let findings := s.findings.add
        ⟨finding.code, position.row, column, finding.message, sourceLine, rule.guidance⟩
      match if p.config.fix then rule.fix ctx else none with
      | some ⟨description, .line new⟩ =>
        if new = s.text then { s with findings }
        else { s with text := new, findings := findings.announce description s.text new }
      | some ⟨description, .blankLines count⟩ =>
        if count = s.blankLines then { s with findings }
        else
          let shown (n : Nat) : Text := List.replicate n '\n' ++ s.text
          { s with
            blankLines := count
            isRefitted := true
            findings := findings.announce description (shown s.blankLines) (shown count) }
      | none => { s with findings }

/-- Write the comments that wait for a statement. -/
def writeComments (p : Pass) (s : CheckState) : CheckState :=
  if p.config.fix then
    { s with comments := [], output := s.output ++ s.comments.map Comment.written }
  else { s with comments := [] }

/-- What the rules may look at in the statement that the collected tokens hold. -/
def contextOf (p : Pass) (s : CheckState) (line : LogicalLine) : StatementContext :=
  let start := line.start
  let gap := Text.takeBytes start.column (p.rows.shown start.row)
  { text := line.text
    tokens := s.run.toList
    indentChar := s.indentChar
    row := start.row
    indentLevel := indentLevel p.config.tabSize gap
    previousIndentLevel := s.indentLevel
    previous := s.previous
    blankLines := s.blankLines
    blankLinesBeforeComment := s.blankLinesBeforeComment }

/-- The statement that the collected tokens hold, after all rules. -/
def mend (p : Pass) (s : CheckState) (line : LogicalLine) : StatementState :=
  p.registry.statementRules.foldl (p.applyStatementRule line (p.contextOf s line))
    ⟨line.text, max s.blankLines s.blankLinesBeforeComment, false, s.findings⟩

/-- The comments in front of a statement and the number of blank lines directly in front of it,
    fitted to the number of blank lines that the rules ask for. -/
def fitted (s : CheckState) (checked : StatementState) : List Comment × Nat :=
  if checked.isRefitted then Comment.fit s.comments s.blankLines checked.blankLines
  else (s.comments, s.blankLines)

/-- Check the statement that the collected tokens hold, if they hold one, and write it. -/
def checkStatement (p : Pass) (s : CheckState) : CheckState :=
  match LogicalLine.ofTokens? p.rows s.run.toList with
  | none => s
  | some line =>
    let checked := p.mend s line
    let (comments, own) := fitted s checked
    let written := p.writeComments { s with comments }
    { written with
      indentLevel := (p.contextOf s line).indentLevel
      previous := checked.text
      logicalLines := s.logicalLines + 1
      findings := checked.findings
      output :=
        if p.config.fix then written.output.push (line.written checked.text own s.fixedRows)
        else written.output }

/-- Take note of a comment. One on a row of its own starts a new run of blank lines and waits for
    the end of its row. -/
def noteComment (t : Token) (isFirst : Bool) (s : CheckState) : CheckState :=
  let row := s.fixedRows[t.start.row - 1]?.getD t.line
  let pending := if isFirst then some ⟨s.blankLines, Text.trimEnd row⟩ else s.pending
  if Text.isAllBlank (Text.takeBytes t.start.column t.line) then
    { s with
      pending
      blankLines := 0
      blankLinesBeforeComment := max s.blankLinesBeforeComment s.blankLines }
  else { s with pending }

/-- Let the pending comment wait for the next statement. -/
def flushComment (p : Pass) (s : CheckState) : CheckState :=
  match s.pending with
  | none => s
  | some c =>
    { s with pending := none, comments := if p.config.fix then s.comments ++ [c] else s.comments }

/-- Take in the next token: the rows up to its end are checked, and it joins the run. -/
def receive (p : Pass) (s : CheckState) (t : Token) : CheckState :=
  let s := p.checkRowsThrough t.stop.row s
  { s with run := s.run.push t }

/-- Go on behind the next token: a statement ends at a newline outside brackets and at the end of
    the source, and a row break outside brackets ends a row between statements. -/
def step (p : Pass) (s : CheckState) (t : Token) : CheckState :=
  let s := p.receive s t
  match t.kind with
  | .operator =>
    if t.opensBracket then { s with depth := s.depth + 1 }
    else if t.closesBracket then { s with depth := s.depth - 1 }
    else s
  | .newline =>
    if s.depth = 0 then
      { p.checkStatement s with blankLines := 0, blankLinesBeforeComment := 0, run := #[] }
    else s
  | .rowBreak =>
    if s.depth = 0 then
      let blankLines := if s.run.size = 1 then s.blankLines + 1 else s.blankLines
      { p.flushComment s with blankLines, run := #[] }
    else s
  | .comment => noteComment t (s.run.size == 1) s
  | .endMarker => { p.checkStatement s with run := #[] }
  | _ => s

/-- The state behind the tokens. -/
def after (p : Pass) (tokens : List Token) : CheckState := tokens.foldl p.step CheckState.initial

/-- The report after the last token. -/
def report (p : Pass) (s : CheckState) : FileReport :=
  let s := p.writeComments (p.flushComment (p.checkRowsThrough p.rows.size s))
  { violations := s.findings.violations.toList
    suppressed := s.findings.suppressed
    physicalLines := p.rows.size
    logicalLines := s.logicalLines
    fixes := s.findings.notices.toList
    fixed := if p.config.fix then some s.output.toList.flatten else none }

end Pass

namespace Checker

/-- The pass over a source. -/
def pass (c : Checker) (source : Text) : Pass := { c with rows := Rows.ofSource source }

/-- The report on a source, or the reason why it cannot be read. -/
def check (c : Checker) (source : Text) : Except SyntaxError FileReport := do
  let tokens ← tokenize source
  let p := c.pass source
  return p.report (p.after tokens)

end Checker

end StyleGuide
