import Mathlib.Data.List.Forall2
import StyleGuide.Proofs.Checker.RunStep

/-! # A pass that mends nothing

A pass that mends nothing leaves rows and statements as they are. What its rules find in a row
depends on the source alone, and what they find in a statement on the tokens and on a few facts
about the statements before it. The filter says which of the violations are reported; the others
are counted.
-/

namespace StyleGuide

namespace Findings

/-- More violations, of which those with a suppressed code are only counted. -/
def note (suppresses : Code → Bool) (f : Findings) (vs : List Violation) : Findings :=
  { f with
    violations := f.violations ++ (vs.filter fun v => !suppresses v.code).toArray
    suppressed := f.suppressed + vs.countP fun v => suppresses v.code }

variable {suppresses : Code → Bool} {f : Findings} {vs ws : List Violation}

@[simp] theorem note_nil : f.note suppresses [] = f := by simp [note]

@[simp] theorem note_append :
    f.note suppresses (vs ++ ws) = (f.note suppresses vs).note suppresses ws := by
  simp [note, Nat.add_assoc]

end Findings

/-- The first character of the first indented row among the first `n`. -/
def Rows.indentChar (rows : Rows) (n : Nat) : Option Char :=
  (List.range n).findSome? fun i =>
    (rows.row (i + 1)).head?.filter fun c => c == ' ' || c == '\t'

theorem Rows.indentChar_succ (rows : Rows) (n : Nat) : rows.indentChar (n + 1) =
    (rows.indentChar n <|> (rows.row (n + 1)).head?.filter fun c => c == ' ' || c == '\t') := by
  rw [indentChar, List.range_succ, List.findSome?_append, ← indentChar, List.findSome?_singleton,
    Option.or_eq_orElse]
  rfl

namespace Pass

/-! ## What the rules find -/

/-- What the rules may look at in a row that has not been changed. -/
def rowContext (p : Pass) (number : Nat) : RowContext :=
  ⟨p.rows.row number, p.rows.indentChar number, number, p.rows.size, p.config.maxLineLength⟩

/-- The violation that a rule finds in a row, whatever the filter says. -/
def rowViolation? (p : Pass) (number : Nat) (rule : RowRule) : Option Violation :=
  (rule.check (p.rowContext number)).map fun finding =>
    ⟨finding.code, number, Text.characterColumn (p.rows.row number) finding.place.column,
      finding.message, p.rows.shown number, rule.guidance⟩

/-- The violations that the rules find in a row. -/
def rowViolations (p : Pass) (number : Nat) : List Violation :=
  p.registry.rowRules.filterMap (p.rowViolation? number)

/-- The violations in the rows up to number `n`, where the first `k` rows have been checked. -/
def rowsFound (p : Pass) (k n : Nat) : List Violation :=
  (List.range' (k + 1) (min n p.rows.size - k)).flatMap p.rowViolations

/-- The place in the source that a finding in a statement means. -/
def placeIn (p : Pass) (line : LogicalLine) : Place → Position
  | .offset n => line.resolve p.rows n
  | .position q => q

/-- The violation that a rule finds in a statement, whatever the filter says. -/
def statementViolation? (p : Pass) (line : LogicalLine) (ctx : StatementContext)
    (rule : StatementRule) : Option Violation :=
  (rule.check ctx).map fun finding =>
    let q := p.placeIn line finding.place
    ⟨finding.code, q.row, Text.characterColumn (p.rows.shown q.row) q.column, finding.message,
      p.rows.shown q.row, rule.guidance⟩

/-- The violations that the rules find in the statement that the collected tokens hold. -/
def statementFound (p : Pass) (s : CheckState) : List Violation :=
  match LogicalLine.ofTokens? p.rows s.run.toList with
  | none => []
  | some line =>
    p.registry.statementRules.filterMap (p.statementViolation? line (p.contextOf s line))

/-- The violations that taking in the next token finds. -/
def foundIn (p : Pass) (s : CheckState) (t : Token) : List Violation :=
  p.rowsFound s.fixedRows.size t.stop.row ++
    if t.endsStatement s.depth then p.statementFound (p.receive s t) else []

/-- The violations that taking in tokens finds from a state on. -/
def foundFrom (p : Pass) (s : CheckState) : List Token → List Violation
  | [] => []
  | t :: more => p.foundIn s t ++ p.foundFrom (p.step s t) more

/-- The violations that the rules find up to the last of these tokens. -/
def found (p : Pass) (tokens : List Token) : List Violation := p.foundFrom .initial tokens

/-- The violations that the rules find in the whole source. -/
def allFound (p : Pass) (tokens : List Token) : List Violation :=
  p.found tokens ++ p.rowsFound (p.after tokens).fixedRows.size p.rows.size

variable {p q : Pass} {s : CheckState} {t : Token} {ts us : List Token}

theorem foundFrom_append (s : CheckState) (ts us : List Token) :
    p.foundFrom s (ts ++ us) = p.foundFrom s ts ++ p.foundFrom (ts.foldl p.step s) us := by
  induction ts generalizing s with
  | nil => rfl
  | cons t ts ih => rw [List.cons_append, foundFrom, foundFrom, ih, List.append_assoc]; rfl

theorem found_append (ts us : List Token) :
    p.found (ts ++ us) = p.found ts ++ p.foundFrom (p.after ts) us := foundFrom_append _ _ _

theorem found_concat (ts : List Token) (t : Token) :
    p.found (ts ++ [t]) = p.found ts ++ p.foundIn (p.after ts) t := by
  rw [found_append, foundFrom, foundFrom, List.append_nil]

/-- What is found is found in a row or in a statement. -/
theorem exists_of_mem_allFound {tokens : List Token} {v : Violation} (hv : v ∈ p.allFound tokens) :
    (∃ number, 1 ≤ number ∧ number ≤ p.rows.size ∧ v ∈ p.rowViolations number) ∨
      ∃ seen t ahead, tokens = seen ++ t :: ahead ∧ v ∈ p.statementFound (p.reach seen t) := by
  have row {k n : Nat} (h : v ∈ p.rowsFound k n) :
      ∃ number, 1 ≤ number ∧ number ≤ p.rows.size ∧ v ∈ p.rowViolations number := by
    obtain ⟨number, hn, found⟩ := List.mem_flatMap.mp h
    rw [List.mem_range'_1] at hn
    exact ⟨number, by omega, by omega, found⟩
  have front : ∀ ts, v ∈ p.found ts →
      (∃ number, 1 ≤ number ∧ number ≤ p.rows.size ∧ v ∈ p.rowViolations number) ∨
        ∃ seen t ahead, ts = seen ++ t :: ahead ∧ v ∈ p.statementFound (p.reach seen t) := by
    intro ts
    induction ts using List.reverseRecOn with
    | nil => exact nofun
    | append_singleton ts t ih =>
        intro found
        rw [found_concat] at found
        rcases List.mem_append.mp found with found | found
        · rcases ih found with inRow | ⟨seen, u, ahead, rfl, inStatement⟩
          · exact .inl inRow
          · exact .inr ⟨seen, u, ahead ++ [t], by simp, inStatement⟩
        · rcases List.mem_append.mp found with found | found
          · exact .inl (row found)
          · split at found
            · exact .inr ⟨ts, t, [], rfl, found⟩
            · cases found
  rcases List.mem_append.mp hv with found | found
  · exact front tokens found
  · exact .inl (row found)

/-! ## Rows -/

theorem indentChar_checkedRows (n : Nat) : (p.checkedRows n).indentChar = p.rows.indentChar n := by
  induction n with
  | zero => rfl
  | succ n ih =>
      rw [checkedRows_succ, Rows.indentChar_succ, ← ih]
      simp only [checkRow, size_checkedRows]

theorem OnTrack.indentChar_eq (track : p.OnTrack s) :
    s.indentChar = p.rows.indentChar s.fixedRows.size :=
  track.same.indentChar.trans (indentChar_checkedRows _)

/-- The rules leave the row as it is and add what they find. -/
theorem foldl_applyRowRule_of_reading (reads : p.config.fix = false) (number : Nat)
    (rules : List RowRule) (f : Findings) :
    rules.foldl (p.applyRowRule (p.rows.indentChar number) number) ⟨p.rows.row number, f⟩ =
      ⟨p.rows.row number, f.note p.suppresses (rules.filterMap (p.rowViolation? number))⟩ := by
  induction rules generalizing f with
  | nil => simp
  | cons rule rules ih =>
      have one : p.applyRowRule (p.rows.indentChar number) number ⟨p.rows.row number, f⟩ rule =
          ⟨p.rows.row number, f.note p.suppresses (p.rowViolation? number rule).toList⟩ := by
        simp only [applyRowRule, rowViolation?, rowContext, reads]
        cases rule.check _ with
        | none => simp
        | some finding =>
            cases hs : p.suppresses finding.code with
            | true => simp [hs, Findings.suppress, Findings.note]
            | false => simp [hs, Findings.add, Findings.note]
      rw [List.foldl_cons, one, ih]
      cases h : p.rowViolation? number rule <;> simp [h, ← Findings.note_append]

/-- The character that the next row is held against. -/
theorem OnTrack.indentChar_next (track : p.OnTrack s) :
    (s.indentChar <|> (p.rows.row (s.fixedRows.size + 1)).head?.filter
      fun c => c == ' ' || c == '\t') = p.rows.indentChar (s.fixedRows.size + 1) := by
  rw [track.indentChar_eq, Rows.indentChar_succ]

theorem findings_checkRow (reads : p.config.fix = false) (track : p.OnTrack s) :
    (p.checkRow s).findings =
      s.findings.note p.suppresses (p.rowViolations (s.fixedRows.size + 1)) := by
  simp only [checkRow, track.indentChar_next, foldl_applyRowRule_of_reading reads]
  rfl

theorem findings_checkRowsThrough (reads : p.config.fix = false) (track : p.OnTrack s) (n : Nat) :
    (p.checkRowsThrough n s).findings =
      s.findings.note p.suppresses (p.rowsFound s.fixedRows.size n) := by
  have row (u : CheckState) (le : s.fixedRows.size ≤ u.fixedRows.size)
      (lt : u.fixedRows.size < min n p.rows.size)
      (h : p.OnTrack u ∧ u.findings = s.findings.note p.suppresses
        ((List.range' (s.fixedRows.size + 1) (u.fixedRows.size - s.fixedRows.size)).flatMap
          p.rowViolations)) :
      p.OnTrack (p.checkRow u) ∧ (p.checkRow u).findings = s.findings.note p.suppresses
        ((List.range' (s.fixedRows.size + 1)
          ((p.checkRow u).fixedRows.size - s.fixedRows.size)).flatMap p.rowViolations) := by
    obtain ⟨track, found⟩ := h
    refine ⟨track.checkRow (by omega), ?_⟩
    have more : u.fixedRows.size + 1 - s.fixedRows.size =
        u.fixedRows.size - s.fixedRows.size + 1 := by omega
    have next : s.fixedRows.size + 1 + 1 * (u.fixedRows.size - s.fixedRows.size) =
        u.fixedRows.size + 1 := by omega
    rw [findings_checkRow reads track, found, size_checkRow, more, List.range'_concat, next,
      List.flatMap_append, Findings.note_append, List.flatMap_singleton]
  obtain ⟨⟨-, found⟩, size⟩ := checkRowsThrough_induction n ⟨track, by simp⟩ row
  have count : max s.fixedRows.size (min n p.rows.size) - s.fixedRows.size =
      min n p.rows.size - s.fixedRows.size := by omega
  rw [found, size, count]
  rfl

/-! ## Statements -/

/-- The rules leave the statement as it is and add what they find. -/
theorem mend_of_reading (reads : p.config.fix = false) (s : CheckState) (line : LogicalLine) :
    p.mend s line = ⟨line.text, max s.blankLines s.blankLinesBeforeComment, false,
      s.findings.note p.suppresses (p.registry.statementRules.filterMap
        (p.statementViolation? line (p.contextOf s line)))⟩ := by
  have fold : ∀ (rules : List StatementRule) (f : Findings),
      rules.foldl (p.applyStatementRule line (p.contextOf s line))
        ⟨line.text, max s.blankLines s.blankLinesBeforeComment, false, f⟩ =
      ⟨line.text, max s.blankLines s.blankLinesBeforeComment, false,
        f.note p.suppresses
          (rules.filterMap (p.statementViolation? line (p.contextOf s line)))⟩ := by
    intro rules
    induction rules with
    | nil => simp
    | cons rule rules ih =>
        intro f
        have one : p.applyStatementRule line (p.contextOf s line)
            ⟨line.text, max s.blankLines s.blankLinesBeforeComment, false, f⟩ rule =
            ⟨line.text, max s.blankLines s.blankLinesBeforeComment, false, f.note p.suppresses
              (p.statementViolation? line (p.contextOf s line) rule).toList⟩ := by
          have same : { p.contextOf s line with text := line.text } = p.contextOf s line := rfl
          simp only [applyStatementRule, statementViolation?, same, reads]
          cases rule.check _ with
          | none => simp
          | some finding =>
              cases hs : p.suppresses finding.code with
              | true => simp [hs, Findings.suppress, Findings.note]
              | false =>
                  obtain ⟨place, code, message⟩ := finding
                  cases place <;> simp [hs, Findings.add, Findings.note, placeIn]
        rw [List.foldl_cons, one, ih]
        cases h : p.statementViolation? line (p.contextOf s line) rule <;>
          simp [h, ← Findings.note_append]
  exact fold _ _

/-- The width of the white space in front of a statement. -/
def indentOf (p : Pass) (line : LogicalLine) : Nat :=
  StyleGuide.indentLevel p.config.tabSize
    (Text.takeBytes line.start.column (p.rows.shown line.start.row))

theorem checkStatement_of_reading (reads : p.config.fix = false) {line : LogicalLine}
    (hl : LogicalLine.ofTokens? p.rows s.run.toList = some line) :
    p.checkStatement s = { s with
      comments := []
      indentLevel := p.indentOf line
      previous := line.text
      logicalLines := s.logicalLines + 1
      findings := s.findings.note p.suppresses (p.statementFound s) } := by
  simp only [checkStatement, hl, mend_of_reading reads, writeComments, reads, statementFound]
  rfl

theorem findings_checkStatement (reads : p.config.fix = false) (s : CheckState) :
    (p.checkStatement s).findings = s.findings.note p.suppresses (p.statementFound s) := by
  cases hl : LogicalLine.ofTokens? p.rows s.run.toList with
  | none => rw [checkStatement_of_none hl, statementFound, hl, Findings.note_nil]
  | some line => rw [checkStatement_of_reading reads hl]

/-! ## Steps and runs -/

@[simp] theorem findings_flushComment : (p.flushComment s).findings = s.findings := by
  rw [flushComment]
  split <;> rfl

/-- A token adds what is found in the rows up to its end and in the statement that it ends. -/
theorem findings_step (reads : p.config.fix = false) (track : p.OnTrack s) (t : Token) :
    (p.step s t).findings = s.findings.note p.suppresses (p.foundIn s t) := by
  have rows : (p.receive s t).findings =
      s.findings.note p.suppresses (p.rowsFound s.fixedRows.size t.stop.row) :=
    findings_checkRowsThrough reads track t.stop.row
  rw [foundIn, Findings.note_append, ← rows]
  rcases t.endsRun_cases s.depth with ⟨goes, other⟩ | ⟨-, other, kind, closed⟩ | ⟨-, ends, kinds⟩
  · obtain ⟨k, n, m, step⟩ := exists_step_of_not_endsRun (p := p) goes
    rw [step, other]
    simp
  · obtain ⟨n, step⟩ := step_of_rowBreak (p := p) kind closed
    rw [step, other]
    simp
  · obtain ⟨n, m, step⟩ := step_of_statementEnd (p := p) kinds
    rw [step, ends]
    exact findings_checkStatement reads _

theorem reaches_after (p : Pass) (tokens : List Token) : p.Reaches (p.after tokens) tokens := by
  have start : p.Reaches .initial [] := ⟨.initial, nofun⟩
  exact reaches_foldl start tokens

theorem findings_after (reads : p.config.fix = false) (tokens : List Token) :
    (p.after tokens).findings = Findings.none.note p.suppresses (p.found tokens) := by
  induction tokens using List.reverseRecOn with
  | nil => exact Findings.note_nil.symm
  | append_singleton tokens t ih =>
      rw [found_concat, Findings.note_append, ← ih, after, List.foldl_append, ← after]
      exact findings_step reads (p.reaches_after tokens).track t

theorem findings_report_eq (reads : p.config.fix = false) (tokens : List Token) :
    let f := Findings.none.note p.suppresses (p.allFound tokens)
    (p.report (p.after tokens)).violations = f.violations.toList ∧
      (p.report (p.after tokens)).suppressed = f.suppressed := by
  have rows := findings_checkRowsThrough reads (p.reaches_after tokens).track p.rows.size
  have all : (p.writeComments (p.flushComment
      (p.checkRowsThrough p.rows.size (p.after tokens)))).findings =
        Findings.none.note p.suppresses (p.allFound tokens) := by
    rw [allFound, Findings.note_append, ← findings_after reads, ← rows]
    simp [writeComments, reads]
  simp only [report, all, and_self]

/-- The report has the violations whose codes are not suppressed, in order, and the number of the
    others. -/
theorem report_of_reading (reads : p.config.fix = false) (tokens : List Token) :
    (p.report (p.after tokens)).violations =
        (p.allFound tokens).filter (fun v => !p.suppresses v.code) ∧
      (p.report (p.after tokens)).suppressed =
        (p.allFound tokens).countP fun v => p.suppresses v.code := by
  obtain ⟨violations, suppressed⟩ := findings_report_eq reads tokens
  rw [violations, suppressed]
  simp [Findings.note, Findings.none]

end Pass

end StyleGuide
