import StyleGuide.Proofs.Checker.Reading
import StyleGuide.Proofs.Rule.Draft

/-! # What holds of every violation

A pass finds violations in its rows, as it checks them, and in its statements, as they end. What is
kept wherever a row is checked or a statement is mended therefore holds of all that has been found
in the end, and so of every violation of the report.
-/

namespace StyleGuide.Pass

variable {p : Pass} {s : CheckState}

/-! ## What one rule adds -/

/-- A rule finds nothing that is reported, or it adds a violation and may put the text of its fix
    in the place of the row. -/
theorem applyRowRule_cases (char : Option Char) (number : Nat) (s : RowState) (rule : RowRule) :
    let ctx : RowContext := ⟨s.row, char, number, p.rows.size, p.config.maxLineLength⟩
    let u := p.applyRowRule char number s rule
    u.row = s.row ∧ u.findings.violations = s.findings.violations ∨
      ∃ v : Violation, rule.code? ctx = some v.code ∧ p.suppresses v.code = false ∧
        v.row = number ∧ v.sourceLine = p.rows.shown number ∧
        u.findings.violations = s.findings.violations.push v ∧
        (u.row = s.row ∨ ∃ description, rule.fix ctx = some ⟨description, .line u.row⟩) := by
  simp only [applyRowRule, RowRule.code?]
  split
  · exact .inl ⟨rfl, rfl⟩
  · next finding found =>
      split
      · exact .inl ⟨rfl, rfl⟩
      · next kept =>
          have kept : p.suppresses finding.code = false := by simpa using kept
          refine .inr ⟨⟨finding.code, number, Text.characterColumn s.row finding.place.column,
            finding.message, p.rows.shown number, rule.guidance⟩, ?_⟩
          split
          · next description new fixed =>
              split
              · exact ⟨by simp [found], kept, rfl, rfl, rfl, .inl rfl⟩
              · split at fixed
                · exact ⟨by simp [found], kept, rfl, rfl, rfl, .inr ⟨description, fixed⟩⟩
                · cases fixed
          · exact ⟨by simp [found], kept, rfl, rfl, rfl, .inl rfl⟩

/-- A rule for statements finds nothing that is reported, or it adds a violation, for which it may
    announce a change. -/
theorem findings_applyStatementRule_cases (line : LogicalLine) (ctx : StatementContext)
    (u : StatementState) (rule : StatementRule) :
    let findings := (p.applyStatementRule line ctx u rule).findings
    findings = u.findings ∨ findings = u.findings.suppress ∨
      ∃ v, p.statementViolation? line { ctx with text := u.text } rule = some v ∧
        (findings = u.findings.add v ∨
          ∃ description old new, findings = (u.findings.add v).announce description old new) := by
  simp only [applyStatementRule]
  split
  · exact .inl rfl
  · next finding found =>
      split
      · exact .inr (.inl rfl)
      · refine .inr (.inr ⟨_, congrArg (Option.map _) found, ?_⟩)
        split
        · split
          · exact .inl rfl
          · exact .inr ⟨_, _, _, rfl⟩
        · split
          · exact .inl rfl
          · exact .inr ⟨_, _, _, rfl⟩
        · exact .inl rfl

/-- A violation that a rule for statements adds is what it finds in the statement as the rules
    before it have left it. -/
theorem mem_applyStatementRule {line : LogicalLine} {ctx : StatementContext} {u : StatementState}
    {rule : StatementRule} {v : Violation}
    (hv : v ∈ (p.applyStatementRule line ctx u rule).findings.violations) :
    v ∈ u.findings.violations ∨
      p.statementViolation? line { ctx with text := u.text } rule = some v := by
  have pushed {w : Violation}
      (here : p.statementViolation? line { ctx with text := u.text } rule = some w)
      (hv : v ∈ u.findings.violations.push w) :
      v ∈ u.findings.violations ∨
        p.statementViolation? line { ctx with text := u.text } rule = some v := by
    rcases Array.mem_push.mp hv with hv | rfl
    · exact .inl hv
    · exact .inr here
  rcases p.findings_applyStatementRule_cases line ctx u rule with
    same | same | ⟨w, here, same | ⟨description, old, new, same⟩⟩
  · exact .inl (same ▸ hv)
  · rw [same] at hv
    exact .inl hv
  · rw [same] at hv
    exact pushed here hv
  · rw [same] at hv
    exact pushed here hv

/-! ## One statement -/

section Every

variable {P : Violation → Prop}

/-- What holds of all that rules find in a statement holds behind all rules. -/
theorem forall_mend {line : LogicalLine}
    (found : ∀ (text : Text) (rule : StatementRule) (v : Violation),
      p.statementViolation? line { p.contextOf s line with text } rule = some v → P v)
    (h : ∀ v ∈ s.findings.violations, P v) : ∀ v ∈ (p.mend s line).findings.violations, P v := by
  have fold (rules : List StatementRule) (u : StatementState)
      (h : ∀ v ∈ u.findings.violations, P v) :
      ∀ v ∈ (rules.foldl (p.applyStatementRule line (p.contextOf s line)) u).findings.violations,
        P v := by
    induction rules generalizing u with
    | nil => exact h
    | cons rule rules ih =>
        refine ih _ fun v hv => ?_
        rcases mem_applyStatementRule hv with hv | here
        · exact h v hv
        · exact found u.text rule v here
  exact fold _ _ h

end Every

/-! ## The whole source -/

section Run

variable {Q : Findings → Prop} (row : ∀ u, p.OnTrack u → u.fixedRows.size < p.rows.size →
  Q u.findings → Q (p.checkRow u).findings)

include row

theorem keeps_checkRowsThrough (track : p.OnTrack s) (n : Nat) (h : Q s.findings) :
    Q (p.checkRowsThrough n s).findings := by
  have next (u : CheckState) (_ : s.fixedRows.size ≤ u.fixedRows.size)
      (lt : u.fixedRows.size < min n p.rows.size) (h : p.OnTrack u ∧ Q u.findings) :
      p.OnTrack (p.checkRow u) ∧ Q (p.checkRow u).findings :=
    ⟨h.1.checkRow (by omega), row u h.1 (by omega) h.2⟩
  exact (checkRowsThrough_induction n ⟨track, h⟩ next).1.2

theorem keeps_step (track : p.OnTrack s) (t : Token) (h : Q s.findings)
    (statement : ∀ line, LogicalLine.ofTokens? p.rows (p.receive s t).run.toList = some line →
      Q (p.receive s t).findings → Q (p.mend (p.receive s t) line).findings) :
    Q (p.step s t).findings := by
  have received : Q (p.receive s t).findings := keeps_checkRowsThrough row track t.stop.row h
  rcases t.endsRun_cases s.depth with ⟨goes, -⟩ | ⟨-, -, kind, closed⟩ | ⟨-, -, kinds⟩
  · obtain ⟨k, n, m, step⟩ := exists_step_of_not_endsRun (p := p) goes
    rw [step]
    exact received
  · obtain ⟨n, step⟩ := step_of_rowBreak (p := p) kind closed
    rw [step]
    simpa using received
  · obtain ⟨n, m, step⟩ := step_of_statementEnd (p := p) kinds
    rw [step]
    simp only [checkStatement]
    split
    · exact received
    · next line hl => exact statement line hl received

variable (start : Q Findings.none) (tokens : List Token)
  (statement : ∀ seen t ahead, tokens = seen ++ t :: ahead →
    ∀ line, LogicalLine.ofTokens? p.rows (p.reach seen t).run.toList = some line →
      Q (p.reach seen t).findings → Q (p.mend (p.reach seen t) line).findings)

include start statement

theorem keeps_after : Q (p.after tokens).findings := by
  induction tokens using List.reverseRecOn with
  | nil => exact start
  | append_singleton tokens t ih =>
      rw [after, List.foldl_append, ← after]
      -- a statement of the first tokens is one of all tokens
      refine keeps_step row (p.reaches_after tokens).track t (ih ?_) (statement tokens t [] rfl)
      rintro seen u ahead rfl
      exact statement seen u (ahead ++ [t]) (by simp)

/-- What is kept wherever a row is checked or a statement is mended holds of all that has been found
    in the end. -/
theorem keeps_report : ∃ findings : Findings, Q findings ∧
    (p.report (p.after tokens)).violations = findings.violations.toList ∧
    (p.report (p.after tokens)).fixes = findings.notices.toList := by
  have rows := keeps_checkRowsThrough row (p.reaches_after tokens).track p.rows.size
    (keeps_after row start tokens statement)
  have same (s : CheckState) : (p.writeComments (p.flushComment s)).findings = s.findings := by
    rw [writeComments]
    split <;> exact findings_flushComment
  exact ⟨_, rows, by simp only [report, same], by simp only [report, same]⟩

end Run

/-- What is kept wherever a row is checked or a statement is mended holds of all violations of the
    report. -/
theorem forall_report {P : Violation → Prop}
    (row : ∀ u, p.OnTrack u → u.fixedRows.size < p.rows.size →
      (∀ v ∈ u.findings.violations, P v) → ∀ v ∈ (p.checkRow u).findings.violations, P v)
    (tokens : List Token)
    (statement : ∀ seen t ahead, tokens = seen ++ t :: ahead →
      ∀ line, LogicalLine.ofTokens? p.rows (p.reach seen t).run.toList = some line →
        (∀ v ∈ (p.reach seen t).findings.violations, P v) →
          ∀ v ∈ (p.mend (p.reach seen t) line).findings.violations, P v) :
    ∀ v ∈ (p.report (p.after tokens)).violations, P v := by
  obtain ⟨findings, all, violations, -⟩ := keeps_report
    (Q := fun findings => ∀ v ∈ findings.violations, P v) row (by simp [Findings.none])
    tokens statement
  intro v hv
  rw [violations] at hv
  exact all v (Array.mem_toList_iff.mp hv)

end StyleGuide.Pass
