import StyleGuide.Proofs.Checker.MendedRows
import StyleGuide.Proofs.TokenStream.Runs

/-! # What a token does

A token that ends no run joins it, and a comment is noted. The end of a row between statements lets
the comment on it wait, and the end of a statement writes the comments that wait and the statement.
-/

namespace StyleGuide

/-- Fitting comments to a number of blank lines leaves their texts alone. -/
theorem Comment.map_text_fit (comments : List Comment) (own target : Nat) :
    (fit comments own target).1.map text = comments.map text := by
  have clamped (n : Nat) (cs : List Comment) : (cs.map (clamp n)).map text = cs.map text := by
    rw [List.map_map]
    rfl
  have last (most : Nat) (cs : List Comment) :
      (fitLast most target cs).map text = cs.map text := by
    induction cs with
    | nil => rfl
    | cons c cs ih =>
        rw [fitLast]
        split
        · rw [List.map_cons, List.map_cons, clamped]
        · rw [List.map_cons, List.map_cons, ih]
          rfl
  rw [fit]
  split
  · exact last _ _
  · exact clamped _ _

namespace Pass

variable {p : Pass} {s : CheckState} {t : Token}

/-- Checking rows touches nothing but the rows, the indentation and the findings. -/
theorem checkRowsThrough_eq (n : Nat) (s : CheckState) :
    p.checkRowsThrough n s = { s with
      fixedRows := (p.checkRowsThrough n s).fixedRows
      indentChar := (p.checkRowsThrough n s).indentChar
      findings := (p.checkRowsThrough n s).findings } := by
  have fold : ∀ (l : List Nat) (s : CheckState),
      let u := l.foldl (fun s _ => p.checkRow s) s
      u = { s with fixedRows := u.fixedRows, indentChar := u.indentChar, findings := u.findings } := by
    intro l
    induction l with
    | nil => exact fun _ => rfl
    | cons n l ih =>
        intro s
        rw [List.foldl_cons]
        exact ih (p.checkRow s)
  exact fold _ s

@[simp] theorem depth_receive : (p.receive s t).depth = s.depth := by
  rw [receive, checkRowsThrough_eq]

@[simp] theorem output_receive : (p.receive s t).output = s.output := by
  rw [receive, checkRowsThrough_eq]

@[simp] theorem comments_receive : (p.receive s t).comments = s.comments := by
  rw [receive, checkRowsThrough_eq]

@[simp] theorem pending_receive : (p.receive s t).pending = s.pending := by
  rw [receive, checkRowsThrough_eq]

/-- A token that ends no run joins it. -/
theorem step_of_not_endsRun (h : t.endsRun s.depth = false) :
    p.step s t = if t.kind = .comment then noteComment t (s.run.size == 0) (p.receive s t)
      else { p.receive s t with depth := t.depthBehind s.depth } := by
  have depth : s.depth = (p.receive s t).depth := depth_receive.symm
  have same (other : t.kind ≠ .operator) :
      { p.receive s t with depth := t.depthBehind s.depth } = p.receive s t := by
    rw [Runs.depthBehind_of_kind other, depth]
  simp only [step]
  split
  · next kind =>
      rw [if_neg (show t.kind ≠ .comment by simp [kind]), Token.depthBehind, ← depth]
      by_cases opens : t.opensBracket
      · rw [if_pos opens, if_pos opens]
      · rw [if_neg opens, if_neg opens]
        by_cases closes : t.closesBracket
        · rw [if_pos closes, if_pos closes]
        · rw [if_neg closes, if_neg closes, depth]
  · next kind =>
      have open_ : s.depth ≠ 0 := by simpa [Token.endsRun, kind] using h
      rw [if_neg (show t.kind ≠ .comment by simp [kind]), same (by simp [kind]),
        if_neg (depth ▸ open_)]
  · next kind =>
      have open_ : s.depth ≠ 0 := by simpa [Token.endsRun, kind] using h
      rw [if_neg (show t.kind ≠ .comment by simp [kind]), same (by simp [kind]),
        if_neg (depth ▸ open_)]
  · next kind => rw [if_pos kind, run_receive, Array.size_push]; simp
  · next kind => simp [Token.endsRun, kind] at h
  · next other _ _ comment _ => rw [if_neg comment, same other]

/-- A comment waits for the end of its row if it is the first token of the run. -/
theorem exists_step_of_not_endsRun (h : t.endsRun s.depth = false) :
    ∃ k n m, p.step s t = { p.receive s t with
      depth := t.depthBehind s.depth
      blankLines := n
      blankLinesBeforeComment := m
      pending :=
        if t.kind = .comment ∧ s.run.size = 0 then
          some ⟨k, Text.trimEnd ((p.receive s t).fixedRows[t.start.row - 1]?.getD t.line)⟩
        else s.pending } := by
  have pending : (p.receive s t).pending = s.pending := pending_receive
  rw [step_of_not_endsRun h]
  split
  · next kind =>
      have depth : t.depthBehind s.depth = (p.receive s t).depth := by
        rw [Runs.depthBehind_of_kind (by simp [kind]), depth_receive]
      simp only [noteComment, kind, true_and, beq_iff_eq, depth, pending]
      split <;> exact ⟨_, _, _, rfl⟩
  · next kind =>
      simp only [kind, false_and, if_false, ← pending]
      exact ⟨0, _, _, rfl⟩

/-- The end of a row between statements, which is blank if the run is empty. -/
theorem step_rowBreak (kind : t.kind = .rowBreak) (closed : s.depth = 0) :
    p.step s t = { p.flushComment (p.receive s t) with
      blankLines := if s.run.size = 0 then s.blankLines + 1 else s.blankLines
      run := #[] } := by
  have blank : (p.receive s t).blankLines = s.blankLines := by
    rw [receive, checkRowsThrough_eq]
  simp only [step, kind, depth_receive, closed, if_true, run_receive, Array.size_push,
    Nat.add_eq_right, blank]

/-- The end of a statement. -/
theorem step_newline (kind : t.kind = .newline) (closed : s.depth = 0) :
    p.step s t = { p.checkStatement (p.receive s t) with
      blankLines := 0, blankLinesBeforeComment := 0, run := #[] } := by
  simp only [step, kind, depth_receive, closed, if_true]

/-- The end of the source. -/
theorem step_endMarker (kind : t.kind = .endMarker) :
    p.step s t = { p.checkStatement (p.receive s t) with run := #[] } := by
  simp only [step, kind]

theorem step_of_rowBreak (kind : t.kind = .rowBreak) (closed : s.depth = 0) :
    ∃ n, p.step s t = { p.flushComment (p.receive s t) with blankLines := n, run := #[] } :=
  ⟨_, step_rowBreak kind closed⟩

theorem step_of_statementEnd (h : t.kind = .newline ∧ s.depth = 0 ∨ t.kind = .endMarker) :
    ∃ n m, p.step s t = { p.checkStatement (p.receive s t) with
      blankLines := n, blankLinesBeforeComment := m, run := #[] } := by
  rcases h with ⟨kind, closed⟩ | kind
  · exact ⟨_, _, step_newline kind closed⟩
  · exact ⟨_, _, step_endMarker kind⟩

/-- What is written for a statement: the comments that wait, then the statement. -/
theorem exists_checkStatement {line : LogicalLine} (fix : p.config.fix)
    (hl : LogicalLine.ofTokens? p.rows s.run.toList = some line) :
    ∃ level findings, p.checkStatement s = { s with
      comments := []
      indentLevel := level
      previous := (p.mend s line).text
      logicalLines := s.logicalLines + 1
      findings := findings
      output := (s.output ++ (fitted s (p.mend s line)).1.map Comment.written).push
        (line.written (p.mend s line).text (fitted s (p.mend s line)).2 s.fixedRows) } := by
  simp only [checkStatement, hl, writeComments, fix, if_true]
  exact ⟨_, _, rfl⟩

theorem checkStatement_of_none (hl : LogicalLine.ofTokens? p.rows s.run.toList = none) :
    p.checkStatement s = s := by
  simp only [checkStatement, hl]

theorem map_text_fitted (checked : StatementState) :
    (fitted s checked).1.map Comment.text = s.comments.map Comment.text := by
  rw [fitted]
  split
  · exact Comment.map_text_fit _ _ _
  · rfl

@[simp] theorem depth_flushComment : (p.flushComment s).depth = s.depth := by
  rw [flushComment]
  split <;> rfl

@[simp] theorem depth_checkStatement : (p.checkStatement s).depth = s.depth := by
  simp only [checkStatement, writeComments]
  split
  · rfl
  · split <;> rfl

/-- A token counts for the pass as it counts for itself. -/
theorem depth_step : (p.step s t).depth = t.depthBehind s.depth := by
  rcases t.endsRun_cases s.depth with ⟨goes, -⟩ | ⟨-, -, kind, closed⟩ | ⟨-, -, ends⟩
  · obtain ⟨k, n, m, step⟩ := exists_step_of_not_endsRun (p := p) goes
    rw [step]
  · obtain ⟨n, step⟩ := step_of_rowBreak (p := p) kind closed
    rw [step, Runs.depthBehind_of_kind (by simp [kind])]
    simp
  · obtain ⟨n, m, step⟩ := step_of_statementEnd (p := p) ends
    have other : t.kind ≠ .operator := by
      rcases ends with ⟨kind, -⟩ | kind <;> simp [kind]
    rw [step, Runs.depthBehind_of_kind other]
    simp

end Pass

end StyleGuide
