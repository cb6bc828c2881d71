import StyleGuide.Proofs.Checker.Mend
import StyleGuide.Proofs.Checker.RowFindings
import StyleGuide.Proofs.LogicalLine.MadeOf
import StyleGuide.Proofs.Rule.MadeOf

/-! # A mended source is made of the source

Whatever a pass has at hand comes from the source: the rows that it has mended, the comments that
wait, the tokens of the run and the text that it has written. Each token keeps it so, and the
mended source therefore has no characters but those of the source and ASCII.
-/

namespace StyleGuide

open Text

/-- All that is remembered between tokens is made of the source. -/
structure CheckState.IsFrom (source : Text) (s : CheckState) : Prop where
  fixedRows : ∀ row ∈ s.fixedRows.toList, MadeOf source row
  pending : ∀ c, s.pending = some c → MadeOf source c.text
  comments : ∀ c ∈ s.comments, MadeOf source c.text
  run : ∀ t ∈ s.run.toList, t.IsFrom source
  output : ∀ part ∈ s.output.toList, MadeOf source part

namespace Pass

variable {c : Checker} {source : Text} {s : CheckState} {t : Token}

/-! ## Rows and statements -/

theorem madeOf_applyRowRule {p : Pass} (char : Option Char) (number : Nat) {s : RowState}
    (rule : RowRule) (h : MadeOf source s.row) :
    MadeOf source (p.applyRowRule char number s rule).row := by
  rcases applyRowRule_cases char number s rule with
    ⟨same, -⟩ | ⟨v, -, -, -, -, -, same | ⟨description, fixed⟩⟩
  · rwa [same]
  · rwa [same]
  · exact h.trans (RowRule.madeOf_of_fix fixed)

theorem madeOf_foldl_applyRowRule {p : Pass} (char : Option Char) (number : Nat)
    (rules : List RowRule) {s : RowState} (h : MadeOf source s.row) :
    MadeOf source (rules.foldl (p.applyRowRule char number) s).row := by
  induction rules generalizing s with
  | nil => exact h
  | cons rule rules ih => exact ih (madeOf_applyRowRule char number rule h)

theorem madeOf_mend {p : Pass} {line : LogicalLine} (h : line.IsFrom source) :
    MadeOf source (p.mend s line).text := by
  apply mend_induction h.text
  intro rule _ ctx description new fixed made
  exact made.trans (StatementRule.madeOf_of_fix fixed)

/-! ## What each part of a step keeps -/

theorem isFrom_initial (source : Text) : CheckState.initial.IsFrom source :=
  ⟨nofun, nofun, nofun, nofun, nofun⟩

theorem isFrom_checkRow (h : s.IsFrom source) : ((c.pass source).checkRow s).IsFrom source where
  fixedRows := by
    rw [checkRow, Array.toList_push, List.forall_mem_append]
    refine ⟨h.fixedRows, List.forall_mem_singleton.mpr ?_⟩
    apply madeOf_foldl_applyRowRule
    exact .of_subset (Rows.row_subset source (s.fixedRows.size + 1))
  pending := h.pending
  comments := h.comments
  run := h.run
  output := h.output

theorem isFrom_checkRowsThrough (h : s.IsFrom source) (n : Nat) :
    ((c.pass source).checkRowsThrough n s).IsFrom source := by
  apply (checkRowsThrough_induction (P := CheckState.IsFrom source) n h _).1
  intro u _ _ from_
  exact isFrom_checkRow from_

theorem isFrom_receive (h : s.IsFrom source) (token : t.IsFrom source) :
    ((c.pass source).receive s t).IsFrom source := by
  have rows := isFrom_checkRowsThrough (c := c) h t.stop.row
  refine { rows with run := ?_ }
  rw [receive, Array.toList_push, List.forall_mem_append]
  exact ⟨rows.run, List.forall_mem_singleton.mpr token⟩

theorem isFrom_flushComment {p : Pass} (h : s.IsFrom source) :
    (p.flushComment s).IsFrom source := by
  rw [flushComment]
  cases hp : s.pending with
  | none => exact h
  | some w =>
      have waiting : ∀ d ∈ if p.config.fix then s.comments ++ [w] else s.comments,
          MadeOf source d.text := by
        split
        · rw [List.forall_mem_append]
          exact ⟨h.comments, List.forall_mem_singleton.mpr (h.pending w hp)⟩
        · exact h.comments
      exact { h with pending := fun _ hw => (by cases hw), comments := waiting }

theorem isFrom_writeComments {p : Pass} (h : s.IsFrom source) :
    (p.writeComments s).IsFrom source := by
  rw [writeComments]
  split
  · refine { h with comments := List.forall_mem_nil _, output := ?_ }
    rw [Array.toList_appendList, List.forall_mem_append, List.forall_mem_map]
    exact ⟨h.output, fun d hd => Comment.madeOf_written (h.comments d hd)⟩
  · exact { h with comments := List.forall_mem_nil _ }

theorem isFrom_checkStatement (h : s.IsFrom source) :
    ((c.pass source).checkStatement s).IsFrom source := by
  rw [checkStatement]
  split
  · exact h
  · next line hl =>
      have from_ := LogicalLine.isFrom_of_ofTokens? h.run hl
      have comments : ∀ d ∈ (fitted s ((c.pass source).mend s line)).1, MadeOf source d.text := by
        -- The comments in front of the statement keep their texts.
        rw [← List.forall_mem_map (f := Comment.text), map_text_fitted, List.forall_mem_map]
        exact h.comments
      have written := isFrom_writeComments (p := c.pass source)
        (s := { s with comments := (fitted s ((c.pass source).mend s line)).1 })
        { h with comments := comments }
      refine { written with output := ?_ }
      simp only
      split
      · rw [Array.toList_push, List.forall_mem_append]
        refine ⟨written.output, List.forall_mem_singleton.mpr ?_⟩
        exact from_.madeOf_written (madeOf_mend from_) h.fixedRows _
      · exact written.output

/-! ## The run of the pass -/

theorem isFrom_step (h : s.IsFrom source) (token : t.IsFrom source) :
    ((c.pass source).step s t).IsFrom source := by
  have received := isFrom_receive (c := c) h token
  rcases t.endsRun_cases s.depth with ⟨goes, -⟩ | ⟨-, -, kind, closed⟩ | ⟨-, -, ends⟩
  · obtain ⟨k, n, m, step⟩ := exists_step_of_not_endsRun (p := c.pass source) goes
    rw [step]
    refine { received with pending := fun w hw => ?_ }
    split at hw
    · obtain rfl := Option.some.inj hw
      have row := MadeOf.getD received.fixedRows (.of_subset token.line) (t.start.row - 1)
      exact row.subset (trimEnd_subset _)
    · exact h.pending w hw
  · obtain ⟨n, step⟩ := step_of_rowBreak (p := c.pass source) kind closed
    rw [step]
    exact { isFrom_flushComment received with run := nofun }
  · obtain ⟨n, m, step⟩ := step_of_statementEnd (p := c.pass source) ends
    rw [step]
    exact { isFrom_checkStatement received with run := nofun }

theorem isFrom_after {tokens : List Token} (tokens_from : ∀ t ∈ tokens, t.IsFrom source) :
    ((c.pass source).after tokens).IsFrom source := by
  have run (s : CheckState) (h : s.IsFrom source) (tokens : List Token)
      (tokens_from : ∀ t ∈ tokens, t.IsFrom source) :
      (tokens.foldl (c.pass source).step s).IsFrom source := by
    induction tokens generalizing s with
    | nil => exact h
    | cons t tokens ih =>
        obtain ⟨here, more⟩ := List.forall_mem_cons.mp tokens_from
        exact ih _ (isFrom_step h here) more
  exact run _ (isFrom_initial source) tokens tokens_from

theorem madeOf_of_fixed_report {fixed : Text} (h : s.IsFrom source)
    (written : ((c.pass source).report s).fixed = some fixed) : MadeOf source fixed := by
  simp only [report] at written
  split at written
  · obtain rfl := Option.some.inj written
    have last := isFrom_writeComments (p := c.pass source)
      (isFrom_flushComment (p := c.pass source)
        (isFrom_checkRowsThrough (c := c) h (c.pass source).rows.size))
    exact .flatten last.output
  · cases written

end Pass

/-- The mended source has no characters but those of the source and ASCII. -/
theorem Checker.madeOf_fixed {c : Checker} {source fixed : Text} {report : FileReport}
    (h : c.check source = .ok report) (written : report.fixed = some fixed) :
    MadeOf source fixed := by
  cases read : tokenize source with
  | error e =>
      rw [check, read] at h
      cases h
  | ok tokens =>
      rw [c.check_of_tokenize read] at h
      obtain rfl := Except.ok.inj h
      exact Pass.madeOf_of_fixed_report (Pass.isFrom_after (isFrom_of_tokenize read)) written

end StyleGuide
