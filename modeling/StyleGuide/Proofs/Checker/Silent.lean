import StyleGuide.Proofs.Checker.Step

/-! # A pass that announces nothing

Every change that a rule makes is announced. A pass without an announcement therefore writes what a
pass without rules writes.
-/

namespace StyleGuide

namespace Findings

/-- From one set of findings to a later one no announcement is lost, and if none has come then
    something holds. -/
structure Grows (f g : Findings) (silent : Prop) : Prop where
  le : f.notices.size ≤ g.notices.size
  silent : g.notices.size = f.notices.size → silent

variable {f g h : Findings} {P Q R : Prop}

theorem Grows.refl (f : Findings) (hp : P) : Grows f f P := ⟨Nat.le_refl _, fun _ => hp⟩

theorem Grows.trans (first : Grows f g P) (second : Grows g h Q) (both : P → Q → R) :
    Grows f h R := by
  refine ⟨Nat.le_trans first.le second.le, fun same => ?_⟩
  have := first.le
  have := second.le
  exact both (first.silent (by omega)) (second.silent (by omega))

theorem Grows.imp (first : Grows f g P) (h : P → Q) : Grows f g Q :=
  ⟨first.le, fun same => h (first.silent same)⟩

theorem grows_suppress (f : Findings) (hp : P) : Grows f f.suppress P :=
  ⟨Nat.le_refl _, fun _ => hp⟩

theorem grows_add (f : Findings) (v : Violation) (hp : P) : Grows f (f.add v) P :=
  ⟨Nat.le_refl _, fun _ => hp⟩

/-- An announcement is heard. -/
theorem grows_announce (f : Findings) (v : Violation) (description : String) (old new : Text) :
    Grows f ((f.add v).announce description old new) P := by
  have size : ((f.add v).announce description old new).notices.size = f.notices.size + 1 :=
    Array.size_push _
  exact ⟨by omega, fun same => by omega⟩

end Findings

namespace Pass

open Findings

/-- The pass over the same source without rules. -/
def bare (p : Pass) : Pass := { p with registry := ⟨[], []⟩ }

variable {p : Pass}

theorem grows_applyRowRule (indentChar : Option Char) (number : Nat) (s : RowState)
    (rule : RowRule) :
    Grows s.findings (p.applyRowRule indentChar number s rule).findings
      ((p.applyRowRule indentChar number s rule).row = s.row) := by
  unfold applyRowRule
  simp only
  split
  · exact .refl _ rfl
  · split
    · exact grows_suppress _ rfl
    · split
      · split
        · exact grows_add _ _ rfl
        · exact grows_announce ..
      · exact grows_add _ _ rfl

theorem grows_foldl_applyRowRule (indentChar : Option Char) (number : Nat) (rules : List RowRule)
    (s : RowState) :
    Grows s.findings (rules.foldl (p.applyRowRule indentChar number) s).findings
      ((rules.foldl (p.applyRowRule indentChar number) s).row = s.row) := by
  induction rules generalizing s with
  | nil => exact .refl _ rfl
  | cons rule rules ih =>
      refine (grows_applyRowRule indentChar number s rule).trans (ih _) ?_
      exact fun first rest => rest.trans first

theorem grows_applyStatementRule (line : LogicalLine) (ctx : StatementContext)
    (s : StatementState) (rule : StatementRule) :
    Grows s.findings (p.applyStatementRule line ctx s rule).findings
      ((p.applyStatementRule line ctx s rule).text = s.text ∧
        (p.applyStatementRule line ctx s rule).isRefitted = s.isRefitted) := by
  unfold applyStatementRule
  simp only
  split
  · exact .refl _ ⟨rfl, rfl⟩
  · split
    · exact grows_suppress _ ⟨rfl, rfl⟩
    · split
      · split
        · exact grows_add _ _ ⟨rfl, rfl⟩
        · exact grows_announce ..
      · split
        · exact grows_add _ _ ⟨rfl, rfl⟩
        · exact grows_announce ..
      · exact grows_add _ _ ⟨rfl, rfl⟩

/-- Without an announcement a statement is left as it is. -/
theorem grows_mend (s : CheckState) (line : LogicalLine) :
    Grows s.findings (p.mend s line).findings
      ((p.mend s line).text = line.text ∧ (p.mend s line).isRefitted = false) := by
  have fold (rules : List StatementRule) (ctx : StatementContext) (u : StatementState) :
      Grows u.findings (rules.foldl (p.applyStatementRule line ctx) u).findings
        ((rules.foldl (p.applyStatementRule line ctx) u).text = u.text ∧
          (rules.foldl (p.applyStatementRule line ctx) u).isRefitted = u.isRefitted) := by
    induction rules generalizing u with
    | nil => exact .refl _ ⟨rfl, rfl⟩
    | cons rule rules ih =>
        refine (grows_applyStatementRule line ctx u rule).trans (ih _) ?_
        exact fun first rest => ⟨rest.1.trans first.1, rest.2.trans first.2⟩
  unfold mend
  exact fold _ _ ⟨line.text, max s.blankLines s.blankLinesBeforeComment, false, s.findings⟩

/-- Two states that have written the same and will go on to write the same. -/
structure SameDraft (s t : CheckState) : Prop where
  fixedRows : s.fixedRows = t.fixedRows
  blankLines : s.blankLines = t.blankLines
  pending : s.pending = t.pending
  comments : s.comments = t.comments
  depth : s.depth = t.depth
  run : s.run = t.run
  output : s.output = t.output

/-- Without an announcement `s'` comes from `s` as `f` brings other states with the same draft
    forward. -/
def KeepsDraft (s s' : CheckState) (f : CheckState → CheckState) : Prop :=
  Grows s.findings s'.findings (∀ t, SameDraft s t → SameDraft s' (f t))

theorem KeepsDraft.comp {s s' u : CheckState} {f g : CheckState → CheckState}
    (first : KeepsDraft s s' f) (second : KeepsDraft s' u g) :
    KeepsDraft s u fun t => g (f t) :=
  first.trans second fun h h' t same => h' _ (h t same)

theorem keepsDraft_checkRow (s : CheckState) :
    KeepsDraft s (p.checkRow s) p.bare.checkRow := by
  let number := s.fixedRows.size + 1
  let row := p.rows.row number
  let indentChar := s.indentChar <|> row.head?.filter fun c => c == ' ' || c == '\t'
  have rules := grows_foldl_applyRowRule (p := p) indentChar number p.registry.rowRules
    ⟨row, s.findings⟩
  refine rules.imp fun same t draft => ?_
  refine ⟨?_, draft.blankLines, draft.pending, draft.comments, draft.depth, draft.run,
    draft.output⟩
  show s.fixedRows.push _ = t.fixedRows.push (p.rows.row (t.fixedRows.size + 1))
  rw [same, ← draft.fixedRows]

theorem keepsDraft_foldl_checkRow (l : List Nat) (s : CheckState) :
    KeepsDraft s (l.foldl (fun s _ => p.checkRow s) s)
      fun t => l.foldl (fun t _ => p.bare.checkRow t) t := by
  induction l generalizing s with
  | nil => exact .refl _ fun _ same => same
  | cons n l ih => exact (keepsDraft_checkRow s).comp (ih _)

theorem keepsDraft_checkRowsThrough (row : Nat) (s : CheckState) :
    KeepsDraft s (p.checkRowsThrough row s) (p.bare.checkRowsThrough row) := by
  refine (keepsDraft_foldl_checkRow _ s).imp fun keeps t draft => ?_
  have := keeps t draft
  unfold checkRowsThrough
  rwa [← draft.fixedRows]

theorem keepsDraft_receive (u : Token) (s : CheckState) :
    KeepsDraft s (p.receive s u) fun t => p.bare.receive t u := by
  refine (keepsDraft_checkRowsThrough u.stop.row s).imp fun keeps t draft => ?_
  obtain ⟨rows, blank, pending, comments, depth, run, output⟩ := keeps t draft
  exact ⟨rows, blank, pending, comments, depth, congrArg (·.push u) run, output⟩

theorem mend_bare (t : CheckState) (line : LogicalLine) : p.bare.mend t line =
    ⟨line.text, max t.blankLines t.blankLinesBeforeComment, false, t.findings⟩ := rfl

theorem findings_writeComments (s : CheckState) : (p.writeComments s).findings = s.findings := by
  unfold writeComments
  split <;> rfl

/-- A statement that no rule changes is written as it is. -/
theorem keepsDraft_checkStatement (s : CheckState) :
    KeepsDraft s (p.checkStatement s) p.bare.checkStatement := by
  cases hl : LogicalLine.ofTokens? p.rows s.run.toList with
  | none =>
      have same (t : CheckState) (draft : SameDraft s t) : p.bare.checkStatement t = t :=
        checkStatement_of_none (p := p.bare) (draft.run ▸ hl)
      unfold KeepsDraft
      rw [checkStatement_of_none hl]
      exact .refl _ fun t draft => (same t draft).symm ▸ draft
  | some line =>
      have rules := grows_mend (p := p) s line
      have findings : (p.checkStatement s).findings = (p.mend s line).findings := by
        simp only [checkStatement, hl]
      unfold KeepsDraft
      rw [findings]
      refine rules.imp fun same t draft => ?_
      have hl' : LogicalLine.ofTokens? p.bare.rows t.run.toList = some line := draft.run ▸ hl
      have fits : fitted s (p.mend s line) = (s.comments, s.blankLines) := by
        rw [fitted, same.2]
        rfl
      have fits' : fitted t ⟨line.text, max t.blankLines t.blankLinesBeforeComment, false,
          t.findings⟩ = (t.comments, t.blankLines) := rfl
      obtain ⟨rows, blank, pending, comments, depth, run, output⟩ := draft
      simp only [checkStatement, hl, hl', fits, fits', same.1, mend_bare, writeComments]
      rw [show p.bare.config = p.config from rfl]
      split <;> constructor <;> simp [*]

theorem keepsDraft_flushComment (s : CheckState) :
    KeepsDraft s (p.flushComment s) p.bare.flushComment := by
  have findings : (p.flushComment s).findings = s.findings := by
    unfold flushComment
    split <;> rfl
  unfold KeepsDraft
  rw [findings]
  refine .refl _ fun t draft => ?_
  obtain ⟨rows, blank, pending, comments, depth, run, output⟩ := draft
  simp only [flushComment, pending]
  rw [show p.bare.config = p.config from rfl]
  split
  · exact ⟨rows, blank, pending, comments, depth, run, output⟩
  · constructor <;> simp [*]

theorem keepsDraft_noteComment (u : Token) (isFirst : Bool) (s : CheckState) :
    KeepsDraft s (noteComment u isFirst s) (noteComment u isFirst) := by
  have findings : (noteComment u isFirst s).findings = s.findings := by
    unfold noteComment
    simp only
    split <;> rfl
  unfold KeepsDraft
  rw [findings]
  refine .refl _ fun t draft => ?_
  obtain ⟨rows, blank, pending, comments, depth, run, output⟩ := draft
  unfold noteComment
  simp only [rows, blank, pending]
  split <;> constructor <;> simp [*]

theorem keepsDraft_step (u : Token) (s : CheckState) :
    KeepsDraft s (p.step s u) fun t => p.bare.step t u := by
  have receive := keepsDraft_receive (p := p) u s
  unfold KeepsDraft
  rcases u.endsRun_cases s.depth with ⟨goes, -⟩ | ⟨-, -, kind, closed⟩ | ⟨-, -, ⟨kind, closed⟩ | kind⟩
  · rw [step_of_not_endsRun goes]
    by_cases kind : u.kind = .comment
    · rw [if_pos kind]
      refine (receive.comp (keepsDraft_noteComment u (s.run.size == 0) _)).imp
        fun keeps t draft => ?_
      change SameDraft _ (p.bare.step t u)
      rw [step_of_not_endsRun (draft.depth ▸ goes), if_pos kind, ← draft.run]
      exact keeps t draft
    · rw [if_neg kind]
      refine receive.imp fun keeps t draft => ?_
      change SameDraft _ (p.bare.step t u)
      rw [step_of_not_endsRun (draft.depth ▸ goes), if_neg kind, ← draft.depth]
      obtain ⟨rows, blank, pending, comments, depth, run, output⟩ := keeps t draft
      exact ⟨rows, blank, pending, comments, rfl, run, output⟩
  · rw [step_rowBreak kind closed]
    refine (receive.comp (keepsDraft_flushComment _)).imp fun keeps t draft => ?_
    change SameDraft _ (p.bare.step t u)
    rw [step_rowBreak kind (draft.depth ▸ closed), ← draft.run, ← draft.blankLines]
    obtain ⟨rows, blank, pending, comments, depth, run, output⟩ := keeps t draft
    exact ⟨rows, rfl, pending, comments, depth, rfl, output⟩
  · rw [step_newline kind closed]
    refine (receive.comp (keepsDraft_checkStatement _)).imp fun keeps t draft => ?_
    change SameDraft _ (p.bare.step t u)
    rw [step_newline kind (draft.depth ▸ closed)]
    obtain ⟨rows, blank, pending, comments, depth, run, output⟩ := keeps t draft
    exact ⟨rows, rfl, pending, comments, depth, rfl, output⟩
  · rw [step_endMarker kind]
    refine (receive.comp (keepsDraft_checkStatement _)).imp fun keeps t draft => ?_
    change SameDraft _ (p.bare.step t u)
    rw [step_endMarker kind]
    obtain ⟨rows, blank, pending, comments, depth, run, output⟩ := keeps t draft
    exact ⟨rows, blank, pending, comments, depth, rfl, output⟩

theorem keepsDraft_foldl_step (tokens : List Token) (s : CheckState) :
    KeepsDraft s (tokens.foldl p.step s) fun t => tokens.foldl p.bare.step t := by
  induction tokens generalizing s with
  | nil => exact .refl _ fun _ same => same
  | cons u tokens ih => exact (keepsDraft_step u s).comp (ih _)

/-- A pass that announces nothing writes what the pass without rules writes. -/
theorem fixed_report_of_silent (tokens : List Token)
    (silent : (p.report (p.after tokens)).fixes = []) :
    (p.report (p.after tokens)).fixed = (p.bare.report (p.bare.after tokens)).fixed := by
  have steps := keepsDraft_foldl_step (p := p) tokens .initial
  have rows := steps.comp (keepsDraft_checkRowsThrough (p := p) p.rows.size _)
  have all := rows.comp (keepsDraft_flushComment (p := p) _)
  have none : (p.flushComment
      (p.checkRowsThrough p.rows.size (p.after tokens))).findings.notices.size = 0 := by
    rw [Array.size_eq_zero_iff]
    simpa [report, findings_writeComments] using silent
  have draft : SameDraft (p.flushComment (p.checkRowsThrough p.rows.size (p.after tokens)))
      (p.bare.flushComment (p.bare.checkRowsThrough p.bare.rows.size (p.bare.after tokens))) :=
    all.silent none .initial ⟨rfl, rfl, rfl, rfl, rfl, rfl, rfl⟩
  have config : p.bare.config = p.config := rfl
  simp only [report, writeComments, config]
  split
  · rw [draft.comments, draft.output]
  · rfl

end Pass

end StyleGuide
