import StyleGuide.Proofs.Checker.SameTokens
import StyleGuide.Proofs.LogicalLine.Alike
import StyleGuide.Proofs.Rule.Masked
import StyleGuide.Proofs.Statements
import StyleGuide.Proofs.TokenStream.Blocks

/-! # Passes over sources that are alike outside of literals

Two passes with the same rules and settings go side by side over two sources that are alike outside
of literals. They remember the same of each statement, and what the rules for statements find has
the same codes, messages and rows. Only the rule for the indentation of blocks may tell the sources
apart, by their first indented rows.
-/

namespace StyleGuide

/-- Two tokens at the same place in sources that are alike outside of literals. -/
structure Token.Mirrors (rows rows' : Rows) (t u : Token) : Prop
  extends Token.Twin rows rows' t u, Token.Resembles t u

section Tokens

variable {rows rows' : Rows} {p q p' q' : Position} {ts us run run' : List Token}

theorem filter_isSolid_twins (pairs : List.Forall₂ (Token.Twin rows rows') ts us) :
    List.Forall₂ (Token.Twin rows rows') (ts.filter Token.isSolid) (us.filter Token.isSolid) :=
  List.rel_filter (fun _ _ pair => Eq.to_iff (congrArg (· = true) pair.isSolid_eq)) pairs

theorem Token.beginsRow_of_ne {t : Token} (h : t.kind ≠ .comment) : t.beginsRow = false := by
  rw [beginsRow, beq_false_of_ne h, Bool.false_and]

/-- Comments that stand alone on their rows do so in both sources. -/
theorem mirrors_of_aligned (pairs : List.Forall₂ (Token.Twin rows rows') ts us)
    (aligned : Aligned rows rows' p (ts.filter Token.isSolid) (us.filter Token.isSolid))
    (start : Rows.SameBlank rows rows' p) :
    List.Forall₂ (Token.Mirrors rows rows') ts us := by
  induction pairs generalizing p with
  | nil => exact .nil
  | cons twin _ ih =>
      rename_i t u ts us _
      by_cases solid : t.isSolid
      · rw [List.filter_cons_of_pos solid, List.filter_cons_of_pos (twin.isSolid_eq ▸ solid)]
          at aligned
        cases aligned with
        | cons shared _ set set' rest =>
            have here := start.of_shared shared
            refine .cons ⟨twin, twin.isLiteral, ?_⟩ (ih rest (twin.sameBlank set set' here))
            by_cases comment : t.kind = .comment
            · obtain ⟨x, x', held, held', same⟩ := here
              have edged := twin.edged (Token.isKnown_of_comment comment)
              have edged' := twin.edged' (Token.isKnown_of_comment (twin.kind ▸ comment))
              rw [Token.beginsRow, Token.beginsRow, edged.line, edged'.line, ← twin.start,
                held.takeBytes_eq, held'.takeBytes_eq, same, twin.kind]
            · rw [Token.beginsRow_of_ne comment, Token.beginsRow_of_ne (twin.kind ▸ comment)]
      · rw [List.filter_cons_of_neg solid, List.filter_cons_of_neg (twin.isSolid_eq ▸ solid)]
          at aligned
        refine .cons ⟨twin, twin.isLiteral, ?_⟩ (ih aligned start)
        have comment : t.kind ≠ .comment := fun kind => solid (Token.isSolid_of_comment kind)
        rw [Token.beginsRow_of_ne comment, Token.beginsRow_of_ne (twin.kind ▸ comment)]

/-- Where runs begin on rows of their own, their content is aligned behind any earlier row. -/
theorem aligned_of_runs (pairs : List.Forall₂ (Token.Twin rows rows') run run')
    (laid : Laid rows p (run.filter Token.isSolid) q)
    (laid' : Laid rows' p' (run'.filter Token.isSolid) q')
    (above : ∀ t ∈ run, t.isSolid → p.row < t.start.row)
    (above' : ∀ t ∈ run', t.isSolid → p'.row < t.start.row) :
    Aligned rows rows' p (run.filter Token.isContent) (run'.filter Token.isContent) := by
  have twins := filter_isSolid_twins pairs
  have lifted : ∃ r, Laid rows' p (run'.filter Token.isSolid) r := by
    cases hs : run'.filter Token.isSolid with
    | nil => exact ⟨p, .nil⟩
    | cons u us =>
        rw [hs] at laid' twins
        obtain ⟨hu, solid⟩ := List.mem_filter.mp (hs ▸ List.mem_cons_self ..)
        have below := above' u hu solid
        cases hr : run.filter Token.isSolid with
        | nil =>
            rw [hr] at twins
            cases twins
        | cons t ts =>
            rw [hr] at twins
            obtain ⟨ht, solid⟩ := List.mem_filter.mp (hr ▸ List.mem_cons_self ..)
            have lower := above t ht solid
            cases twins with
            | cons twin =>
                cases laid' with
                | cons apart set rest =>
                    cases apart with
                    | below _ opens => exact ⟨_, .cons (.below (twin.start ▸ lower) opens) set rest⟩
                    | behind _ _ row => omega
  obtain ⟨r, lifted⟩ := lifted
  have solid : ∀ t ∈ run.filter Token.isSolid, t.isSolid := fun t ht => (List.mem_filter.mp ht).2
  have aligned := (aligned_of_laid laid lifted twins solid).filter_isContent solid fun _ => id
  rwa [Laid.filter_isSolid_isContent, Laid.filter_isSolid_isContent] at aligned

end Tokens

/-! ## Statements -/

/-- A view of violations that shows no more than codes, messages and rows, and shows nothing of the
    rules for rows and of the rule for the indentation of blocks. -/
structure IsMasked {α : Type} (view : Violation → Option α) : Prop where
  outline : ∀ v w : Violation, v.code = w.code → v.message = w.message → v.row = w.row →
    view v = view w
  row : ∀ (rule : RowRule) (v : Violation), v.code ∈ rule.codes → view v = none
  block : ∀ v : Violation, v.code ∈ StatementRule.blockIndentation.codes → view v = none

namespace Pass

variable {α : Type} {view : Violation → Option α} {p q : Pass} {s s' : CheckState}
  {o : Position} {run run' : List Token} {line line' : LogicalLine} {rows rows' : Rows}

theorem filterMap_rowsFound (masked : IsMasked view) (k n : Nat) :
    (p.rowsFound k n).filterMap view = [] := by
  refine List.filterMap_eq_nil_iff.mpr fun v hv => ?_
  obtain ⟨number, -, found⟩ := List.mem_flatMap.mp hv
  obtain ⟨rule, -, found⟩ := List.mem_filterMap.mp found
  obtain ⟨finding, check, rfl⟩ := Option.map_eq_some_iff.mp found
  exact masked.row rule _ (RowRule.points_of_check check).code

/-- Two passes with the same rules and settings. -/
structure SameRules (p q : Pass) : Prop where
  registry : p.registry = q.registry
  tabSize : p.config.tabSize = q.config.tabSize

theorem indentOf_eq_of_aligned (same : SameRules p q)
    (hl : LogicalLine.ofTokens? p.rows run = some line) (alike : line.Alike line')
    (aligned : Aligned p.rows q.rows o (run.filter Token.isContent) (run'.filter Token.isContent))
    (above : ∀ t ∈ run, t.isSolid → o.row < t.start.row) : p.indentOf line = q.indentOf line' := by
  have below : o.row < line.start.row := by
    obtain ⟨first, rest, content, -⟩ := LogicalLine.exists_of_ofTokens? hl
    obtain ⟨mem, hc⟩ := List.mem_filter.mp (content ▸ List.mem_cons_self ..)
    rw [LogicalLine.start_of_ofTokens? hl content]
    exact above first mem (Token.isSolid_of_isContent hc)
  rw [indentOf, indentOf, ← alike.start_eq, same.tabSize]
  exact LogicalLine.indentLevel_eq_of_aligned hl aligned below _

theorem outline_eq_of_aligned (same : SameRules p q)
    (aligned : Aligned p.rows q.rows o (run.filter Token.isContent) (run'.filter Token.isContent))
    (above : ∀ t ∈ run, t.isSolid → o.row < t.start.row) : p.outline run = q.outline run' := by
  have lines := LogicalLine.ofTokens?_rel aligned
  rw [outline, outline]
  generalize hl : LogicalLine.ofTokens? p.rows run = l at lines ⊢
  generalize LogicalLine.ofTokens? q.rows run' = l' at lines ⊢
  cases lines with
  | none => rfl
  | some alike =>
      rw [Option.map_some, Option.map_some, alike.text,
        indentOf_eq_of_aligned same hl alike aligned above]

/-- A rule finds the same in two statements that are alike, as far as the view shows. -/
theorem statementViolation?_eq_of_resembles (masked : IsMasked view) (alike : line.Alike line')
    {ctx ctx' : StatementContext} (h : ctx.Resembles ctx') (rule : StatementRule) :
    (p.statementViolation? line ctx rule).bind view =
      (q.statementViolation? line' ctx' rule).bind view := by
  by_cases block : rule = .blockIndentation
  · -- what the rule for blocks finds is hidden
    have hidden {p : Pass} {line : LogicalLine} {ctx : StatementContext} :
        (p.statementViolation? line ctx rule).bind view = none := by
      refine Option.bind_eq_none_iff.mpr fun v hv => ?_
      obtain ⟨finding, check, rfl⟩ := Option.map_eq_some_iff.mp hv
      exact masked.block _ (block ▸ (StatementRule.points_of_check check).1)
    rw [hidden, hidden]
  · rw [statementViolation?, statementViolation?, StatementRule.check_eq block h]
    cases rule.check ctx' with
    | none => rfl
    | some finding =>
        refine masked.outline _ _ rfl rfl ?_
        obtain ⟨place, code, message⟩ := finding
        cases place with
        | offset n => exact alike.row_resolve n
        | position q => rfl

theorem statementFound_eq_of_aligned (masked : IsMasked view) (same : SameRules p q)
    (step : InStep (Token.Mirrors p.rows q.rows) s s')
    (aligned : Aligned p.rows q.rows o (s.run.toList.filter Token.isContent)
      (s'.run.toList.filter Token.isContent))
    (above : ∀ t ∈ s.run.toList, t.isSolid → o.row < t.start.row) :
    (p.statementFound s).filterMap view = (q.statementFound s').filterMap view := by
  have lines := LogicalLine.ofTokens?_rel aligned
  rw [statementFound, statementFound]
  generalize hl : LogicalLine.ofTokens? p.rows s.run.toList = l at lines ⊢
  generalize LogicalLine.ofTokens? q.rows s'.run.toList = l' at lines ⊢
  cases lines with
  | none => rfl
  | some alike =>
      rename_i line line'
      have context : (p.contextOf s line).Resembles (q.contextOf s' line') := by
        refine ⟨alike.text, step.run.imp fun _ _ pair => pair.toResembles, ?_, ?_,
          step.indentLevel, step.previous, step.blankLines, step.blankLinesBeforeComment⟩
        · simp only [contextOf, alike.start_eq]
        · exact indentOf_eq_of_aligned same hl alike aligned above
      rw [same.registry, List.filterMap_filterMap, List.filterMap_filterMap]
      exact List.filterMap_congr fun rule _ =>
        statementViolation?_eq_of_resembles masked alike context rule

end Pass

end StyleGuide
