import StyleGuide.Proofs.Checker.Violations
import StyleGuide.Proofs.Positions

/-! # Violations quote their rows

Each violation of a report is on a row of the source and quotes it. This holds of a pass that mends
as well: a rule sees what the rules before it have made of a row or a statement, but what is quoted
is the row of the source.
-/

namespace StyleGuide

/-- The violation is on one of the rows and quotes it. -/
structure Violation.Quotes (v : Violation) (rows : Rows) : Prop where
  first : 1 ≤ v.row
  last : v.row ≤ rows.size
  sourceLine : v.sourceLine = rows.shown v.row

/-- Where the rules point at tokens, the text of the logical line does not matter. -/
theorem StatementContext.Points.withText {ctx : StatementContext} {q : Position}
    (h : ctx.Points (.position q)) (text : Text) : { ctx with text }.Points (.position q) := by
  cases h with
  | start mem spaced => exact .start mem spaced
  | stop mem spaced => exact .stop mem spaced
  | comment mem kind => exact .comment mem kind
  | behind sub content kind row => exact .behind sub content kind row
  | nowhere mem kind row => exact .nowhere mem kind row

namespace Pass

variable {p : Pass} {s : CheckState} {source : Text} {tokens run : List Token} {l : LogicalLine}

theorem quotes_foldl_applyRowRule (char : Option Char) {number : Nat} (first : 1 ≤ number)
    (last : number ≤ p.rows.size) (rules : List RowRule) {u : RowState}
    (h : ∀ v ∈ u.findings.violations, v.Quotes p.rows) :
    ∀ v ∈ (rules.foldl (p.applyRowRule char number) u).findings.violations, v.Quotes p.rows := by
  induction rules generalizing u with
  | nil => exact h
  | cons rule rules ih =>
      refine ih fun v hv => ?_
      rcases p.applyRowRule_cases char number u rule with
        ⟨-, same⟩ | ⟨w, -, -, rfl, line, pushed, -⟩
      · rw [same] at hv
        exact h v hv
      · rw [pushed, Array.mem_push] at hv
        rcases hv with hv | rfl
        · exact h v hv
        · exact ⟨first, last, line⟩

/-- The rules for statements point at rows of the source. -/
theorem row_of_points (read : tokenize source = .ok tokens) (sub : run <:+: tokens)
    (hl : LogicalLine.ofTokens? (Rows.ofSource source) run = some l) {ctx : StatementContext}
    (hrun : ctx.tokens = run) (rows : p.rows = Rows.ofSource source) {place : Place}
    (h : ctx.Points place) :
    1 ≤ (p.placeIn l place).row ∧ (p.placeIn l place).row ≤ p.rows.size := by
  cases place with
  | offset n =>
      obtain ⟨front, as, t, bs, content, -, -, -, place⟩ := LogicalLine.exists_resolve_eq hl n
      have ht : t ∈ run.filter Token.isContent := by rw [content]; simp
      obtain ⟨mem, solid⟩ := List.mem_filter.mp ht
      obtain ⟨pos, last, -⟩ :=
        (isCut_of_isSolid read (sub.subset mem) (Token.isSolid_of_isContent solid)).start
      rw [placeIn, place, rows]
      exact ⟨pos, by simpa [Rows.ofSource] using last⟩
  | position q =>
      have shows : (Rows.ofSource source).Shows (p.placeIn l (.position q)) := by
        refine shows_of_points read sub hl ?_ ?_ rows (h.withText l.text)
        · rfl
        · exact hrun
      exact ⟨shows.first, rows ▸ shows.last⟩

theorem quotes_report (read : tokenize source = .ok tokens) (rows : p.rows = Rows.ofSource source) :
    ∀ v ∈ (p.report (p.after tokens)).violations, v.Quotes p.rows := by
  refine forall_report (fun u _ more h => ?_) tokens fun seen t ahead whole line hl => ?_
  · exact quotes_foldl_applyRowRule _ (Nat.le_add_left 1 _) more _ h
  · refine forall_mend fun text rule v hv => ?_
    obtain ⟨finding, check, rfl⟩ := Option.map_eq_some_iff.mp hv
    have sub := whole ▸ p.run_reach_infix seen ahead t
    obtain ⟨first, last⟩ :=
      row_of_points read sub (rows ▸ hl) rfl rows (StatementRule.points_of_check check).2
    exact ⟨first, last, rfl⟩

end Pass

/-- Whatever a checker reports on a source quotes a row of it. -/
theorem Checker.quotes_of_check {c : Checker} {source : Text} {report : FileReport}
    (h : c.check source = .ok report) :
    ∀ v ∈ report.violations, v.Quotes (Rows.ofSource source) := by
  obtain ⟨tokens, read⟩ := c.tokenize_of_check h
  rw [c.check_of_tokenize read] at h
  obtain rfl := Except.ok.inj h
  exact Pass.quotes_report read rfl

end StyleGuide
