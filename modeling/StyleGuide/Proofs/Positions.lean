import StyleGuide.Proofs.Checker.Reading
import StyleGuide.Proofs.LogicalLine.Inside

/-! # Reported positions

Each violation of a report shows a place of the source: an existing row, a column in front of the
terminator of that row, and the row itself.
-/

namespace StyleGuide

/-- The violation shows a place of the source and the row that it is on. -/
structure Violation.IsPlaced (v : Violation) (source : Text) : Prop where
  first : 1 ≤ v.row
  last : v.row ≤ (Text.rows source).length
  column : v.column ≤ ((Rows.ofSource source).shown v.row).length
  sourceLine : v.sourceLine = (Rows.ofSource source).shown v.row

/-- A byte offset between two characters has as many characters in front of it. -/
theorem Text.characterColumn_byteLength {before row : Text} (h : before <+: row) :
    characterColumn row (byteLength before) = before.length := by
  obtain ⟨behind, rfl⟩ := h
  rw [characterColumn]
  split
  · next le =>
      have none : behind = [] := byteLength_eq_zero.mp (by rw [byteLength_append] at le; omega)
      simp [none]
  · rw [takeBytes_byteLength_append]
    exact if_pos rfl

theorem Rows.Inside.characterColumn_le {rows : Rows} {p : Position} (h : rows.Inside p) :
    Text.characterColumn (rows.shown p.row) p.column ≤ (rows.shown p.row).length := by
  obtain ⟨before, start, length⟩ := h
  rw [← length, Text.characterColumn_byteLength start]
  exact start.length_le

section Source

variable {source : Text} {tokens run : List Token} {t u : Token} {l : LogicalLine}

/-- The ends of a known token may be shown. -/
theorem shows_of_isKnown (read : tokenize source = .ok tokens) (ht : t ∈ tokens)
    (known : t.isKnown) :
    (Rows.ofSource source).Shows t.start ∧ (Rows.ofSource source).Shows t.stop := by
  have edged := edged_of_tokenize read t ht known
  obtain ⟨⟨pos, last, -⟩, ⟨pos', last', -⟩, -⟩ :=
    isCut_of_isSolid read ht (Bool.and_eq_true_iff.mp known).1
  have size : (Rows.ofSource source).size = (Text.rows source).length := by simp [Rows.ofSource]
  exact ⟨⟨pos, size ▸ last, edged.start⟩, pos', size ▸ last', edged.stop⟩

theorem isKnown_of_isSpaced (h : isSpaced t) : t.isKnown := by
  simp only [isSpaced, Bool.and_eq_true] at h
  simp [Token.isKnown, Token.isSolid_of_isContent h.1, h.2]

/-- What stands in front of a place on its row may be shown if the place may. -/
theorem Rows.Shows.of_before {rows : Rows} {p q : Position} (h : rows.Shows q)
    (before : rows.Before p q) (row : p.row = q.row) : rows.Shows p := by
  obtain ⟨first, last, x, start, length⟩ := h
  cases before with
  | below below => omega
  | behind hp hq =>
      obtain rfl := hq.unique ⟨start.trans (Text.dropEndWhile_prefix _ _), length⟩
      exact ⟨row ▸ first, row ▸ last, _, (List.prefix_append _ _).trans (row ▸ start), hp.2⟩

/-- The places that rules for statements point at may be shown. -/
theorem shows_of_points (read : tokenize source = .ok tokens) (sub : run <:+: tokens)
    (hl : LogicalLine.ofTokens? (Rows.ofSource source) run = some l) {ctx : StatementContext}
    (text : ctx.text = l.text) (hrun : ctx.tokens = run) {p : Pass}
    (rows : p.rows = Rows.ofSource source) {place : Place} (h : ctx.Points place) :
    (Rows.ofSource source).Shows (p.placeIn l place) := by
  subst hrun
  cases h with
  | offset whole exposed =>
      rw [Pass.placeIn, rows]
      exact LogicalLine.shows_resolve read sub hl (text.symm.trans whole) exposed
  | start mem spaced =>
      exact (shows_of_isKnown read (sub.subset mem) (isKnown_of_isSpaced spaced)).1
  | stop mem spaced =>
      exact (shows_of_isKnown read (sub.subset mem) (isKnown_of_isSpaced spaced)).2
  | comment mem kind =>
      exact (shows_of_isKnown read (sub.subset mem) (Token.isKnown_of_comment kind)).1
  | behind pair content kind row =>
      rename_i t u
      have comment := shows_of_isKnown read (sub.subset (pair.subset (by simp)))
        (Token.isKnown_of_comment kind)
      obtain ⟨q, laid⟩ := laid_of_tokenize read
      obtain ⟨r, r', part⟩ := laid.exists_of_infix (sub.filter Token.isSolid)
      have ordered := part.ordered_filter fun _ => true
      have solid : List.Sublist [t, u] (ctx.tokens.filter Token.isSolid) := by
        have := pair.filter Token.isSolid
        rwa [List.filter_cons_of_pos (Token.isSolid_of_isContent content),
          List.filter_cons_of_pos (Token.isSolid_of_comment kind)] at this
      rw [List.filter_true] at ordered
      exact comment.1.of_before (ordered.before_of_sublist solid) row
  | nowhere mem kind row =>
      have := (shows_of_isKnown read (sub.subset mem) (Token.isKnown_of_comment kind)).1.first
      omega

end Source

namespace Pass

variable {p : Pass} {source : Text} {tokens : List Token} {v : Violation}

theorem isPlaced_of_mem_rowViolations (rows : p.rows = Rows.ofSource source) {number : Nat}
    (first : 1 ≤ number) (last : number ≤ p.rows.size) (hv : v ∈ p.rowViolations number) :
    v.IsPlaced source := by
  obtain ⟨rule, -, found⟩ := List.mem_filterMap.mp hv
  obtain ⟨finding, check, rfl⟩ := Option.map_eq_some_iff.mp found
  obtain ⟨-, before, start, column⟩ := RowRule.points_of_check check
  refine ⟨first, by simpa [rows, Rows.ofSource] using last, ?_, by rw [rows]⟩
  have length := Text.characterColumn_byteLength (start.trans (Text.dropEndWhile_prefix _ _))
  rw [← column] at length
  rw [← rows]
  exact length.trans_le start.length_le

theorem isPlaced_of_mem_statementFound (rows : p.rows = Rows.ofSource source)
    (read : tokenize source = .ok tokens) {s : CheckState} (sub : s.run.toList <:+: tokens)
    (hv : v ∈ p.statementFound s) : v.IsPlaced source := by
  rw [statementFound] at hv
  split at hv
  · cases hv
  · next line hl =>
      obtain ⟨rule, -, found⟩ := List.mem_filterMap.mp hv
      obtain ⟨finding, check, rfl⟩ := Option.map_eq_some_iff.mp found
      rw [rows] at hl
      have shows := shows_of_points read sub hl rfl rfl rows (StatementRule.points_of_check check).2
      refine ⟨shows.first, by simpa [Rows.ofSource] using shows.last, ?_, by rw [rows]⟩
      rw [rows]
      exact shows.inside.characterColumn_le

theorem isPlaced_of_mem_allFound (rows : p.rows = Rows.ofSource source)
    (read : tokenize source = .ok tokens) (hv : v ∈ p.allFound tokens) : v.IsPlaced source := by
  rcases exists_of_mem_allFound hv with ⟨number, first, last, found⟩ | ⟨seen, t, ahead, rfl, found⟩
  · exact isPlaced_of_mem_rowViolations rows first last found
  · exact isPlaced_of_mem_statementFound rows read (p.run_reach_infix seen ahead t) found

end Pass

/-- A check that mends nothing reports only places of the source, whatever its rules and
    settings. -/
theorem isPlaced_of_mem_violations (c : Checker) (reads : c.config.fix = false) {source : Text}
    {tokens : List Token} (read : tokenize source = .ok tokens) :
    ∃ report, c.check source = .ok report ∧
      report.physicalLines = (Text.rows source).length ∧
      ∀ v ∈ report.violations, v.IsPlaced source := by
  refine ⟨_, c.check_of_tokenize read, by simp [Pass.report, Checker.pass, Rows.ofSource], ?_⟩
  rw [((c.pass source).report_of_reading reads tokens).1]
  exact fun v hv => Pass.isPlaced_of_mem_allFound rfl read (List.mem_filter.mp hv).1

/-- Behind a literal over two rows an offset stays on the row where the literal starts, and columns
    count characters. -/
theorem isPlaced_of_literal_over_rows :
    let source := "é = f('''ü\n  ö''' ,\n  [2])  \nif é :\n\tx =1 # ü".toList
    let c : Checker := ⟨.ofFilter .allowAll, { fix := false }⟩
    c.config.fix = false ∧ ∃ tokens, tokenize source = .ok tokens ∧ ∃ report : FileReport,
      c.check source = .ok report ∧ report.physicalLines = 5 ∧
        (∀ v ∈ report.violations, v.IsPlaced source) ∧
        report.violations.map (fun v => (v.code, v.row, v.column)) =
          [(.w291, 3, 6), (.e203, 1, 10), (.e203, 4, 4), (.w292, 5, 9), (.w191, 5, 0),
            (.e101, 5, 0), (.e225, 5, 4), (.e261, 5, 5)] := by
  intro source c
  obtain ⟨tokens, read⟩ : ∃ tokens, (tokenize source).toOption = some tokens :=
    Option.isSome_iff_exists.mp (by decide +kernel)
  have found : (c.check source).toOption.map (fun r =>
      (r.physicalLines, r.violations.map fun v => (v.code, v.row, v.column))) =
        some (5, [(.w291, 3, 6), (.e203, 1, 10), (.e203, 4, 4), (.w292, 5, 9), (.w191, 5, 0),
          (.e101, 5, 0), (.e225, 5, 4), (.e261, 5, 5)]) := by
    decide +kernel
  obtain ⟨report, checked, -, placed⟩ :=
    isPlaced_of_mem_violations c rfl (eq_ok_of_toOption read)
  rw [checked] at found
  obtain ⟨lines, places⟩ := Prod.mk.inj (Option.some.inj found)
  exact ⟨rfl, tokens, eq_ok_of_toOption read, report, checked, lines, placed, places⟩

end StyleGuide
