import StyleGuide.Proofs.Checker.Reading
import StyleGuide.Proofs.Statements
import StyleGuide.Proofs.TokenStream.Levels

/-! # Two measurements of indentation agree

The tokenizer measures the gap in front of a statement to open and close blocks. The pass measures
it again and remembers the level of the last statement alone. Comment rows and blank rows have no
level, so between two statements the pass remembers the width of the innermost block.
-/

namespace StyleGuide

namespace Pass

variable {p : Pass} {s : CheckState} {t : Token} {seen : List Token} {line : LogicalLine}
  {source : Text} {w : Nat}

@[simp] theorem indentLevel_receive : (p.receive s t).indentLevel = s.indentLevel := by
  rw [receive, checkRowsThrough_eq]

@[simp] theorem indentLevel_flushComment : (p.flushComment s).indentLevel = s.indentLevel := by
  rw [flushComment]
  split <;> rfl

theorem indentLevel_checkStatement (hl : LogicalLine.ofTokens? p.rows s.run.toList = some line) :
    (p.checkStatement s).indentLevel = p.indentOf line := by
  simp only [checkStatement, hl]
  rfl

/-- A statement is as deep as the innermost block behind its first row. -/
theorem indentOf_eq {marks run : List Token} {start : Position} {v : Nat}
    (rows : p.rows = Rows.ofSource source) (tabs : p.config.tabSize = 8)
    (opening : Opening source w marks start v) (begins : BeginsAt run marks start)
    (hl : LogicalLine.ofTokens? p.rows run = some line) : p.indentOf line = v := by
  obtain ⟨first, rest, content, rfl⟩ := begins.exists_content opening.layout
  rw [indentOf, LogicalLine.start_of_ofTokens? hl content, tabs, rows]
  exact opening.level

/-- Where a run ends, the pass remembers the level of the run if it is a statement. -/
theorem indentLevel_step {r : Runs} (rows : p.rows = Rows.ofSource source)
    (tabs : p.config.tabSize = 8) (agrees : Agrees s r)
    (remembers : ∀ w, Levels source r.ended w → s.indentLevel = w)
    (levels : Levels source (r.step t).ended w) : (p.step s t).indentLevel = w := by
  cases ends : t.endsRun s.depth with
  | false =>
      obtain ⟨k, n, m, step⟩ := exists_step_of_not_endsRun (p := p) ends
      rw [Runs.step_of_not_endsRun (agrees.depth ▸ ends)] at levels
      rw [step]
      exact indentLevel_receive.trans (remembers w levels)
  | true =>
      rw [Runs.step_of_endsRun (agrees.depth ▸ ends)] at levels
      rcases levels.concat_cases with
        ⟨kind, before⟩ | ⟨kind, _, marks, start, -, opening, begins⟩
      · have closed : s.depth = 0 := by simpa [Token.endsRun, kind] using ends
        rw [step_rowBreak kind closed]
        simpa using remembers w before
      · have closed : s.depth = 0 := by simpa [Token.endsRun, kind] using ends
        rw [step_newline kind closed]
        have run : (p.receive s t).run.toList = r.current ++ [t] := by
          rw [run_receive, Array.toList_push, agrees.run]
        rw [← run] at begins
        obtain ⟨first, rest, content, -⟩ := begins.exists_content opening.layout
        obtain ⟨line, hl⟩ := exists_line_of_content p.rows content
        exact (indentLevel_checkStatement hl).trans (indentOf_eq rows tabs opening begins hl)

/-- Behind each token the pass remembers the level of the last statement that has ended. -/
theorem indentLevel_after (rows : p.rows = Rows.ofSource source) (tabs : p.config.tabSize = 8)
    (levels : Levels source (Runs.of seen).ended w) : (p.after seen).indentLevel = w := by
  induction seen using List.reverseRecOn generalizing w with
  | nil =>
      cases levels.eq_zero
      rfl
  | append_singleton seen t ih =>
      rw [Runs.of_append] at levels
      rw [after, List.foldl_append]
      exact indentLevel_step rows tabs (p.agrees_after seen).1 (fun _ => ih) levels

end Pass

/-- In an unjoined source without form feeds, and with tab stops at each eighth column, the level
    that the rules see at a statement is the width of the innermost block behind the first row of
    the statement. It is more than the level of the statement before it exactly if the mark of a new
    block stands directly in front of the first content of the statement, and less exactly if the
    mark of the end of one does. -/
theorem indentLevel_matches_blocks {c : Checker} {source : Text} {seen ahead : List Token}
    {t : Token} {line : LogicalLine} (read : tokenize source = .ok (seen ++ t :: ahead))
    (unjoined : IsUnjoined source) (free : '\x0c' ∉ source) (tabs : c.config.tabSize = 8)
    (ends : t.endsStatement ((c.pass source).after seen).depth)
    (hl : LogicalLine.ofTokens? (c.pass source).rows ((c.pass source).reach seen t).run.toList =
      some line) :
    let p := c.pass source
    let ctx := p.contextOf (p.reach seen t) line
    (∃ s, ((Text.rows source).take line.firstRow).foldlM ScanState.feed .initial = .ok s ∧
      ctx.indentLevel = s.indent) ∧
    ∃ before marks first rest, seen ++ [t] = before ++ marks ++ first :: rest ∧
      (p.reach seen t).run.toList = marks ++ first :: rest ∧ first.isContent ∧
      marks.filter Token.isContent = [] ∧
      (ctx.previousIndentLevel < ctx.indentLevel ↔
        (before ++ marks).getLast?.map Token.kind = some .indent) ∧
      (ctx.indentLevel < ctx.previousIndentLevel ↔
        (before ++ marks).getLast?.map Token.kind = some .dedent) := by
  intro p ctx
  obtain ⟨⟨run, depth⟩, -, -⟩ := p.agrees_after seen
  have reached : (p.reach seen t).run.toList = (Runs.of seen).current ++ [t] := by
    rw [Pass.reach, Pass.run_receive, Array.toList_push, run]
  obtain ⟨post, split⟩ := Runs.exists_ended ahead (depth ▸ ends)
  obtain ⟨x, xs, some, of⟩ := LogicalLine.exists_of_ofTokens? hl
  have content : ((Runs.of seen).current ++ [t]).filter Token.isContent ≠ [] := by
    rw [← reached, some]
    exact List.cons_ne_nil x xs
  obtain ⟨w, marks, start, v, levels, opening, begins⟩ :=
    exists_opening_of_tokenize read unjoined free split content
  rw [← reached] at begins
  have level : ctx.indentLevel = v := Pass.indentOf_eq rfl tabs opening begins hl
  have previous : ctx.previousIndentLevel = w :=
    Pass.indentLevel_receive.trans (Pass.indentLevel_after rfl tabs levels)
  have row : line.firstRow = start.row := by
    obtain ⟨y, ys, some', here⟩ := begins.exists_content opening.layout
    obtain ⟨rfl, -⟩ := List.cons.inj (some.symm.trans some')
    exact of.firstRow.trans (congrArg Position.row here)
  obtain ⟨first, rest, whole, solid, -⟩ := begins
  refine ⟨?_, (Runs.of seen).ended.flatten, marks, first, rest, ?_, whole, solid, opening.layout,
    ?_, ?_⟩
  · obtain ⟨s, fed, width⟩ := opening.read
    exact ⟨s, row ▸ fed, level.trans width.symm⟩
  · rw [List.append_assoc, ← whole, reached, ← List.append_assoc, Runs.flatten_of]
  · rw [level, previous, levels.getLast?_append marks (.inl rfl)]
    exact opening.deeper
  · rw [level, previous, levels.getLast?_append marks (.inr rfl)]
    exact opening.outer

/-- A block that was opened with a tab goes on behind a space and a tab. -/
theorem indentLevel_matches_blocks_of_tabs :
    let source := "if a:\n\tif b:\n    \t    c\n\n \n# d\n \te\n".toList
    let p := Checker.pass ⟨⟨RowRule.all, StatementRule.all⟩, { fix := false }⟩ source
    ∃ seen t ahead line, tokenize source = .ok (seen ++ t :: ahead) ∧ IsUnjoined source ∧
      '\x0c' ∉ source ∧ p.config.tabSize = 8 ∧ t.endsStatement (p.after seen).depth ∧
      LogicalLine.ofTokens? p.rows (p.reach seen t).run.toList = some line ∧
      line.firstRow = 7 ∧ (p.contextOf (p.reach seen t) line).indentLevel = 8 ∧
      (p.contextOf (p.reach seen t) line).previousIndentLevel = 12 ∧
      (∃ s, ((Text.rows source).take 7).foldlM ScanState.feed .initial = .ok s ∧ 8 = s.indent) ∧
      ∃ front first rest, seen ++ [t] = front ++ first :: rest ∧ first.isContent ∧
        front.getLast?.map Token.kind = some .dedent := by
  intro source p
  let tokens := (tokenize source).toOption.getD []
  let seen := tokens.take 18
  let t : Token := ⟨.newline, ['\n'], ⟨7, 3⟩, ⟨7, 4⟩, " \te\n".toList⟩
  have read : tokenize source = .ok (seen ++ t :: tokens.drop 19) :=
    eq_ok_of_toOption (by decide +kernel)
  have unjoined : IsUnjoined source := by decide +kernel
  have free : '\x0c' ∉ source := by decide
  have ends : t.endsStatement (p.after seen).depth := by decide +kernel
  obtain ⟨line, hl⟩ :
      ∃ line, LogicalLine.ofTokens? p.rows (p.reach seen t).run.toList = some line :=
    Option.isSome_iff_exists.mp (by decide +kernel)
  have seenLine : (LogicalLine.ofTokens? p.rows (p.reach seen t).run.toList).map
      (fun l => (l.firstRow, p.indentOf l)) = some (7, 8) := by
    decide +kernel
  obtain ⟨first, level⟩ : line.firstRow = 7 ∧ p.indentOf line = 8 := by
    rw [hl] at seenLine
    exact Prod.mk.inj (Option.some.inj seenLine)
  have previous : (p.contextOf (p.reach seen t) line).previousIndentLevel = 12 :=
    show (p.reach seen t).indentLevel = 12 by decide +kernel
  have level : (p.contextOf (p.reach seen t) line).indentLevel = 8 := level
  obtain ⟨width, before, marks, x, rest, whole, -, content, -, -, outer⟩ :=
    indentLevel_matches_blocks read unjoined free rfl ends hl
  rw [level, previous] at outer
  rw [level, first] at width
  exact ⟨seen, t, _, line, read, unjoined, free, rfl, ends, hl, first, level, previous, width,
    _, x, rest, whole, content, outer.mp (by decide)⟩

end StyleGuide
