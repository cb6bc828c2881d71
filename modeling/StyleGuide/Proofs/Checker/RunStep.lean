import StyleGuide.Proofs.Checker.Step

/-! # What a run does

The tokens of a run are taken in one after the other, and only the last of them has something
written. Comments in the run that begin a row let the pass forget the blank lines in front of it.
-/

namespace StyleGuide

namespace Pass

variable {p : Pass} {s u : CheckState} {t : Token} {ts : List Token}

theorem fixedRows_checkStatement : SameRows (p.checkStatement s) s := by
  simp only [checkStatement, writeComments]
  split
  · exact ⟨rfl, rfl⟩
  · split <;> exact ⟨rfl, rfl⟩

theorem sameRows_step (s : CheckState) (t : Token) : SameRows (p.step s t) (p.receive s t) := by
  rcases t.endsRun_cases s.depth with ⟨goes, -⟩ | ⟨-, -, kind, closed⟩ | ⟨-, -, ends⟩
  · obtain ⟨k, n, m, step⟩ := exists_step_of_not_endsRun (p := p) goes
    rw [step]
    exact ⟨rfl, rfl⟩
  · rw [step_rowBreak kind closed, flushComment]
    split <;> exact ⟨rfl, rfl⟩
  · obtain ⟨n, m, step⟩ := step_of_statementEnd (p := p) ends
    rw [step]
    obtain ⟨rows, char⟩ := fixedRows_checkStatement (p := p) (s := p.receive s t)
    exact ⟨rows, char⟩

/-- The rows up to the tokens that have been taken in have been checked. -/
structure Reaches (p : Pass) (s : CheckState) (ts : List Token) : Prop where
  track : p.OnTrack s
  reached : ∀ t ∈ ts, min t.stop.row p.rows.size ≤ s.fixedRows.size

theorem reaches_step (h : p.Reaches s ts) (t : Token) : p.Reaches (p.step s t) (ts ++ [t]) := by
  obtain ⟨track, through, more⟩ := h.track.checkRowsThrough t.stop.row
  have same := sameRows_step (p := p) s t
  have size : (p.step s t).fixedRows.size = (p.checkRowsThrough t.stop.row s).fixedRows.size := by
    rw [same.fixedRows]
    rfl
  have received : SameRows (p.receive s t) (p.checkRowsThrough t.stop.row s) := ⟨rfl, rfl⟩
  refine ⟨(track.of_same received).of_same same, fun u hu => ?_⟩
  rw [size]
  rcases List.mem_append.mp hu with hu | hu
  · exact Nat.le_trans (h.reached u hu) more
  · rw [List.mem_singleton.mp hu]
    exact through

theorem reaches_foldl (h : p.Reaches s ts) (us : List Token) :
    p.Reaches (us.foldl p.step s) (ts ++ us) := by
  induction us generalizing s ts with
  | nil => rwa [List.append_nil]
  | cons u us ih =>
      have := ih (reaches_step h u)
      rwa [List.append_assoc] at this

/-- In the row of a token that has been taken in, the checked rows are the mended ones. -/
theorem Reaches.take_eq (h : p.Reaches s ts) (ht : t ∈ ts) :
    s.fixedRows.toList.take t.stop.row = p.mendedRows.toList.take t.stop.row :=
  h.track.take_eq (h.reached t ht)

/-- From `s` to `u` the tokens `ts` have been taken in and nothing has been written. -/
structure Carries (s u : CheckState) (ts : List Token) : Prop where
  run : u.run.toList = s.run.toList ++ ts
  output : u.output = s.output
  comments : u.comments = s.comments
  pending : u.pending = s.pending
  blankLines : u.blankLines = if ts.any Token.beginsRow then 0 else s.blankLines

theorem carries_step (goes : t.endsRun s.depth = false)
    (other : t.kind = .comment → s.run.size ≠ 0) : Carries s (p.step s t) [t] := by
  have blank : (p.receive s t).blankLines = s.blankLines := by
    rw [receive, checkRowsThrough_eq]
  rw [step_of_not_endsRun goes]
  by_cases kind : t.kind = .comment
  · have later : (s.run.size == 0) = false := by simpa using other kind
    rw [if_pos kind, later]
    unfold noteComment
    by_cases first : Text.isAllBlank (Text.takeBytes t.start.column t.line)
    · constructor <;> simp [first, Token.beginsRow, kind]
    · constructor <;> simp [first, Token.beginsRow, blank]
  · rw [if_neg kind]
    have none : t.beginsRow = false := by simp [Token.beginsRow, kind]
    constructor <;> simp [none, blank]

theorem Carries.trans {v : CheckState} {us : List Token} (h : Carries s u ts)
    (h' : Carries u v us) : Carries s v (ts ++ us) where
  run := by rw [h'.run, h.run, List.append_assoc]
  output := h'.output.trans h.output
  comments := h'.comments.trans h.comments
  pending := h'.pending.trans h.pending
  blankLines := by
    rw [h'.blankLines, h.blankLines, List.any_append]
    cases ts.any Token.beginsRow <;> simp

/-- Tokens that end no run are carried along, unless the first of them is a comment. -/
theorem carries_foldl {e : Nat} (goes : Runs.Goes s.depth ts e)
    (other : ∀ t ∈ ts.head?, t.kind = .comment → s.run.size ≠ 0) :
    Carries s (ts.foldl p.step s) ts ∧ (ts.foldl p.step s).depth = e := by
  generalize hd : s.depth = d at goes
  induction goes generalizing s with
  | nil => exact ⟨⟨by simp, rfl, rfl, rfl, rfl⟩, hd⟩
  | cons goes _ ih =>
      rename_i t ts _
      subst hd
      have first := carries_step (p := p) goes (other t rfl)
      have some : (p.step s t).run.size ≠ 0 := by
        rw [← Array.length_toList, first.run]
        simp
      obtain ⟨rest, depth⟩ := ih (fun _ _ _ => some) depth_step
      exact ⟨first.trans rest, depth⟩

/-- Between two runs nothing is collected and no comment waits for the end of its row. -/
structure IsIdle (s : CheckState) : Prop where
  run : s.run = #[]
  pending : s.pending = none

/-- A blank row is counted. -/
theorem step_blank (idle : IsIdle s) (kind : t.kind = .rowBreak) (closed : s.depth = 0) :
    IsIdle (p.step s t) ∧ (p.step s t).output = s.output ∧ (p.step s t).comments = s.comments ∧
      (p.step s t).blankLines = s.blankLines + 1 := by
  have pending : (p.receive s t).pending = none := pending_receive.trans idle.pending
  have flush : p.flushComment (p.receive s t) = p.receive s t := by
    rw [flushComment, pending]
  rw [step_rowBreak kind closed, flush]
  exact ⟨⟨rfl, pending⟩, output_receive, comments_receive, by simp [idle.run]⟩

/-- The end of a row between statements lets the comment on it wait for the next statement. -/
theorem step_flush {w : Comment} (fix : p.config.fix) (kind : t.kind = .rowBreak)
    (closed : s.depth = 0) (pending : s.pending = some w) (some : s.run.size ≠ 0) :
    IsIdle (p.step s t) ∧ (p.step s t).output = s.output ∧
      (p.step s t).comments = s.comments ++ [w] ∧ (p.step s t).blankLines = s.blankLines := by
  have waits : (p.receive s t).pending = .some w := pending_receive.trans pending
  rw [step_rowBreak kind closed]
  simp only [flushComment, waits, fix, if_true, some, if_false]
  exact ⟨⟨rfl, rfl⟩, output_receive, by rw [comments_receive], trivial⟩

/-- A comment row waits with the blank lines in front of it. -/
theorem step_commentRow {c : Token} (fix : p.config.fix) (idle : IsIdle s)
    (comment : c.kind = .comment) (kind : t.kind = .rowBreak) (closed : s.depth = 0)
    (first : Text.isAllBlank (Text.takeBytes c.start.column c.line)) :
    let u := p.step (p.step s c) t
    IsIdle u ∧ u.output = s.output ∧ u.blankLines = 0 ∧ u.comments = s.comments ++
      [⟨s.blankLines, Text.trimEnd ((p.receive s c).fixedRows[c.start.row - 1]?.getD c.line)⟩] := by
  have goes : c.endsRun s.depth = false := by simp [Token.endsRun, comment]
  have blank : (p.receive s c).blankLines = s.blankLines := by
    rw [receive, checkRowsThrough_eq]
  have read : p.step s c = { p.receive s c with
      pending := some ⟨s.blankLines,
        Text.trimEnd ((p.receive s c).fixedRows[c.start.row - 1]?.getD c.line)⟩
      blankLines := 0
      blankLinesBeforeComment :=
        max (p.receive s c).blankLinesBeforeComment s.blankLines } := by
    rw [step_of_not_endsRun goes, if_pos comment]
    simp only [noteComment, idle.run, first, if_true, blank]
    rfl
  have depth : (p.step s c).depth = 0 := by
    rw [read]
    exact depth_receive.trans closed
  have size : (p.step s c).run.size ≠ 0 := by
    rw [read]
    simp
  obtain ⟨idle', output, comments, lines⟩ := step_flush (p := p) fix kind depth (by rw [read]) size
  refine ⟨idle', output.trans ?_, lines.trans (by rw [read]), comments.trans ?_⟩
  · rw [read]
    exact output_receive
  · rw [read]
    simp

/-- A statement is written behind the comments that wait. -/
theorem step_statement {line : LogicalLine} (fix : p.config.fix) (idle : s.pending = none)
    (ends : t.kind = .newline ∧ s.depth = 0 ∨ t.kind = .endMarker)
    (hl : LogicalLine.ofTokens? p.rows (s.run.toList ++ [t]) = some line) :
    let v := p.receive s t
    IsIdle (p.step s t) ∧ (p.step s t).comments = [] ∧
      (t.kind = .newline → (p.step s t).blankLines = 0) ∧
      (p.step s t).output = (s.output ++
        (fitted v (p.mend v line)).1.map Comment.written).push
          (line.written (p.mend v line).text (fitted v (p.mend v line)).2 v.fixedRows) := by
  have here : LogicalLine.ofTokens? p.rows (p.receive s t).run.toList = some line := by
    rw [run_receive, Array.toList_push]
    exact hl
  have waits : (p.receive s t).pending = none := pending_receive.trans idle
  obtain ⟨level, findings, written⟩ := exists_checkStatement fix here
  rcases ends with ⟨kind, closed⟩ | kind
  · rw [step_newline kind closed, written]
    exact ⟨⟨rfl, waits⟩, rfl, fun _ => rfl, by rw [output_receive]⟩
  · rw [step_endMarker kind, written]
    exact ⟨⟨rfl, waits⟩, rfl, by simp [kind], by rw [output_receive]⟩

/-- Marks behind the last statement write nothing. -/
theorem step_marks (idle : s.pending = none) (kind : t.kind = .endMarker)
    (hl : LogicalLine.ofTokens? p.rows (s.run.toList ++ [t]) = none) :
    IsIdle (p.step s t) ∧ (p.step s t).comments = s.comments ∧
      (p.step s t).output = s.output := by
  have here : LogicalLine.ofTokens? p.rows (p.receive s t).run.toList = none := by
    rw [run_receive, Array.toList_push]
    exact hl
  rw [step_endMarker kind, checkStatement_of_none here]
  exact ⟨⟨rfl, pending_receive.trans idle⟩, comments_receive, output_receive⟩

end Pass

end StyleGuide
