import StyleGuide.Proofs.Checker.RunStep
import StyleGuide.Proofs.Checker.Silent
import StyleGuide.Proofs.Layout

/-! # No silent change

If no change is announced, the mended source is the source but for white space: blank rows at its
end are dropped, and each row that a run takes alone loses the white space at its end. Statements
over several rows come back as they are.
-/

namespace StyleGuide

/-- What is written for a run that no rule changes. A statement over several rows keeps them as they
    are. -/
def tidiedRun (rows : Rows) (run : List Token) : Text :=
  match ownRows rows run with
  | [n] => Text.tidied (rows.row n)
  | numbers => numbers.flatMap rows.row

/-- What is written for some runs that no rule changes. Blank rows at the end are dropped. -/
def tidiedText (rows : Rows) (runs : List (List Token)) : Text :=
  (runs.rdropWhile fun run => (keptRows rows run).isEmpty).flatMap (tidiedRun rows)

section Tidied

variable {rows : Rows} {run : List Token} {runs : List (List Token)} {t u : Token}
  {line : LogicalLine}

theorem tidiedText_concat_of_none (none : keptRows rows run = []) :
    tidiedText rows (runs ++ [run]) = tidiedText rows runs := by
  rw [tidiedText, List.rdropWhile_concat_pos _ _ _ (by simp [none])]
  rfl

theorem tidiedText_concat_of_kept (kept : keptRows rows run ≠ []) :
    tidiedText rows (runs ++ [run]) = runs.flatMap (tidiedRun rows) ++ tidiedRun rows run := by
  rw [tidiedText, List.rdropWhile_concat_neg _ _ _ (by simpa using kept), List.flatMap_append,
    List.flatMap_singleton]

theorem tidiedRun_of_blank (kind : t.kind = .rowBreak)
    (blank : Text.isAllBlank (rows.row t.start.row)) : tidiedRun rows [t] = ['\n'] := by
  rw [tidiedRun, ownRows_of_blank kind blank]
  exact Text.tidied_of_blank blank

theorem tidiedRun_of_comment (kind : t.kind = .comment) (ends : u.kind = .rowBreak) :
    tidiedRun rows [t, u] = Text.tidied (rows.row t.start.row) := by
  rw [tidiedRun, ownRows_of_comment kind ends]

theorem keptRows_of_blank (kind : t.kind = .rowBreak) : keptRows rows [t] = [] := by
  rw [keptRows, ofTokens?_eq_none (by simp [Token.isContent, kind, Token.Kind.isLayout])]
  rfl

/-- What is written for a statement that has been left as it is, from the rows of the source. -/
theorem written_eq_tidiedRun {p q : Position} (k : Nat)
    (hl : LogicalLine.ofTokens? rows run = some line) (pos : 0 < line.firstRow)
    (le : line.firstRow ≤ line.lastRow)
    (last : ∃ t, run.getLast? = some t ∧ t.kind ≠ .rowBreak)
    (fills : line.isSingleRow → FillsRow rows run line.firstRow)
    (laid : Laid rows p (run.filter Token.isSolid) q) (above : p.row < line.firstRow) :
    line.written line.text k rows = List.replicate k '\n' ++ tidiedRun rows run := by
  have own : ownRows rows run = line.rowNumbers := by
    rw [ownRows_of_ends last, keptRows_of_statement hl]
  by_cases single : line.isSingleRow
  · have same : line.lastRow = line.firstRow := (beq_iff_eq.mp single).symm
    rw [LogicalLine.written_of_fillsRow k hl single laid above (fills single)
      (by rw [Rows.row, if_neg (by omega)]), tidiedRun, own, LogicalLine.rowNumbers, same,
      Nat.add_sub_cancel_left]
    rfl
  · have lt : line.firstRow < line.lastRow := by
      have : line.firstRow ≠ line.lastRow := by simpa [LogicalLine.isSingleRow] using single
      omega
    have several : tidiedRun rows run = line.rowNumbers.flatMap rows.row := by
      rw [tidiedRun, own]
      split
      · next n one =>
          have := congrArg List.length one
          simp only [LogicalLine.rowNumbers, List.length_range', List.length_singleton] at this
          omega
      · rfl
    rw [several, LogicalLine.written, if_neg single, LogicalLine.flatten_extract rows pos]

end Tidied

namespace Pass

variable {p : Pass}

/-- Without rules the rows stay as they are. -/
theorem mendedRows_bare : p.bare.mendedRows = p.rows := by
  have rows (n : Nat) : n ≤ p.rows.size →
      (p.bare.checkedRows n).fixedRows.toList = p.rows.toList.take n := by
    induction n with
    | zero => simp [checkedRows, CheckState.initial]
    | succ n ih =>
        intro le
        have next : p.bare.rows.row (n + 1) = p.rows[n] := by
          rw [Rows.row, if_neg (Nat.succ_ne_zero n), Nat.add_sub_cancel,
            show p.bare.rows = p.rows from rfl, Array.getElem?_eq_getElem le]
          rfl
        have push : (p.bare.checkRow (p.bare.checkedRows n)).fixedRows =
            (p.bare.checkedRows n).fixedRows.push
              (p.bare.rows.row ((p.bare.checkedRows n).fixedRows.size + 1)) := rfl
        rw [checkedRows_succ, push, Array.toList_push, ih (by omega), size_checkedRows, next,
          List.take_succ_eq_append_getElem (show n < p.rows.toList.length from le),
          Array.getElem_toList]
  refine Array.toList_inj.mp ?_
  rw [mendedRows, show p.bare.rows = p.rows from rfl, rows _ (Nat.le_refl _), ← Array.length_toList,
    List.take_length]

/-- Between two runs of a pass without rules: what has been written and what waits is the text of
    the runs `done`, but for the blank rows behind them. The next run begins with row `a`. -/
structure Rests (p : Pass) (done : List (List Token)) (a : Nat) (s : CheckState) : Prop where
  idle : IsIdle s
  reaches : p.bare.Reaches s done.flatten
  text : s.output.toList.flatten ++ (s.comments.map Comment.written).flatten =
    tidiedText p.rows done
  blank : tidiedText p.rows done ++ List.replicate s.blankLines '\n' =
    done.flatMap (tidiedRun p.rows)
  behind : s.blankLines ≠ 0 → 1 < a ∧ Text.isAllBlank (p.rows.row (a - 1))

section Steps

variable {done : List (List Token)} {a : Nat} {s : CheckState} {t c : Token} {ts : List Token}

theorem rests_initial : p.Rests [] 1 .initial where
  idle := ⟨rfl, rfl⟩
  reaches := ⟨OnTrack.initial, nofun⟩
  text := rfl
  blank := rfl
  behind := fun some => absurd rfl some

theorem Rests.step_blank (h : p.Rests done a s) (kind : t.kind = .rowBreak) (closed : s.depth = 0)
    (pos : 0 < a) (row : t.start.row = a) (blank : Text.isAllBlank (p.rows.row a)) :
    p.Rests (done ++ [[t]]) (a + 1) (p.bare.step s t) := by
  obtain ⟨idle, output, comments, lines⟩ := Pass.step_blank (p := p.bare) h.idle kind closed
  have kept : keptRows p.rows [t] = [] := keptRows_of_blank kind
  refine ⟨idle, ?_, ?_, ?_, fun _ => ⟨by omega, blank⟩⟩
  · simpa using reaches_step h.reaches t
  · rw [output, comments, tidiedText_concat_of_none kept, h.text]
  · rw [lines, tidiedText_concat_of_none kept, List.replicate_succ', ← List.append_assoc, h.blank,
      List.flatMap_append, List.flatMap_singleton, tidiedRun_of_blank kind (row ▸ blank)]

/-- The row of a token that has been taken in is as it is in the source. -/
theorem getElem?_fixedRows {seen : List Token} {n : Nat} (h : p.bare.Reaches s seen) (ht : t ∈ seen)
    (lt : n < t.stop.row) : s.fixedRows[n]? = p.rows[n]? := by
  have take := h.take_eq ht
  rw [mendedRows_bare] at take
  rw [← Array.getElem?_toList, ← Array.getElem?_toList, ← List.getElem?_take_of_lt lt, take,
    List.getElem?_take_of_lt lt]

theorem Rests.step_comment (fix : p.config.fix) (h : p.Rests done a s) (comment : c.kind = .comment)
    (ends : t.kind = .rowBreak) (closed : s.depth = 0) (on : c.IsOn a) (pos : 0 < a)
    (le : a ≤ p.rows.size) (first : c.beginsRow) :
    p.Rests (done ++ [[c, t]]) (a + 1) (p.bare.step (p.bare.step s c) t) := by
  have front : Text.isAllBlank (Text.takeBytes c.start.column c.line) := by
    simp only [Token.beginsRow, Bool.and_eq_true] at first
    exact first.2
  obtain ⟨idle, output, lines, comments⟩ :=
    step_commentRow (p := p.bare) fix h.idle comment ends closed front
  have kept : keptRows p.rows [c, t] ≠ [] := by simp [keptRows_of_comment comment ends]
  have reaches := reaches_step h.reaches c
  have row : (p.bare.receive s c).fixedRows[c.start.row - 1]?.getD c.line = p.rows.row a := by
    rw [← (sameRows_step (p := p.bare) s c).fixedRows,
      getElem?_fixedRows reaches (t := c) (by simp) (by rw [on.1, on.2]; omega), on.1, Rows.row,
      if_neg (by omega), Array.getElem?_eq_getElem (by omega)]
    rfl
  refine ⟨idle, by simpa using reaches_step reaches t, ?_, ?_, fun some => absurd lines some⟩
  · rw [output, comments, row, tidiedText_concat_of_kept kept, ← h.blank, ← h.text,
      tidiedRun_of_comment comment ends, on.1]
    simp [Comment.written, Text.tidied]
  · rw [lines, tidiedText_concat_of_kept kept, List.flatMap_append, List.flatMap_singleton]
    simp

/-- A statement is written as it is behind the blank rows in front of it, whichever token ends
    it. -/
theorem Rests.written_statement {line : LogicalLine} {e : Nat} (fix : p.config.fix)
    (h : p.Rests done a s) (goes : Runs.Goes s.depth ts e)
    (ends : t.kind = .newline ∧ e = 0 ∨ t.kind = .endMarker)
    (head : ∀ u ∈ ts.head?, u.kind ≠ .comment)
    (hl : LogicalLine.ofTokens? p.rows (ts ++ [t]) = some line) (start : line.firstRow = a)
    (le : a ≤ line.lastRow) (pos : 0 < a)
    (apart : s.blankLines = 0 ∨ ∀ u ∈ ts, u.beginsRow = false)
    (written : ∀ k, line.written line.text k p.rows =
      List.replicate k '\n' ++ tidiedRun p.rows (ts ++ [t])) :
    let u := (ts ++ [t]).foldl p.bare.step s
    IsIdle u ∧ u.depth = e ∧ (t.kind = .newline → u.blankLines = 0) ∧ u.comments = [] ∧
      p.bare.Reaches u (done ++ [ts ++ [t]]).flatten ∧
      u.output.toList.flatten = tidiedText p.rows (done ++ [ts ++ [t]]) := by
  have other : ∀ u ∈ ts.head?, u.kind = .comment → s.run.size ≠ 0 :=
    fun u hu kind => absurd kind (head u hu)
  obtain ⟨carries, depth⟩ := carries_foldl (p := p.bare) goes other
  have reaches := reaches_foldl h.reaches (ts ++ [t])
  rw [List.foldl_append] at reaches ⊢
  simp only [List.foldl_cons, List.foldl_nil] at reaches ⊢
  generalize ts.foldl p.bare.step s = w at carries depth reaches
  have run : w.run.toList = ts := by rw [carries.run, h.idle.run]; rfl
  have lines : w.blankLines = s.blankLines := by
    rw [carries.blankLines]
    split
    · next some =>
        refine (apart.resolve_right fun none => ?_).symm
        obtain ⟨u, hu, begins⟩ := List.any_eq_true.mp some
        rw [none u hu] at begins
        cases begins
    · rfl
  have hl' : LogicalLine.ofTokens? p.bare.rows (w.run.toList ++ [t]) = some line := by
    rw [run]
    exact hl
  obtain ⟨idle, comments, none, output⟩ := step_statement (p := p.bare) fix
    (carries.pending.trans h.idle.pending) (ends.imp_left fun ⟨kind, zero⟩ => ⟨kind, depth.trans zero⟩)
    hl'
  have kept : keptRows p.rows (ts ++ [t]) ≠ [] := by
    rw [keptRows_of_statement hl, LogicalLine.rowNumbers, ne_eq, List.range'_eq_nil_iff]
    omega
  have same : line.written line.text s.blankLines (p.bare.receive w t).fixedRows =
      line.written line.text s.blankLines p.rows := by
    refine LogicalLine.written_congr ?_ (by omega) (by omega)
    rcases LogicalLine.exists_lastRow hl with zero | ⟨u, hu, -, lastRow⟩
    · omega
    · rw [← lastRow, ← (sameRows_step (p := p.bare) w t).fixedRows,
        reaches.take_eq (List.mem_append_right _ hu), mendedRows_bare]
  have fits : fitted (p.bare.receive w t) (p.bare.mend (p.bare.receive w t) line) =
      (s.comments, s.blankLines) := by
    rw [← carries.comments, ← lines, receive, checkRowsThrough_eq]
    rfl
  have other : t.kind ≠ .operator := by
    rcases ends with ⟨kind, -⟩ | kind <;> simp [kind]
  refine ⟨idle, ?_, none, comments, ?_, ?_⟩
  · rw [depth_step, Runs.depthBehind_of_kind other, depth]
  · rw [List.flatten_append, List.flatten_singleton]
    exact reaches
  · rw [output, fits, mend_bare, same, written, carries.output, tidiedText_concat_of_kept kept,
      ← h.blank, ← h.text]
    simp

/-- What is known of a run apart from the rows that it takes. -/
structure IsSettled (rows : Rows) (run : List Token) : Prop where
  tidy : IsTidy run
  comments : ∀ t ∈ run, t.kind = .comment → t.start.row ≤ rows.size
  fills : ∀ line, LogicalLine.ofTokens? rows run = some line → line.isSingleRow →
    FillsRow rows run line.firstRow
  apart : loneComment? run = none → (∃ t ∈ run, t.beginsRow) →
    ∀ n ∈ (ownRows rows run).head?, n ≤ 1 ∨ ¬Text.isAllBlank (rows.row (n - 1))
  laid : ∀ line, LogicalLine.ofTokens? rows run = some line →
    ∃ p q, Laid rows p (run.filter Token.isSolid) q ∧ p.row < line.firstRow

/-- A statement of a regular source is written as it is. -/
theorem Rests.written_run {line : LogicalLine} {e : Nat} (fix : p.config.fix)
    (h : p.Rests done a s) (goes : Runs.Goes s.depth ts e)
    (ends : t.kind = .newline ∧ e = 0 ∨ t.kind = .endMarker)
    (hl : LogicalLine.ofTokens? p.rows (ts ++ [t]) = some line) (start : line.firstRow = a)
    (le : a ≤ line.lastRow) (pos : 0 < a) (settled : IsSettled p.rows (ts ++ [t])) :
    let u := (ts ++ [t]).foldl p.bare.step s
    IsIdle u ∧ u.depth = e ∧ (t.kind = .newline → u.blankLines = 0) ∧ u.comments = [] ∧
      p.bare.Reaches u (done ++ [ts ++ [t]]).flatten ∧
      u.output.toList.flatten = tidiedText p.rows (done ++ [ts ++ [t]]) := by
  have other : t.kind ≠ .rowBreak := by
    rcases ends with ⟨kind, -⟩ | kind <;> simp [kind]
  have last : ∃ u, (ts ++ [t]).getLast? = some u ∧ u.kind ≠ .rowBreak := ⟨t, by simp, other⟩
  have own : a ∈ (ownRows p.rows (ts ++ [t])).head? := by
    rw [ownRows_of_ends last, keptRows_of_statement hl, LogicalLine.rowNumbers, start]
    rw [show line.lastRow + 1 - a = line.lastRow - a + 1 by omega, List.range'_succ]
    rfl
  obtain ⟨_, _, laid, above⟩ := settled.laid line hl
  refine h.written_statement fix goes ends (settled.tidy.head?_ne_comment other) hl start le pos ?_
    fun k => written_eq_tidiedRun k hl (by omega) (by omega) last (settled.fills line hl) laid above
  by_cases some : s.blankLines = 0
  · exact .inl some
  · refine .inr fun u hu => ?_
    obtain ⟨lt, blank⟩ := h.behind some
    by_contra begins
    have := settled.apart (loneComment?_eq_none last)
      ⟨u, List.mem_append_left _ hu, by simpa using begins⟩ a own
    rcases this with first | nonblank
    · omega
    · exact nonblank blank

/-- The runs of a regular source are written one after the other. -/
theorem Rests.written_runs {runs : List (List Token)} {b : Nat} (fix : p.config.fix)
    (layout : Layout p.rows a runs b) (splits : Runs.Splits s.depth runs) (h : p.Rests done a s)
    (pos : 0 < a) (settled : ∀ run ∈ runs, IsSettled p.rows run) :
    let u := runs.flatten.foldl p.bare.step s
    u.pending = none ∧ u.output.toList.flatten ++ (u.comments.map Comment.written).flatten =
      tidiedText p.rows (done ++ runs) := by
  induction layout generalizing done s with
  | nil => exact ⟨h.idle.pending, by rw [List.append_nil]; exact h.text⟩
  | @blank a b t runs kind row blank rest ih =>
      have later : ∀ run ∈ runs, IsSettled p.rows run :=
        fun run hr => settled run (List.mem_cons_of_mem _ hr)
      obtain ⟨ts, u, e, run, goes, ends, more⟩ := splits.exists_cons
      obtain ⟨rfl, rfl⟩ : [] = ts ∧ t = u := by
        have parts := List.append_inj' (show [] ++ [t] = ts ++ [u] from run) rfl
        exact ⟨parts.1, (List.cons.inj parts.2).1⟩
      cases goes
      have closed : s.depth = 0 := by simpa [Token.endsRun, kind] using ends
      have depth : (p.bare.step s t).depth = s.depth := by
        rw [depth_step, Runs.depthBehind_of_kind (by simp [kind])]
      rw [List.append_cons done, List.flatten_cons, List.foldl_append]
      exact ih (depth ▸ more) (h.step_blank kind closed pos row blank) (by omega) later
  | @comment a b c t runs kind ends on first rest ih =>
      have later : ∀ run ∈ runs, IsSettled p.rows run :=
        fun run hr => settled run (List.mem_cons_of_mem _ hr)
      have size := (settled _ (List.mem_cons_self ..)).comments c (List.mem_cons_self ..) kind
      obtain ⟨ts, u, e, run, goes, ended, more⟩ := splits.exists_cons
      obtain ⟨rfl, rfl⟩ : [c] = ts ∧ t = u := by
        have parts := List.append_inj' (show [c] ++ [t] = ts ++ [u] from run) rfl
        exact ⟨parts.1, (List.cons.inj parts.2).1⟩
      have same := Runs.depthBehind_of_kind (t := c) (by simp [kind]) s.depth
      obtain rfl : e = s.depth := by
        cases goes with
        | cons _ rest =>
            cases rest
            exact same
      have closed : s.depth = 0 := by simpa [Token.endsRun, ends] using ended
      have depth : (p.bare.step (p.bare.step s c) t).depth = s.depth := by
        rw [depth_step, depth_step, same, Runs.depthBehind_of_kind (by simp [ends])]
      rw [List.append_cons done, List.flatten_cons, List.foldl_append]
      exact ih (depth ▸ more) (h.step_comment fix kind ends closed on pos (on.1 ▸ size) first)
        (by omega) later
  | @statement a b run line runs hl start le last rest ih =>
      have later : ∀ run ∈ runs, IsSettled p.rows run :=
        fun run hr => settled run (List.mem_cons_of_mem _ hr)
      obtain ⟨ts, t, e, rfl, goes, ends, more⟩ := splits.exists_cons
      obtain ⟨u, hu, kind⟩ := last
      obtain rfl : t = u := by simpa using hu
      have zero : e = 0 := by simpa [Token.endsRun, kind] using ends
      obtain ⟨idle, depth, lines, none, reaches, text⟩ := h.written_run fix goes (.inl ⟨kind, zero⟩)
        hl start le pos (settled _ (List.mem_cons_self ..))
      have kept : keptRows p.rows (ts ++ [t]) ≠ [] := by
        rw [keptRows_of_statement hl, LogicalLine.rowNumbers, ne_eq, List.range'_eq_nil_iff]
        omega
      have rests : p.Rests (done ++ [ts ++ [t]]) (line.lastRow + 1)
          ((ts ++ [t]).foldl p.bare.step s) := by
        refine ⟨idle, reaches, ?_, ?_, fun some => absurd (lines kind) some⟩
        · rw [none, text]
          simp
        · rw [lines kind, tidiedText_concat_of_kept kept, List.flatMap_append,
            List.flatMap_singleton]
          simp
      rw [List.append_cons done, List.flatten_cons, List.foldl_append]
      exact ih (depth.symm ▸ more) rests (by omega) later
  | @last a run line hl start le last =>
      obtain ⟨ts, t, e, rfl, goes, ends, -⟩ := splits.exists_cons
      obtain ⟨u, hu, kind⟩ := last
      obtain rfl : t = u := by simpa using hu
      obtain ⟨idle, -, -, none, -, text⟩ := h.written_run fix goes (.inr kind) hl start le pos
        (settled _ (List.mem_cons_self ..))
      rw [List.flatten_singleton]
      exact ⟨idle.pending, by rw [none, text]; simp⟩
  | @marks a run none last =>
      obtain ⟨ts, t, e, rfl, goes, ends, -⟩ := splits.exists_cons
      obtain ⟨u, hu, kind⟩ := last
      obtain rfl : t = u := by simpa using hu
      have other : t.kind ≠ .rowBreak := by simp [kind]
      have head := (settled _ (List.mem_cons_self ..)).tidy.head?_ne_comment other
      obtain ⟨carries, -⟩ := carries_foldl (p := p.bare) goes
        fun u hu kind => absurd kind (head u hu)
      have kept : keptRows p.rows (ts ++ [t]) = [] := by
        rw [keptRows, loneComment?_eq_none ⟨t, by simp, other⟩, none]
      rw [List.flatten_singleton, List.foldl_append]
      simp only [List.foldl_cons, List.foldl_nil]
      have run : (ts.foldl p.bare.step s).run.toList = ts := by
        rw [carries.run, h.idle.run]
        rfl
      obtain ⟨idle, comments, output⟩ := step_marks (p := p.bare)
        (carries.pending.trans h.idle.pending) kind (by rw [run]; exact none)
      refine ⟨idle.pending, ?_⟩
      rw [comments, output, carries.comments, carries.output, tidiedText_concat_of_none kept, h.text]

end Steps

end Pass

/-- Each row that a run takes alone has no white space at its end but one newline, and the last row
    is not blank. -/
structure IsNeat (rows : Rows) (runs : List (List Token)) : Prop where
  tidied : ∀ run ∈ runs, ∀ n, ownRows rows run = [n] → rows.row n = Text.tidied (rows.row n)
  last : rows.size ≠ 0 → ¬Text.isAllBlank (rows.row rows.size)

section Source

variable {c : Checker} {source : Text} {tokens : List Token}

/-- The run of a row that it does not keep is a blank row. -/
theorem exists_of_keptRows_eq_nil {rows : Rows} {run : List Token} {n : Nat}
    (own : n ∈ ownRows rows run) (none : keptRows rows run = []) :
    ∃ t, run = [t] ∧ t.kind = .rowBreak ∧ t.start.row = n := by
  rw [ownRows, none] at own
  split at own
  · next m blank =>
      unfold blankRow? at blank
      split at blank
      · next t =>
          split at blank
          · next kind =>
              obtain rfl := Option.some.inj blank
              split at own
              · exact ⟨t, rfl, kind, (List.mem_singleton.mp own).symm⟩
              · cases own
          · cases blank
      · cases blank
  · cases own

theorem isSettled_of_tokenize (read : tokenize source = .ok tokens)
    (regular : IsRegular (Rows.ofSource source) (Runs.of tokens).ended) :
    ∀ run ∈ (Runs.of tokens).ended, Pass.IsSettled (Rows.ofSource source) run := by
  obtain ⟨_, spans, closed, -⟩ := spans_of_tokenize read
  obtain ⟨q, laid⟩ := laid_of_tokenize read
  have kept (n : Nat) (nonblank : ¬Text.isAllBlank ((Rows.ofSource source).row n)) :
      ∃ run ∈ (Runs.of tokens).ended, n ∈ keptRows (Rows.ofSource source) run := by
    rcases regular.owned n with gap | ⟨run, hr, own⟩
    · refine absurd (List.all_eq_true.mpr fun c hc => ?_) nonblank
      exact Lexeme.isBlank_of_isGap (gap c hc)
    · exact ⟨run, hr, mem_keptRows_of_ownRows own nonblank⟩
  have whole := Runs.flatten_of tokens
  rw [closed, List.append_nil] at whole
  intro run hr
  refine ⟨isTidy_of_kept read kept hr, fun t ht kind => ?_, regular.single run hr,
    regular.apart run hr, spans.exists_laid (whole.symm ▸ laid) Nat.one_pos run hr⟩
  have mem : t ∈ tokens := (Runs.infix_of_mem_ended hr).subset ht
  obtain ⟨-, -, le, -⟩ := place_of_comment read mem kind
  exact le

/-- In a regular source the runs take the rows one after the other, and behind them there is no
    more than a gap. -/
theorem exists_ownRows_eq (read : tokenize source = .ok tokens)
    (regular : IsRegular (Rows.ofSource source) (Runs.of tokens).ended) :
    ∃ m, (Runs.of tokens).ended.flatMap (ownRows (Rows.ofSource source)) = List.range' 1 m ∧
      ∀ n, m < n → ∀ c ∈ (Rows.ofSource source).row n, Lexeme.isGap c := by
  obtain ⟨e, layout⟩ := layout_of_tokenize read regular.owned regular.filled
  obtain ⟨le, own⟩ := layout.ownRows_eq
  refine ⟨e - 1, own, fun n lt => (regular.owned n).resolve_right ?_⟩
  rintro ⟨run, hr, mem⟩
  have := List.mem_flatMap.mpr ⟨run, hr, mem⟩
  rw [own, List.mem_range'_1] at this
  omega

/-- A neat source is the text of its runs. -/
theorem tidiedText_of_isNeat (read : tokenize source = .ok tokens)
    (regular : IsRegular (Rows.ofSource source) (Runs.of tokens).ended)
    (neat : IsNeat (Rows.ofSource source) (Runs.of tokens).ended) :
    tidiedText (Rows.ofSource source) (Runs.of tokens).ended = source := by
  obtain ⟨m, own, gaps⟩ := exists_ownRows_eq read regular
  let rows := Rows.ofSource source
  let runs := (Runs.of tokens).ended
  have blank_of_gap {n : Nat} (gap : ∀ c ∈ rows.row n, Lexeme.isGap c) :
      Text.isAllBlank (rows.row n) :=
    List.all_eq_true.mpr fun c hc => Lexeme.isBlank_of_isGap (gap c hc)
  have size : rows.size ≤ m := by
    by_contra short
    exact neat.last (fun (zero : rows.size = 0) => by omega)
      (blank_of_gap (gaps rows.size (by omega)))
  have tidied (run : List Token) (hr : run ∈ runs) :
      tidiedRun rows run = (ownRows rows run).flatMap rows.row := by
    rw [tidiedRun]
    split
    · next n one => rw [one, List.flatMap_singleton, ← neat.tidied run hr n one]
    · rfl
  have all : runs.flatMap (tidiedRun rows) = source := by
    rw [List.flatMap_congr tidied, ← List.flatMap_assoc, own, Rows.flatMap_row, List.drop_zero,
      List.take_of_length_le (by simpa using size)]
    exact Text.flatten_rows source
  let quiet (run : List Token) : Bool := (keptRows rows run).isEmpty
  have parts : runs.rdropWhile quiet ++ runs.rtakeWhile quiet = runs :=
    List.rdropWhile_append_rtakeWhile
  -- A dropped run would be a blank row behind the last row of the source, which is not blank.
  have dropped : ∀ run ∈ runs.rtakeWhile quiet, ownRows rows run = [] := by
    intro run hr
    by_contra some
    obtain ⟨n, mem⟩ := List.exists_mem_of_ne_nil _ some
    have none (run : List Token) (hr : run ∈ runs.rtakeWhile quiet) : keptRows rows run = [] := by
      have : quiet run := List.mem_rtakeWhile_imp hr
      exact List.isEmpty_iff.mp this
    obtain ⟨t, rfl, kind, row⟩ := exists_of_keptRows_eq_nil mem (none run hr)
    have hrun : [t] ∈ runs := parts ▸ List.mem_append_right _ hr
    have ht : t ∈ tokens := (Runs.infix_of_mem_ended hrun).subset (List.mem_singleton_self t)
    have le : n ≤ rows.size := row ▸ row_le_size read ht (.inr kind)
    have first : 1 ≤ n := by
      have := List.mem_flatMap.mpr ⟨[t], hrun, mem⟩
      rw [own, List.mem_range'_1] at this
      exact this.1
    have nonblank := neat.last (show rows.size ≠ 0 by omega)
    rcases regular.owned rows.size with gap | ⟨last, hl, ownLast⟩
    · exact nonblank (blank_of_gap gap)
    · have kept := mem_keptRows_of_ownRows ownLast nonblank
      have before : last ∈ runs.rdropWhile quiet := by
        have hl : last ∈ runs.rdropWhile quiet ++ runs.rtakeWhile quiet := parts.symm ▸ hl
        refine (List.mem_append.mp hl).resolve_right fun late => ?_
        rw [none last late] at kept
        cases kept
      have sorted : ((runs.rdropWhile quiet ++ runs.rtakeWhile quiet).flatMap
          (ownRows rows)).Pairwise (· < ·) := by
        rw [parts, own]
        exact List.pairwise_lt_range'
      rw [List.flatMap_append] at sorted
      have lt := (List.pairwise_append.mp sorted).2.2 _
        (List.mem_flatMap.mpr ⟨last, before, ownLast⟩) n (List.mem_flatMap.mpr ⟨[t], hr, mem⟩)
      omega
  have nothing : (runs.rtakeWhile quiet).flatMap (tidiedRun rows) = [] := by
    refine List.flatMap_eq_nil_iff.mpr fun run hr => ?_
    rw [tidied run (parts ▸ List.mem_append_right _ hr), dropped run hr]
    rfl
  rw [← parts, List.flatMap_append, nothing, List.append_nil] at all
  exact all

/-- If no change is announced, the mended text of a regular source is the text of its runs, which
    take all rows of the source in order. Of a neat source it is the source itself. -/
theorem fixed_of_silent (fix : c.config.fix) (read : tokenize source = .ok tokens)
    (regular : IsRegular (Rows.ofSource source) (Runs.of tokens).ended) :
    let rows := Rows.ofSource source
    let runs := (Runs.of tokens).ended
    ∃ report, c.check source = .ok report ∧ (report.fixes = [] →
      report.fixed = some (tidiedText rows runs) ∧
      (∃ m, runs.flatMap (ownRows rows) = List.range' 1 m ∧
        ∀ n, m < n → ∀ c ∈ rows.row n, Lexeme.isGap c) ∧
      (IsNeat rows runs → report.fixed = some source)) := by
  intro rows runs
  refine ⟨_, c.check_of_tokenize read, fun silent => ?_⟩
  obtain ⟨_, spans, closed, -⟩ := spans_of_tokenize read
  obtain ⟨e, layout⟩ := layout_of_tokenize read regular.owned regular.filled
  have whole := Runs.flatten_of tokens
  rw [closed, List.append_nil] at whole
  obtain ⟨idle, text⟩ := Pass.rests_initial.written_runs (p := c.pass source) fix layout
    (Runs.splits_of tokens closed) Nat.one_pos (isSettled_of_tokenize read regular)
  rw [whole] at idle text
  have written : ((c.pass source).report ((c.pass source).after tokens)).fixed =
      some (tidiedText rows runs) := by
    rw [Pass.fixed_report_of_silent tokens silent, Pass.after,
      fixed_report (p := (c.pass source).bare) fix idle, List.flatten_append]
    exact congrArg some text
  refine ⟨written, exists_ownRows_eq read regular, fun neat => ?_⟩
  rw [written, tidiedText_of_isNeat read regular neat]

instance (rows : Rows) (runs : List (List Token)) : Decidable (IsNeat rows runs) :=
  decidable_of_iff
    ((∀ run ∈ runs, ∀ n ∈ ownRows rows run, ownRows rows run = [n] →
        rows.row n = Text.tidied (rows.row n)) ∧
      (rows.size ≠ 0 → ¬Text.isAllBlank (rows.row rows.size)))
    ⟨fun ⟨tidied, last⟩ => ⟨fun run hr n one => tidied run hr n (by simp [one]) one, last⟩,
      fun ⟨tidied, last⟩ => ⟨fun run hr n _ => tidied run hr n, last⟩⟩

end Source

/-- Blank rows, comment rows and a statement over several rows with a comment in it come back as
    they are. -/
theorem fixed_of_silent_block :
    let source := "def f(a,\n      # c\n      b):\n\n    # d\n    return 'x'  # e\n\n\nf(1, 2)\n".toList
    let c : Checker := ⟨⟨RowRule.all, StatementRule.all⟩, { fix := true }⟩
    ∃ report, c.check source = .ok report ∧ report.fixes = [] ∧ report.fixed = some source := by
  intro source c
  obtain ⟨tokens, read⟩ : ∃ tokens, (tokenize source).toOption = some tokens :=
    Option.isSome_iff_exists.mp (by decide +kernel)
  have regular : IsRegular (Rows.ofSource source)
      (Runs.of ((tokenize source).toOption.getD [])).ended := by
    decide +kernel
  have neat : IsNeat (Rows.ofSource source)
      (Runs.of ((tokenize source).toOption.getD [])).ended := by
    decide +kernel
  have silent : (c.check source).toOption.map FileReport.fixes = some [] := by decide +kernel
  rw [read] at regular neat
  obtain ⟨report, check, written⟩ :=
    fixed_of_silent (c := c) rfl (eq_ok_of_toOption read) regular
  rw [check] at silent
  have silent := Option.some.inj silent
  exact ⟨report, check, silent, (written silent).2.2 neat⟩

/-- Blank rows at the end of a source are dropped where nothing is announced, because the code of
    the rule on them is ignored. -/
theorem silent_trailing_row_dropped :
    let source := "x = 1\n\n".toList
    let config : Config := { fix := true, ignore := ["W391"] }
    let c : Checker := ⟨Registry.ofFilter config.codeFilter, config⟩
    ∃ report, c.check source = .ok report ∧ report.fixes = [] ∧
      report.fixed = some "x = 1\n".toList ∧ report.fixed ≠ some source := by
  intro source config c
  obtain ⟨report, check⟩ : ∃ report, (c.check source).toOption = some report :=
    Option.isSome_iff_exists.mp (by decide +kernel)
  have found : (c.check source).toOption.map (fun r => (r.fixes, r.fixed)) =
      some ([], some "x = 1\n".toList) := by
    decide +kernel
  rw [check] at found
  obtain ⟨fixes, fixed⟩ := Prod.mk.inj (Option.some.inj found)
  exact ⟨report, eq_ok_of_toOption check, fixes, fixed, by rw [fixed]; decide⟩

end StyleGuide
