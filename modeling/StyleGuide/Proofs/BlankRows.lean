import Mathlib.Order.Bounds.Basic
import StyleGuide.Proofs.Statements
import StyleGuide.Proofs.TokenStream.Paving
import StyleGuide.Rule.BlankLines

/-! # The blank rows in front of a statement

The pass counts blank rows in two numbers, those directly in front and the most in front of a
comment. Together they measure the longest stretch of blank rows between two statements, and no
comment inside the brackets of a statement changes this.
-/

namespace StyleGuide

/-- So many blank rows stand one behind the other behind row `a` and in front of row `e`. -/
def IsStretch (rows : Rows) (a e n : Nat) : Prop :=
  ∃ i, a < i ∧ i + n ≤ e ∧ ∀ j, i ≤ j → j < i + n → isBlankRow (rows.row j)

/-- Directly in front of row `e` stand `k` blank rows, behind row `a` or another row that is not
    blank, and of the stretches between the two rows the longest are as long as `k` or `m`. -/
structure Measures (rows : Rows) (a e k m : Nat) : Prop where
  lt : a + k < e
  blank : ∀ j, e ≤ j + k → j < e → isBlankRow (rows.row j)
  edge : a + k + 1 < e → ¬isBlankRow (rows.row (e - (k + 1)))
  greatest : IsGreatest {n | IsStretch rows a e n} (max k m)

section Measures

variable {rows : Rows} {a e k m : Nat}

theorem IsStretch.mono {n : Nat} (h : IsStretch rows a e n) : IsStretch rows a (e + 1) n := by
  obtain ⟨i, lt, le, blank⟩ := h
  exact ⟨i, lt, Nat.le_succ_of_le le, blank⟩

/-- Between a row and the next one there is nothing. -/
theorem measures_start (rows : Rows) (a : Nat) : Measures rows a (a + 1) 0 0 where
  lt := Nat.lt_succ_self a
  blank := fun j low high => by omega
  edge := fun lt => by omega
  greatest := by
    refine ⟨⟨a + 1, Nat.lt_succ_self a, Nat.le_refl _, fun j low high => by omega⟩, ?_⟩
    rintro n ⟨i, lt, le, -⟩
    omega

/-- A blank row prolongs the stretch in front of it. -/
theorem Measures.blankRow (h : Measures rows a e k m) (row : isBlankRow (rows.row e)) :
    Measures rows a (e + 1) (k + 1) m where
  lt := by
    have := h.lt
    omega
  blank := by
    intro j low high
    rcases Nat.lt_succ_iff_lt_or_eq.mp high with high | rfl
    · exact h.blank j (by omega) high
    · exact row
  edge := by
    intro lt
    rw [show e + 1 - (k + 1 + 1) = e - (k + 1) by omega]
    exact h.edge (by omega)
  greatest := by
    have lt := h.lt
    obtain ⟨reached, bound⟩ := h.greatest
    constructor
    · rcases Nat.lt_or_ge k m with more | less
      · rw [show max (k + 1) m = max k m by omega]
        exact reached.mono
      · rw [show max (k + 1) m = k + 1 by omega]
        refine ⟨e - k, by omega, by omega, fun j low high => ?_⟩
        rcases Nat.lt_or_eq_of_le (show j ≤ e by omega) with high | rfl
        · exact h.blank j (by omega) high
        · exact row
    · rintro n ⟨i, lt', le, blank⟩
      rcases Nat.lt_or_eq_of_le le with le | end_
      · have := bound ⟨i, lt', Nat.le_of_lt_succ le, blank⟩
        omega
      · -- a longer stretch would hold the row in front of the last one
        by_contra long
        exact h.edge (by omega) (blank (e - (k + 1)) (by omega) (by omega))

/-- A row that is not blank ends the stretch in front of it. -/
theorem Measures.otherRow (h : Measures rows a e k m) (row : ¬isBlankRow (rows.row e)) :
    Measures rows a (e + 1) 0 (max m k) where
  lt := by
    have := h.lt
    omega
  blank := fun j low high => by omega
  edge := fun _ => row
  greatest := by
    rw [Nat.zero_max, Nat.max_comm]
    obtain ⟨reached, bound⟩ := h.greatest
    refine ⟨reached.mono, ?_⟩
    rintro n ⟨i, lt, le, blank⟩
    rcases Nat.eq_zero_or_pos n with rfl | pos
    · exact Nat.zero_le _
    · refine bound ⟨i, lt, ?_, blank⟩
      by_contra beyond
      exact row (blank e (by omega) (by omega))

end Measures

/-- The last row of the last statement that the runs hold; zero if there is none. -/
def lastRowOf (rows : Rows) (runs : List (List Token)) : Nat :=
  ((runs.filterMap (LogicalLine.ofTokens? rows)).getLast?.map LogicalLine.lastRow).getD 0

section LastRow

variable {rows : Rows} {runs : List (List Token)} {run : List Token} {line : LogicalLine} {e : Nat}

theorem lastRowOf_concat_of_none (none : LogicalLine.ofTokens? rows run = none) :
    lastRowOf rows (runs ++ [run]) = lastRowOf rows runs := by
  rw [lastRowOf, List.filterMap_append, List.filterMap_cons_none none, List.filterMap_nil,
    List.append_nil, lastRowOf]

theorem lastRowOf_concat (hl : LogicalLine.ofTokens? rows run = some line) :
    lastRowOf rows (runs ++ [run]) = line.lastRow := by
  rw [lastRowOf, List.filterMap_append, List.filterMap_cons_some hl, List.filterMap_nil,
    List.getLast?_concat]
  rfl

theorem Paves.lastRowOf_filter (h : Paves rows runs e) :
    lastRowOf rows (runs.filter isStatement) = lastRowOf rows runs := by
  induction h with
  | nil => rfl
  | @blank runs a t before kind row ih =>
      have other : isStatement [t] = false := by simp [isStatement, kind]
      rw [List.filter_append, List.filter_singleton, other,
        lastRowOf_concat_of_none (ofTokens?_blankRow kind)]
      simpa using ih
  | @comment runs a t u before kind ends first row ih =>
      have other : isStatement [t, u] = false := by simp [isStatement, ends]
      rw [List.filter_append, List.filter_singleton, other,
        lastRowOf_concat_of_none (ofTokens?_commentRow kind ends)]
      simpa using ih
  | @statement runs a run line before hl start newline ih =>
      obtain ⟨t, last, kind⟩ := newline
      have statement : isStatement run := by simp [isStatement, last, kind]
      rw [List.filter_append, List.filter_singleton, statement]
      exact (lastRowOf_concat hl).trans (lastRowOf_concat hl).symm

end LastRow

/-- Where no mark ends the source, brackets are closed around each run. -/
theorem Runs.goes_of {tokens : List Token} (inner : ∀ t ∈ tokens, t.kind ≠ .endMarker) :
    Goes 0 (of tokens).current (of tokens).depth ∧
      ∀ run ∈ (of tokens).ended, ∃ ts t, run = ts ++ [t] ∧ Goes 0 ts 0 := by
  induction tokens using List.reverseRecOn with
  | nil => exact ⟨.nil, nofun⟩
  | append_singleton tokens t ih =>
      obtain ⟨goes, closed⟩ := ih fun u hu => inner u (List.mem_append_left _ hu)
      rw [of_append, List.foldl_cons, List.foldl_nil]
      cases ends : t.endsRun (of tokens).depth with
      | false =>
          rw [step_of_not_endsRun ends]
          exact ⟨goes.concat ends, closed⟩
      | true =>
          have zero : (of tokens).depth = 0 := by
            rcases t.endsRun_cases (of tokens).depth with ⟨other, -⟩ | ⟨-, -, -, zero⟩ | ⟨-, -, kinds⟩
            · rw [ends] at other
              cases other
            · exact zero
            · exact (kinds.resolve_right (inner t (by simp))).2
          rw [step_of_endsRun ends]
          rw [zero] at goes ⊢
          refine ⟨.nil, fun run hr => ?_⟩
          rcases List.mem_append.mp hr with hr | hr
          · exact closed run hr
          · exact ⟨_, t, List.mem_singleton.mp hr, goes⟩

namespace Pass

variable {p : Pass} {s : CheckState} {t : Token} {ts : List Token} {runs : List (List Token)}
  {d e : Nat}

@[simp] theorem blankLines_receive : (p.receive s t).blankLines = s.blankLines := by
  rw [receive, checkRowsThrough_eq]

@[simp] theorem blankLinesBeforeComment_receive :
    (p.receive s t).blankLinesBeforeComment = s.blankLinesBeforeComment := by
  rw [receive, checkRowsThrough_eq]

@[simp] theorem blankLinesBeforeComment_flushComment :
    (p.flushComment s).blankLinesBeforeComment = s.blankLinesBeforeComment := by
  rw [flushComment]
  split <;> rfl

/-- Inside a run, a comment moves blank lines from one number to the other and adds none. -/
theorem max_blankLines_step (goes : t.endsRun s.depth = false) :
    max (p.step s t).blankLines (p.step s t).blankLinesBeforeComment =
      max s.blankLines s.blankLinesBeforeComment := by
  rw [step_of_not_endsRun goes]
  split
  · simp only [noteComment]
    split
    · simp [Nat.max_comm]
    · simp
  · simp

theorem max_blankLines_foldl (goes : Runs.Goes d ts e) (hd : s.depth = d) :
    (ts.foldl p.step s).depth = e ∧
      max (ts.foldl p.step s).blankLines (ts.foldl p.step s).blankLinesBeforeComment =
        max s.blankLines s.blankLinesBeforeComment := by
  induction goes generalizing s with
  | nil => exact ⟨hd, rfl⟩
  | cons goes _ ih =>
      subst hd
      obtain ⟨depth, same⟩ := ih (s := p.step s _) depth_step
      exact ⟨depth, same.trans (max_blankLines_step goes)⟩

/-- A comment row begins a new count and keeps the larger of the numbers. -/
theorem blankLines_commentRow {u : Token} (run : s.run = #[]) (closed : s.depth = 0)
    (kind : t.kind = .comment) (ends : u.kind = .rowBreak) (first : t.beginsRow) :
    let v := p.step (p.step s t) u
    v.run = #[] ∧ v.depth = 0 ∧ v.blankLines = 0 ∧
      v.blankLinesBeforeComment = max s.blankLinesBeforeComment s.blankLines := by
  have goes : t.endsRun s.depth = false := by simp [Token.endsRun, kind]
  have noted : p.step s t = noteComment t true (p.receive s t) := by
    rw [step_of_not_endsRun goes, if_pos kind, run]
    rfl
  have depth : (p.step s t).depth = 0 := by
    rw [depth_step, closed, Runs.depthBehind_of_kind (by simp [kind])]
  have size : (p.step s t).run.size ≠ 0 := by
    rw [noted, run_noteComment]
    simp
  have blank : Text.isAllBlank (Text.takeBytes t.start.column t.line) :=
    (Bool.and_eq_true_iff.mp first).2
  have numbers : (p.step s t).blankLines = 0 ∧ (p.step s t).blankLinesBeforeComment =
      max s.blankLinesBeforeComment s.blankLines := by
    rw [noted]
    simp [noteComment, blank]
  intro v
  have step : v = _ := step_rowBreak (p := p) ends depth
  rw [step]
  exact ⟨rfl, by simp [depth], by simp [size, numbers.1], by simp [numbers.2]⟩

/-- Between two runs the numbers of blank lines measure the rows since the last statement. -/
structure Measured (p : Pass) (runs : List (List Token)) (e : Nat) (s : CheckState) : Prop where
  run : s.run = #[]
  depth : s.depth = 0
  measures : Measures p.rows (lastRowOf p.rows runs) e s.blankLines s.blankLinesBeforeComment

theorem measured_of_paves (h : Paves p.rows runs e)
    (closed : ∀ run ∈ runs, ∃ ts t, run = ts ++ [t] ∧ Runs.Goes 0 ts 0) :
    p.Measured runs e (p.after runs.flatten) := by
  have prefix_closed {runs : List (List Token)} {last : List Token}
      (closed : ∀ run ∈ runs ++ [last], ∃ ts t, run = ts ++ [t] ∧ Runs.Goes 0 ts 0) :
      ∀ run ∈ runs, ∃ ts t, run = ts ++ [t] ∧ Runs.Goes 0 ts 0 :=
    fun run hr => closed run (List.mem_append_left _ hr)
  have concat (runs : List (List Token)) (last : List Token) :
      p.after (runs ++ [last]).flatten = last.foldl p.step (p.after runs.flatten) := by
    rw [List.flatten_append, List.flatten_singleton, after, List.foldl_append]
    rfl
  induction h with
  | nil => exact ⟨rfl, rfl, measures_start p.rows 0⟩
  | @blank runs a t before kind row ih =>
      obtain ⟨run, depth, measures⟩ := ih (prefix_closed closed)
      rw [concat, List.foldl_cons, List.foldl_nil, step_rowBreak kind depth]
      refine ⟨rfl, by simp [depth], ?_⟩
      simp only [lastRowOf_concat_of_none (ofTokens?_blankRow kind), run, List.size_toArray,
        List.length_nil, if_true, blankLinesBeforeComment_flushComment,
        blankLinesBeforeComment_receive]
      exact measures.blankRow row
  | @comment runs a t u before kind ends first row ih =>
      obtain ⟨run, depth, measures⟩ := ih (prefix_closed closed)
      obtain ⟨run', depth', own, most⟩ := blankLines_commentRow (p := p) run depth kind ends first
      rw [concat, List.foldl_cons, List.foldl_cons, List.foldl_nil]
      refine ⟨run', depth', ?_⟩
      rw [lastRowOf_concat_of_none (ofTokens?_commentRow kind ends), own, most]
      exact measures.otherRow row
  | @statement runs a run line before hl start newline ih =>
      obtain ⟨-, depth, -⟩ := ih (prefix_closed closed)
      obtain ⟨ts, t, rfl, goes⟩ := closed run (by simp)
      have kind : t.kind = .newline := by
        obtain ⟨u, last, kind⟩ := newline
        rw [List.getLast?_concat] at last
        exact Option.some.inj last ▸ kind
      rw [concat, List.foldl_append, List.foldl_cons, List.foldl_nil]
      obtain ⟨depth', -⟩ := max_blankLines_foldl (p := p) goes depth
      rw [step_newline kind depth']
      refine ⟨rfl, by simp [depth'], ?_⟩
      rw [lastRowOf_concat hl]
      exact measures_start p.rows line.lastRow

end Pass

/-- In an unjoined source without carriage returns, the number of blank lines that the rules see at a
    statement is the length of the longest stretch of blank rows between the statement before it, or
    the start of the source, and its own first row. It is settled in front of the first token of the
    statement. -/
theorem blankRows_counted {c : Checker} {source : Text} {seen ahead : List Token} {t : Token}
    {line : LogicalLine} (read : tokenize source = .ok (seen ++ t :: ahead))
    (unjoined : IsUnjoined source) (bare : '\r' ∉ source)
    (ends : t.endsStatement ((c.pass source).after seen).depth)
    (hl : LogicalLine.ofTokens? (c.pass source).rows ((c.pass source).reach seen t).run.toList =
      some line) :
    let p := c.pass source
    let counted := BlankLines.count (p.contextOf (p.reach seen t) line)
    IsGreatest {n | IsStretch p.rows (lastRowOf p.rows (p.handed seen)) line.firstRow n} counted ∧
      ∃ before, seen ++ [t] = before ++ (p.reach seen t).run.toList ∧
        counted = max (p.after before).blankLines (p.after before).blankLinesBeforeComment := by
  intro p counted
  obtain ⟨⟨run, depth⟩, handed, -⟩ := p.agrees_after seen
  have inner : ∀ u ∈ seen, u.kind ≠ .endMarker := by
    obtain ⟨init, last, whole, none⟩ := exists_of_endMarker read
    have front : seen ++ (t :: ahead).dropLast = init := by
      have same := congrArg List.dropLast whole
      rwa [List.dropLast_append_cons, List.dropLast_concat] at same
    exact fun u hu => none u (front ▸ List.mem_append_left _ hu)
  obtain ⟨goes, closed⟩ := Runs.goes_of inner
  have reached : (p.reach seen t).run.toList = (Runs.of seen).current ++ [t] := by
    rw [Pass.reach, Pass.run_receive, Array.toList_push, run]
  obtain ⟨post, split⟩ := Runs.exists_ended ahead (depth ▸ ends)
  have paves : Paves p.rows (Runs.of seen).ended line.firstRow :=
    paves_of_tokenize read unjoined bare split (reached ▸ hl)
  obtain ⟨-, closed', measures⟩ := Pass.measured_of_paves paves closed
  have whole := Runs.flatten_of seen
  have same : counted = max (p.after (Runs.of seen).ended.flatten).blankLines
      (p.after (Runs.of seen).ended.flatten).blankLinesBeforeComment := by
    obtain ⟨-, same⟩ := Pass.max_blankLines_foldl (p := p) goes closed'
    rw [← same, Pass.after, ← List.foldl_append, whole]
    exact congrArg₂ max Pass.blankLines_receive Pass.blankLinesBeforeComment_receive
  refine ⟨?_, (Runs.of seen).ended.flatten, ?_, same⟩
  · rw [handed, paves.lastRowOf_filter, same]
    exact measures.greatest
  · rw [reached, ← List.append_assoc, whole]

/-- A comment row parts the blank rows in front of the statement; the rows inside its brackets do not
    count. -/
theorem blankRows_counted_of_brackets :
    let source := "x = 1\n\n \t\n# c\n\ny = [\n    # d\n\n\n\n    2]\nz\n".toList
    let p := Checker.pass ⟨⟨RowRule.all, StatementRule.all⟩, { fix := false }⟩ source
    ∃ seen t ahead line, tokenize source = .ok (seen ++ t :: ahead) ∧ IsUnjoined source ∧
      '\r' ∉ source ∧ t.endsStatement (p.after seen).depth ∧
      LogicalLine.ofTokens? p.rows (p.reach seen t).run.toList = some line ∧
      lastRowOf p.rows (p.handed seen) = 1 ∧ line.firstRow = 6 ∧
      BlankLines.count (p.contextOf (p.reach seen t) line) = 2 ∧
      IsGreatest {n | IsStretch p.rows 1 6 n} 2 ∧
      ∃ before, seen ++ [t] = before ++ (p.reach seen t).run.toList ∧
        2 = max (p.after before).blankLines (p.after before).blankLinesBeforeComment := by
  intro source p
  let tokens := (tokenize source).toOption.getD []
  let seen := tokens.take 20
  let t : Token := ⟨.newline, ['\n'], ⟨11, 6⟩, ⟨11, 7⟩, "    2]\n".toList⟩
  have read : tokenize source = .ok (seen ++ t :: tokens.drop 21) :=
    eq_ok_of_toOption (by decide +kernel)
  have unjoined : IsUnjoined source := by decide +kernel
  have bare : '\r' ∉ source := by decide
  have ends : t.endsStatement (p.after seen).depth := by decide +kernel
  obtain ⟨line, hl⟩ : ∃ line, LogicalLine.ofTokens? p.rows (p.reach seen t).run.toList = some line :=
    Option.isSome_iff_exists.mp (by decide +kernel)
  have rows : (LogicalLine.ofTokens? p.rows (p.reach seen t).run.toList).map
      LogicalLine.firstRow = some 6 := by
    decide +kernel
  have last : lastRowOf p.rows (p.handed seen) = 1 := by decide +kernel
  have count : max (p.reach seen t).blankLines (p.reach seen t).blankLinesBeforeComment = 2 := by
    decide +kernel
  have first : line.firstRow = 6 := by
    rw [hl] at rows
    exact Option.some.inj rows
  have counted : BlankLines.count (p.contextOf (p.reach seen t) line) = 2 := count
  obtain ⟨greatest, settled⟩ := blankRows_counted read unjoined bare ends hl
  rw [counted, first, last] at greatest
  rw [counted] at settled
  exact ⟨seen, t, _, line, read, unjoined, bare, ends, hl, last, first, counted, greatest, settled⟩

end StyleGuide
