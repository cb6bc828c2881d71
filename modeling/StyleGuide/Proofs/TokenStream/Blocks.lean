import StyleGuide.Proofs.TokenStream.Runs

/-! # The rows of a run

Each run of the tokens of a source is a blank row, a comment row or a statement. A statement has
all rows from the one that opens it to the one that ends it.
-/

namespace StyleGuide

/-- A token lies on the rows from `a` to the one in front of `b`. -/
def Token.IsWithin (t : Token) (a b : Nat) : Prop :=
  a ≤ t.start.row ∧ t.start.row ≤ t.stop.row ∧ t.stop.row < b

theorem Token.IsOn.isWithin {t : Token} {row a : Nat} (h : t.IsOn row) (le : a ≤ row) :
    t.IsWithin a (row + 1) := by
  obtain ⟨start, stop⟩ := h
  exact ⟨by omega, by omega, by omega⟩

theorem Token.IsWithin.mono {t : Token} {a b c : Nat} (h : t.IsWithin a b) (le : b ≤ c) :
    t.IsWithin a c :=
  ⟨h.1, h.2.1, Nat.lt_of_lt_of_le h.2.2 le⟩

/-- A run has the rows from `a` to the one in front of `b`. Where a statement begins with a comment,
    it has been opened on a row without tokens, which holds a joining backslash. -/
inductive IsBlock (rows : Rows) (a : Nat) : List Token → Nat → Prop where
  | blank {t : Token} (kind : t.kind = .rowBreak) (on : t.IsOn a) : IsBlock rows a [t] (a + 1)
  | comment {t u : Token} (kind : t.kind = .comment) (ends : u.kind = .rowBreak) (on : t.IsOn a)
      (first : t.beginsRow) : IsBlock rows a [t, u] (a + 1)
  | statement {run : List Token} {b : Nat} (le : a ≤ b)
      (placed : ∀ t ∈ run, t.isSolid → t.IsWithin a b)
      (last : ∃ t, run.getLast? = some t ∧ (t.kind = .newline ∨ t.kind = .endMarker))
      (first : ∀ t ∈ run.head?, t.kind = .comment →
        a < t.start.row ∧ ¬Text.isAllBlank (rows.row a)) : IsBlock rows a run b

/-- Runs that take the rows from one number to another. -/
inductive Spans (rows : Rows) : Nat → List (List Token) → Nat → Prop where
  | nil {a : Nat} : Spans rows a [] a
  | cons {a b c : Nat} {run : List Token} {runs : List (List Token)}
      (block : IsBlock rows a run b) (rest : Spans rows b runs c) : Spans rows a (run :: runs) c

theorem Spans.concat {rows : Rows} {a b c : Nat} {runs : List (List Token)} {run : List Token}
    (h : Spans rows a runs b) (block : IsBlock rows b run c) :
    Spans rows a (runs ++ [run]) c := by
  induction h with
  | nil => exact .cons block .nil
  | cons first rest ih => exact .cons first (ih block)

theorem IsBlock.isWithin {rows : Rows} {a b : Nat} {run : List Token} (h : IsBlock rows a run b) :
    ∀ t ∈ run, t.isSolid → t.IsWithin a b := by
  intro t ht solid
  cases h with
  | blank kind =>
      rw [List.mem_singleton.mp ht, Token.isSolid, kind] at solid
      cases solid
  | comment kind ends on =>
      rcases List.mem_cons.mp ht with rfl | ht
      · exact on.isWithin (Nat.le_refl _)
      · rw [List.mem_singleton.mp ht, Token.isSolid, ends] at solid
        cases solid
  | statement _ placed => exact placed t ht solid

theorem IsBlock.le {rows : Rows} {a b : Nat} {run : List Token} (h : IsBlock rows a run b) :
    a ≤ b := by
  cases h with
  | blank | comment => exact Nat.le_succ _
  | statement le => exact le

theorem Spans.exists_block {rows : Rows} {a b : Nat} {runs : List (List Token)}
    {run : List Token} (h : Spans rows a runs b) (hr : run ∈ runs) :
    ∃ i j, IsBlock rows i run j ∧ a ≤ i := by
  induction h with
  | nil => cases hr
  | cons block _ ih =>
      rcases List.mem_cons.mp hr with rfl | hr
      · exact ⟨_, _, block, Nat.le_refl _⟩
      · obtain ⟨i, j, block', le⟩ := ih hr
        exact ⟨i, j, block', Nat.le_trans block.le le⟩

/-- No two runs share a row. -/
theorem Spans.exists_apart {rows : Rows} {a b : Nat} {runs : List (List Token)}
    {run : List Token} (h : Spans rows a runs b) (hr : run ∈ runs) :
    ∃ i j, IsBlock rows i run j ∧ a ≤ i ∧ ∀ run' ∈ runs,
      run' = run ∨ ∃ i' j', IsBlock rows i' run' j' ∧ (j ≤ i' ∨ j' ≤ i) := by
  induction h with
  | nil => cases hr
  | cons block rest ih =>
      rcases List.mem_cons.mp hr with first | later
      · refine ⟨_, _, first ▸ block, Nat.le_refl _, fun run' hr' => ?_⟩
        rcases List.mem_cons.mp hr' with first' | later'
        · exact .inl (first'.trans first.symm)
        · obtain ⟨i, j, block', le⟩ := rest.exists_block later'
          exact .inr ⟨i, j, block', .inl le⟩
      · obtain ⟨i, j, block', le, apart⟩ := ih later
        refine ⟨i, j, block', Nat.le_trans block.le le, fun run' hr' => ?_⟩
        rcases List.mem_cons.mp hr' with first' | later'
        · exact .inr ⟨_, _, first' ▸ block, .inr le⟩
        · exact apart run' later'

section Laid

variable {rows : Rows} {p q : Position} {a b : Nat} {runs : List (List Token)}

theorem Laid.row_lt {ts : List Token} (h : Laid rows p ts q) (lt : p.row < b)
    (inner : ∀ t ∈ ts, t.stop.row < b) : q.row < b := by
  induction h with
  | nil => exact lt
  | cons _ _ _ ih =>
      exact ih (inner _ (List.mem_cons_self ..)) fun u hu => inner u (List.mem_cons_of_mem _ hu)

/-- A run begins on a row behind everything in front of it. -/
theorem Spans.exists_laid_run (spans : Spans rows a runs b)
    (laid : Laid rows p (runs.flatten.filter Token.isSolid) q) (above : p.row < a) :
    ∀ run ∈ runs, ∃ p q, Laid rows p (run.filter Token.isSolid) q ∧
      ∀ t ∈ run, t.isSolid → p.row < t.start.row := by
  induction spans generalizing p with
  | nil => nofun
  | cons block rest ih =>
      rw [List.flatten_cons, List.filter_append] at laid
      obtain ⟨r, first, laid⟩ := laid.exists_of_append
      intro run hr
      rcases List.mem_cons.mp hr with rfl | hr
      · refine ⟨p, r, first, fun t ht solid => ?_⟩
        have := (block.isWithin t ht solid).1
        omega
      · refine ih laid (first.row_lt (Nat.lt_of_lt_of_le above block.le) fun t ht => ?_) run hr
        obtain ⟨mem, solid⟩ := List.mem_filter.mp ht
        exact (block.isWithin t mem solid).2.2

end Laid

namespace ScanState

variable {rows : Rows} {s t : ScanState} {line : Text} {a : Nat}

/-- The runs of the tokens so far. -/
def runs (s : ScanState) : Runs := .of s.tokens.toList

/-- The next row goes on with a statement that was opened on row `a`. -/
structure Within (rows : Rows) (s : ScanState) (a : Nat) : Prop where
  lt : a < s.row
  placed : ∀ t ∈ s.runs.current, t.isSolid → t.IsWithin a s.row
  literal : ∀ l, s.rowEnd = .inLiteral l →
    a ≤ l.start.row ∧ l.start.row < s.row ∧ Lexeme.isQuote l.delimiter.mark
  opening : s.runs.current = [] →
    s.depth = 0 ∧ (s.rowEnd = .joined → ¬Text.isAllBlank (rows.row a))
  first : ∀ t ∈ s.runs.current.head?, t.kind = .comment →
    a < t.start.row ∧ ¬Text.isAllBlank (rows.row a)

/-- The next row begins a run. -/
structure Between (rows : Rows) (s : ScanState) : Prop where
  plain : s.rowEnd = .plain
  closed : s.depth = 0
  current : s.runs.current = []
  spans : Spans rows 1 s.runs.ended s.row

/-- The rows read so far belong to the runs of the tokens so far. -/
structure Stands (rows : Rows) (s : ScanState) : Prop where
  depth : s.runs.depth = s.depth
  place : s.Between rows ∨ ∃ a, Spans rows 1 s.runs.ended a ∧ s.Within rows a

/-- The statement has ended if nothing is open. -/
def IsReady (rows : Rows) (s : ScanState) : Prop :=
  s.rowEnd = .plain → s.depth = 0 → s.Between rows

theorem stands_initial (rows : Rows) : initial.Stands rows ∧ initial.IsReady rows :=
  ⟨⟨rfl, .inl ⟨rfl, rfl, rfl, .nil⟩⟩, fun _ _ => ⟨rfl, rfl, rfl, .nil⟩⟩

section Advance

variable {marks : List Token} {indents : List Nat} {r : RowTokens} {ended joins : Prop}

theorem runs_advance : ({ s with indents := indents }.advance marks r).runs =
    r.tokens.foldl Runs.step (Runs.of (s.tokens.toList ++ marks)) := by
  rw [runs, toList_tokens_advance, Runs.of_append]

/-- The rest of a row joins the run or ends it. -/
theorem runs_advance_cases {R : Runs} (hR : Runs.of (s.tokens.toList ++ marks) = R)
    (depth : R.depth = s.depth) (scan : Scanned s.row ended joins s.depth r) :
    ({ s with indents := indents }.advance marks r).runs =
          ⟨R.ended, r.depth, R.current ++ r.tokens⟩ ∧
        (ended → r.rowEnd = .plain → r.depth ≠ 0) ∨
      ({ s with indents := indents }.advance marks r).runs =
          ⟨R.ended ++ [R.current ++ r.tokens], 0, []⟩ ∧
        r.rowEnd = .plain ∧ r.depth = 0 ∧ ∃ t, r.tokens.getLast? = some t ∧ t.kind = .newline := by
  rw [runs_advance, hR]
  exact scan.foldl_step R depth

/-- The marks of blocks begin a run. -/
theorem runs_of_marks (current : s.runs.current = [])
    (hm : ∀ m ∈ marks, m.kind = .indent ∨ m.kind = .dedent) :
    Runs.of (s.tokens.toList ++ marks) = ⟨s.runs.ended, s.runs.depth, marks⟩ := by
  rw [Runs.of_append, Runs.foldl_step_marks _ hm, ← runs, current]
  rfl

/-- A literal that ends joins the run. -/
theorem runs_of_closingToken (s : ScanState) (literal : OpenLiteral) (text : Text) :
    Runs.of (s.tokens.toList ++ [s.closingToken literal text]) =
      ⟨s.runs.ended, s.runs.depth, s.runs.current ++ [s.closingToken literal text]⟩ := by
  rw [Runs.of_append, List.foldl_cons, List.foldl_nil,
    Runs.step_of_not_endsRun (Runs.endsRun_of_isSolid rfl _),
    Runs.depthBehind_of_kind (by simp [closingToken])]
  rfl

/-- The scan of a row that belongs to a statement goes on with the statement or ends it. -/
theorem stands_scan (R : Runs) (hR : Runs.of (s.tokens.toList ++ marks) = R)
    (depth : R.depth = s.depth) (spans : Spans rows 1 R.ended a) (le : a ≤ s.row)
    (placed : ∀ t ∈ R.current, t.isSolid → t.IsWithin a (s.row + 1))
    (scan : Scanned s.row ended joins s.depth r)
    (opening : R.current ++ r.tokens = [] →
      s.depth = 0 ∧ (r.rowEnd = .joined → ¬Text.isAllBlank (rows.row a)))
    (first : ∀ t ∈ (R.current ++ r.tokens).head?, t.kind = .comment →
      a < t.start.row ∧ ¬Text.isAllBlank (rows.row a)) :
    ({ s with indents := indents }.advance marks r).Stands rows ∧
      (ended → ({ s with indents := indents }.advance marks r).IsReady rows) := by
  have within : ∀ t ∈ R.current ++ r.tokens, t.isSolid → t.IsWithin a (s.row + 1) := by
    intro t ht solid
    rcases List.mem_append.mp ht with ht | ht
    · exact placed t ht solid
    · exact (scan.isOn t ht).isWithin le
  rcases runs_advance_cases hR depth scan with
    ⟨read, goes⟩ | ⟨read, plain, zero, t, last, kind⟩
  · refine ⟨⟨by rw [read]; rfl, .inr ⟨a, by rwa [read], ?_⟩⟩,
      fun e plain zero => absurd zero (goes e plain)⟩
    refine ⟨Nat.lt_succ_of_le le, by rwa [read], ?_, ?_, by rwa [read]⟩
    · intro l hl
      obtain ⟨start, mark⟩ := scan.start_of_inLiteral hl
      rw [start]
      exact ⟨le, Nat.lt_succ_self _, mark⟩
    · rw [read]
      intro none
      refine ⟨?_, (opening none).2⟩
      exact (scan.depth_of_nil (List.append_eq_nil_iff.mp none).2).trans (opening none).1
  · have block : IsBlock rows a (R.current ++ r.tokens) (s.row + 1) := by
      refine .statement (Nat.le_succ_of_le le) within ⟨t, ?_, .inl kind⟩ first
      rw [List.getLast?_append, last]
      rfl
    have between : ({ s with indents := indents }.advance marks r).Between rows :=
      ⟨plain, zero, by rw [read], by rw [read]; exact spans.concat block⟩
    exact ⟨⟨by rw [read]; exact zero.symm, .inl between⟩, fun _ _ _ => between⟩

end Advance

theorem not_isAllBlank_of_mem {s : Text} {c : Char} (h : c ∈ s) (hc : Text.isBlank c = false) :
    ¬Text.isAllBlank s := by
  intro all
  have := List.all_eq_true.mp all c h
  rw [hc] at this
  cases this

/-- A row between statements is a run of its own. -/
theorem stands_between {r : RowTokens} (stands : s.Stands rows) (ready : s.IsReady rows)
    (he : s.rowEnd = .plain) (hd : s.depth = 0) (between : s.IsBetween line r) :
    (s.advance [] r).Stands rows ∧ (s.advance [] r).IsReady rows := by
  obtain ⟨-, -, current, spans⟩ := ready he hd
  have zero : s.runs.depth = 0 := stands.depth.trans hd
  have advance : (s.advance [] r).runs = r.tokens.foldl Runs.step s.runs := by
    rw [runs, toList_tokens_advance, List.append_nil, Runs.of_append, runs]
  have done (block : IsBlock rows s.row r.tokens (s.row + 1))
      (read : r.tokens.foldl Runs.step s.runs = ⟨s.runs.ended ++ [r.tokens], 0, []⟩)
      (plain : r.rowEnd = .plain) (depth : r.depth = 0) :
      (s.advance [] r).Stands rows ∧ (s.advance [] r).IsReady rows := by
    have between : (s.advance [] r).Between rows :=
      ⟨plain, depth, by rw [advance, read], by rw [advance, read]; exact spans.concat block⟩
    exact ⟨⟨by rw [advance, read]; exact depth.symm, .inl between⟩, fun _ _ => between⟩
  cases between with
  | comment hg hl hc he =>
      rename_i gap rest comment ending
      have first : Text.isAllBlank (Text.takeBytes (Text.byteLength gap) line) := by
        rw [hl, List.append_assoc, Text.takeBytes_byteLength_append]
        exact List.all_eq_true.mpr fun c hc => Lexeme.isBlank_of_isGap (hg c hc)
      refine done (.comment rfl rfl ⟨rfl, rfl⟩ first) ?_ rfl hd
      simp [Runs.step, Token.endsRun, Runs.depthBehind_of_kind, current, zero]
  | blank hg hl hc =>
      refine done (.blank rfl ⟨rfl, rfl⟩) ?_ rfl hd
      simp [Runs.step, Token.endsRun, current, zero]

theorem head?_of_betweenStatements? (between : s.betweenStatements? line = none) :
    (line.dropWhile Lexeme.isGap).head? ≠ some '#' := by
  intro first
  simp only [betweenStatements?] at between
  split at between
  · cases between
  · cases between
  · next c rest other hl =>
      rw [hl] at first
      obtain rfl := Option.some.inj first
      exact other rfl

/-- A row that ends in a newline ends in one behind its gap as well. -/
theorem getLast?_dropWhile_isGap (h : line.getLast? = some '\n') :
    (line.dropWhile Lexeme.isGap).getLast? = some '\n' := by
  have whole := List.takeWhile_append_dropWhile (p := Lexeme.isGap) (l := line)
  cases hl : line.dropWhile Lexeme.isGap with
  | nil =>
      rw [hl, List.append_nil] at whole
      rw [← whole] at h
      exact absurd (List.mem_takeWhile_imp (List.mem_of_getLast? h)) (by decide)
  | cons c rest => rwa [← whole, hl, List.getLast?_append_of_ne_nil _ (by simp)] at h

/-- A row that opens a statement begins a run with the marks of its blocks. -/
theorem stands_open {marks : List Token} {indents : List Nat} {r : RowTokens} {column : Nat}
    (stands : s.Stands rows) (ready : s.IsReady rows) (he : s.rowEnd = .plain)
    (hd : s.depth = 0) (hrow : rows.row s.row = line)
    (between : s.betweenStatements? line = none)
    (hm : ∀ m ∈ marks, m.kind = .indent ∨ m.kind = .dedent)
    (scan : scanRow s.row line s.depth column (line.dropWhile Lexeme.isGap) = .ok r) :
    ({ s with indents := indents }.advance marks r).Stands rows ∧
      (line.getLast? = some '\n' →
        ({ s with indents := indents }.advance marks r).IsReady rows) := by
  obtain ⟨-, -, current, spans⟩ := ready he hd
  have open_ : ∀ c ∈ (line.dropWhile Lexeme.isGap).head?, ¬Lexeme.isGap c := by
    intro c hc
    have := List.head?_dropWhile_not Lexeme.isGap line
    rw [hc] at this
    simpa using this
  have items := itemized_list (line.dropWhile Lexeme.isGap)
  have joins : '\\' ∈ line.dropWhile Lexeme.isGap → ¬Text.isAllBlank (rows.row s.row) := by
    intro mem
    rw [hrow]
    exact not_isAllBlank_of_mem ((List.dropWhile_suffix _).subset mem) (by decide)
  have scanned := scanned_tokens items getLast?_dropWhile_isGap joins scan
  refine stands_scan _ (runs_of_marks current hm) stands.depth spans (Nat.le_refl _) ?_ scanned
    ?_ ?_
  · intro t ht solid
    rcases hm t ht with hk | hk <;> simp [Token.isSolid, hk, Token.Kind.isLayout] at solid
  · exact fun _ => ⟨hd, scanned.joins_of_joined⟩
  · intro t ht comment
    cases marks with
    | nil =>
        have first := head?_of_comment items open_ scan t ht comment
        exact absurd first (head?_of_betweenStatements? between)
    | cons m marks =>
        obtain rfl := Option.some.inj ht
        rcases hm m (by simp) with hk | hk <;> rw [hk] at comment <;> cases comment

/-- A closing delimiter is not the newline that ends the row. -/
theorem getLast?_drop_of_closing? {q : Delimiter} {n : Nat} (mark : Lexeme.isQuote q.mark)
    (h : q.closing? line = some n) (last : line.getLast? = some '\n') :
    (line.drop n).getLast? = some '\n' := by
  obtain ⟨body, behind, rfl, rfl, -⟩ := Delimiter.exists_of_closing? h
  rw [List.drop_left]
  cases behind with
  | nil =>
      have quote : q.text.getLast? = some q.mark := by
        unfold Delimiter.text
        split <;> rfl
      rw [List.append_nil, List.getLast?_append, quote] at last
      rw [show q.mark = '\n' from Option.some.inj last] at mark
      exact absurd mark (by decide)
  | cons c behind => rwa [List.getLast?_append_of_ne_nil _ (by simp)] at last

/-- A row inside a literal adds no token to the run. -/
theorem stands_literalMore {literal : OpenLiteral} (stands : s.Stands rows)
    (he : s.rowEnd = .inLiteral literal) (spans : Spans rows 1 s.runs.ended a)
    (within : s.Within rows a) :
    let behind := s.advance []
      ⟨[], s.depth, .inLiteral { literal with text := literal.text ++ line }⟩
    behind.Stands rows ∧ behind.IsReady rows := by
  intro behind
  have runs : behind.runs = s.runs := by simp [behind, ScanState.runs]
  have open_ : behind.rowEnd ≠ .plain := by simp [behind, advance]
  refine ⟨⟨by rw [runs]; exact stands.depth, .inr ⟨a, by rwa [runs], ?_⟩⟩,
    fun plain => absurd plain open_⟩
  refine ⟨Nat.lt_succ_of_lt within.lt, ?_, ?_, ?_, by rw [runs]; exact within.first⟩
  · rw [runs]
    exact fun t ht solid => (within.placed t ht solid).mono (Nat.le_succ _)
  · intro l hl
    obtain rfl := RowEnd.inLiteral.inj hl
    have := within.literal literal he
    exact ⟨this.1, Nat.lt_succ_of_lt this.2.1, this.2.2⟩
  · rw [runs]
    exact fun none => ⟨(within.opening none).1, by simp [behind, advance]⟩

/-- The rest of a row behind the end of a literal goes on with the statement. -/
theorem stands_literalEnd {literal : OpenLiteral} {n : Nat} {r : RowTokens}
    (stands : s.Stands rows) (he : s.rowEnd = .inLiteral literal)
    (hn : literal.delimiter.closing? line = some n)
    (scan : scanRow s.row line s.depth (Text.byteLength (line.take n)) (line.drop n) = .ok r)
    (spans : Spans rows 1 s.runs.ended a) (within : s.Within rows a) :
    let behind := s.advance [s.closingToken literal (line.take n)] r
    behind.Stands rows ∧ (line.getLast? = some '\n' → behind.IsReady rows) := by
  obtain ⟨above, below, mark⟩ := within.literal literal he
  have scanned : Scanned s.row (line.getLast? = some '\n') True s.depth r :=
    scanned_tokens (itemized_list (line.drop n)) (getLast?_drop_of_closing? mark hn)
      (fun _ => trivial) scan
  refine stands_scan _ (runs_of_closingToken s literal _) stands.depth spans
    (Nat.le_of_lt within.lt) ?_ scanned (fun none => by simp at none) ?_
  · intro t ht solid
    rcases List.mem_append.mp ht with ht | ht
    · exact (within.placed t ht solid).mono (Nat.le_succ _)
    · rw [List.mem_singleton.mp ht]
      exact ⟨above, Nat.le_of_lt below, Nat.lt_succ_self _⟩
  · intro t ht comment
    cases hc : s.runs.current with
    | nil =>
        simp only [hc, List.nil_append, List.cons_append, List.head?_cons] at ht
        rw [← Option.some.inj ht] at comment
        cases comment
    | cons u us =>
        simp only [hc, List.cons_append, List.head?_cons] at ht
        exact within.first t (by rw [hc]; exact ht) comment

/-- A row behind a joining backslash or inside brackets goes on with the statement. -/
theorem stands_continued {r : RowTokens} (stands : s.Stands rows)
    (he : s.rowEnd = .joined ∨ s.rowEnd = .plain ∧ s.depth ≠ 0)
    (scan : scanRow s.row line s.depth 0 line = .ok r)
    (spans : Spans rows 1 s.runs.ended a) (within : s.Within rows a) :
    (s.advance [] r).Stands rows ∧
      (line.getLast? = some '\n' → (s.advance [] r).IsReady rows) := by
  have scanned : Scanned s.row (line.getLast? = some '\n') True s.depth r :=
    scanned_tokens (itemized_list line) id (fun _ => trivial) scan
  have joined (none : s.runs.current = []) : s.depth = 0 ∧ ¬Text.isAllBlank (rows.row a) := by
    obtain ⟨zero, nonblank⟩ := within.opening none
    rcases he with he | ⟨-, he⟩
    · exact ⟨zero, nonblank he⟩
    · exact absurd zero he
  refine stands_scan s.runs (by rw [List.append_nil]; rfl) stands.depth spans
    (Nat.le_of_lt within.lt) ?_ scanned ?_ ?_
  · exact fun t ht solid => (within.placed t ht solid).mono (Nat.le_succ _)
  · intro none
    obtain ⟨zero, nonblank⟩ := joined (List.append_eq_nil_iff.mp none).1
    exact ⟨zero, fun _ => nonblank⟩
  · intro t ht comment
    cases hc : s.runs.current with
    | nil =>
        rw [hc, List.nil_append] at ht
        have on := scanned.isOn t (List.mem_of_mem_head? ht)
        exact ⟨by rw [on.1]; exact within.lt, (joined hc).2⟩
    | cons u us =>
        simp only [hc, List.cons_append, List.head?_cons] at ht
        exact within.first t (by rw [hc]; exact ht) comment

/-- The rows up to each row belong to the runs. -/
theorem stands_of_feeds (h : Feeds s line t) (hrow : rows.row s.row = line)
    (stands : s.Stands rows) (ready : s.IsReady rows) :
    t.Stands rows ∧ (line.getLast? = some '\n' → t.IsReady rows) := by
  have within (goes : ¬(s.rowEnd = .plain ∧ s.depth = 0)) :
      ∃ a, Spans rows 1 s.runs.ended a ∧ s.Within rows a :=
    stands.place.resolve_left fun between => goes ⟨between.plain, between.closed⟩
  cases h with
  | nothing he hd between =>
      refine ⟨stands, fun last => ?_⟩
      have := isGap_of_betweenStatements? between '\n' (List.mem_of_getLast? last)
      exact absurd this (by decide)
  | between he hd between =>
      obtain ⟨stands, ready⟩ :=
        stands_between stands ready he hd (isBetween_of_betweenStatements? between)
      exact ⟨stands, fun _ => ready⟩
  | indented he hd between deeper scan =>
      exact stands_open stands ready he hd hrow between (by simp [indentToken]) scan
  | aligned he hd between indents inner width scan =>
      exact stands_open stands ready he hd hrow between (by simp [dedentToken]) scan
  | literalMore he hn more =>
      obtain ⟨a, spans, within⟩ := within (by simp [he])
      obtain ⟨stands, ready⟩ := stands_literalMore stands he spans within
      exact ⟨stands, fun _ => ready⟩
  | literalEnd he hn scan =>
      obtain ⟨a, spans, within⟩ := within (by simp [he])
      exact stands_literalEnd stands he hn scan spans within
  | continued he scan =>
      obtain ⟨a, spans, within⟩ := within (by rcases he with he | he <;> simp [he])
      exact stands_continued stands he scan spans within

theorem stands_of_feedsAll {lines done : List Text} {source : Text} (h : FeedsAll s lines t)
    (shape : AreRows lines) (split : Text.rows source = done ++ lines)
    (hrow : s.row = done.length + 1) (stands : s.Stands (Rows.ofSource source))
    (ready : lines ≠ [] → s.IsReady (Rows.ofSource source)) :
    t.Stands (Rows.ofSource source) ∧
      ∀ n, t.row ≤ n → ∀ c ∈ (Rows.ofSource source).row n, Lexeme.isGap c := by
  have behind (n : Nat) (h : (Text.rows source).length < n) :
      ∀ c ∈ (Rows.ofSource source).row n, Lexeme.isGap c := by
    have out : (Rows.ofSource source)[n - 1]? = none := by
      simp only [Rows.ofSource, List.getElem?_toArray, List.getElem?_eq_none_iff]
      omega
    have ne : n ≠ 0 := by omega
    simp [Rows.row, ne, out]
  induction h generalizing done with
  | nil =>
      refine ⟨stands, fun n le => behind n ?_⟩
      rw [split, List.append_nil]
      omega
  | cons fed rest ih =>
      rename_i s u _ line lines
      have here := Rows.row_ofSource split
      rw [← hrow] at here
      obtain ⟨stands', ready'⟩ := stands_of_feeds fed here stands (ready (by simp))
      have split' : Text.rows source = (done ++ [line]) ++ lines := by simpa using split
      rcases row_or_gaps_of_feeds fed with next | ⟨rfl, gaps⟩
      · have hrow' : u.row = (done ++ [line]).length + 1 := by
          rw [next, hrow, List.length_append]
          rfl
        cases shape with
        | last => exact ih .nil split' hrow' stands' (by simp)
        | cons _ shape => exact ih shape split' hrow' stands' fun _ => ready' (by simp)
      · cases shape with
        | cons => exact absurd (gaps '\n' (by simp)) (by decide)
        | last =>
            cases rest with
            | nil =>
                refine ⟨stands', fun n le => ?_⟩
                rcases Nat.eq_or_lt_of_le le with rfl | lt
                · rwa [here]
                · refine behind n ?_
                  rw [split, List.length_append, List.length_singleton]
                  omega

/-- Marks of blocks and the mark that ends the run behind them. -/
theorem isBlock_marks {R : Runs} {marks : List Token} {m : Token} {b : Nat} (le : a ≤ b)
    (hm : ∀ m ∈ marks, m.kind = .indent ∨ m.kind = .dedent)
    (kind : m.kind = .newline ∨ m.kind = .endMarker) (depth : R.depth = 0)
    (placed : ∀ t ∈ R.current, t.isSolid → t.IsWithin a b)
    (first : ∀ t ∈ R.current.head?, t.kind = .comment →
      a < t.start.row ∧ ¬Text.isAllBlank (rows.row a)) :
    IsBlock rows a (R.current ++ marks ++ [m]) b ∧
      (marks ++ [m]).foldl Runs.step R = ⟨R.ended ++ [R.current ++ marks ++ [m]], 0, []⟩ := by
  have notSolid : ∀ t ∈ marks ++ [m], t.isSolid = false ∧ t.kind ≠ .comment := by
    intro t ht
    have : t.kind = .indent ∨ t.kind = .dedent ∨ t.kind = .newline ∨ t.kind = .endMarker := by
      rcases List.mem_append.mp ht with ht | ht
      · rcases hm t ht with hk | hk <;> simp [hk]
      · rw [List.mem_singleton.mp ht]
        rcases kind with hk | hk <;> simp [hk]
    rcases this with hk | hk | hk | hk <;> simp [Token.isSolid, hk, Token.Kind.isLayout]
  refine ⟨.statement le ?_ ⟨m, by simp, kind⟩ ?_, ?_⟩
  · intro t ht solid
    rw [List.append_assoc] at ht
    rcases List.mem_append.mp ht with ht | ht
    · exact placed t ht solid
    · rw [(notSolid t ht).1] at solid
      cases solid
  · intro t ht comment
    cases hc : R.current with
    | nil =>
        rw [hc, List.nil_append] at ht
        exact absurd comment (notSolid t (List.mem_of_mem_head? ht)).2
    | cons u us =>
        simp only [hc, List.cons_append, List.head?_cons] at ht
        exact first t (by rw [hc]; exact ht) comment
  · have ends : m.endsRun R.depth := by
      rcases kind with hk | hk <;> simp [Token.endsRun, hk, depth]
    rw [List.foldl_append, Runs.foldl_step_marks _ hm, List.foldl_cons, List.foldl_nil,
      Runs.step, if_pos ends, depth]

theorem spans_endMarks {lines : List Text} (stands : s.Stands rows) (hd : s.depth = 0) :
    Spans rows 1 (Runs.of (s.tokens.toList ++ s.endMarks lines)).ended s.row ∧
      (Runs.of (s.tokens.toList ++ s.endMarks lines)).current = [] := by
  obtain ⟨a, le, spans, placed, first⟩ : ∃ a ≤ s.row, Spans rows 1 s.runs.ended a ∧
      (∀ t ∈ s.runs.current, t.isSolid → t.IsWithin a s.row) ∧
      ∀ t ∈ s.runs.current.head?, t.kind = .comment →
        a < t.start.row ∧ ¬Text.isAllBlank (rows.row a) := by
    rcases stands.place with between | ⟨a, spans, within⟩
    · refine ⟨s.row, Nat.le_refl _, between.spans, ?_, ?_⟩ <;> simp [between.current]
    · exact ⟨a, Nat.le_of_lt within.lt, spans, within.placed, within.first⟩
  have zero : s.runs.depth = 0 := stands.depth.trans hd
  let mark (kind : Token.Kind) : Token := ⟨kind, [], ⟨s.row, 0⟩, ⟨s.row, 0⟩, []⟩
  have dedents : ∀ m ∈ s.indents.map (fun _ => mark .dedent),
      m.kind = .indent ∨ m.kind = .dedent := by simp [mark]
  rw [Runs.of_append, endMarks, List.append_assoc, List.foldl_append]
  split
  · have bare : ∀ m ∈ ([] : List Token), m.kind = .indent ∨ m.kind = .dedent := by simp
    obtain ⟨block, read⟩ := isBlock_marks (m := ⟨.newline, [],
      ⟨lines.length, Text.byteLength (lines.getLast?.getD [])⟩,
      ⟨lines.length, Text.byteLength (lines.getLast?.getD []) + 1⟩, []⟩)
      le bare (.inl rfl) zero placed first
    have read : List.foldl Runs.step (Runs.of s.tokens.toList) [_] = _ := read
    rw [read]
    have done := spans.concat block
    obtain ⟨block', read'⟩ := isBlock_marks (a := s.row) (b := s.row)
      (m := mark .endMarker) (R := ⟨s.runs.ended ++ [s.runs.current ++ [] ++ [_]], 0, []⟩)
      (Nat.le_refl _) dedents (.inr rfl) rfl (by simp) (by simp)
    rw [read']
    exact ⟨done.concat block', rfl⟩
  · obtain ⟨block, read⟩ := isBlock_marks (m := mark .endMarker) le dedents (.inr rfl) zero
      placed first
    rw [List.foldl_nil, show Runs.of s.tokens.toList = s.runs from rfl, read]
    exact ⟨spans.concat block, rfl⟩

/-- Rows hold no mark of the end of the source. -/
theorem not_endMarker_of_feeds (h : Feeds s line t)
    (none : ∀ u ∈ s.tokens.toList, u.kind ≠ .endMarker) :
    ∀ u ∈ t.tokens.toList, u.kind ≠ .endMarker := by
  have scanned {row depth column : Nat} {line rest : Text} {r : RowTokens}
      (scan : scanRow row line depth column rest = .ok r) :
      ∀ u ∈ r.tokens, u.kind ≠ .endMarker := by
    have scanned : Scanned row False True depth r :=
      scanned_tokens (itemized_list rest) nofun (fun _ => trivial) scan
    intro u hu kind
    rcases scanned.isSolid_or_endsRow u hu with solid | other | other
    · simp [Token.isSolid, kind, Token.Kind.isLayout] at solid
    · simp [kind] at other
    · simp [kind] at other
  have advance {marks : List Token} {indents : List Nat} {r : RowTokens}
      (hm : ∀ m ∈ marks, m.kind ≠ .endMarker) (hr : ∀ u ∈ r.tokens, u.kind ≠ .endMarker) :
      ∀ u ∈ ({ s with indents := indents }.advance marks r).tokens.toList, u.kind ≠ .endMarker := by
    intro u hu
    rw [toList_tokens_advance] at hu
    rcases List.mem_append.mp hu with hu | hu
    · exact (List.mem_append.mp hu).elim (none u) (hm u)
    · exact hr u hu
  cases h with
  | nothing => exact none
  | literalEnd _ _ scan => exact advance (by simp [closingToken]) (scanned scan)
  | literalMore => exact advance (by simp) (by simp)
  | continued _ scan => exact advance (by simp) (scanned scan)
  | between _ _ between =>
      refine advance (by simp) ?_
      cases isBetween_of_betweenStatements? between with
      | comment => simp
      | blank => simp
  | indented _ _ _ _ scan => exact advance (by simp [indentToken]) (scanned scan)
  | aligned _ _ _ _ _ _ scan => exact advance (by simp [dedentToken]) (scanned scan)

theorem not_endMarker_of_feedsAll {lines : List Text} (h : FeedsAll s lines t)
    (none : ∀ u ∈ s.tokens.toList, u.kind ≠ .endMarker) :
    ∀ u ∈ t.tokens.toList, u.kind ≠ .endMarker := by
  induction h with
  | nil => exact none
  | cons fed _ ih => exact ih (not_endMarker_of_feeds fed none)

end ScanState

/-- The mark of the end of the source is its last token. -/
theorem exists_of_endMarker {source : Text} {tokens : List Token}
    (h : tokenize source = .ok tokens) :
    ∃ init last, tokens = init ++ [last] ∧ ∀ t ∈ init, t.kind ≠ .endMarker := by
  obtain ⟨s, fed, -, -, rfl⟩ := exists_of_tokenize h
  refine ⟨_, _, (List.append_assoc ..).symm, fun t ht => ?_⟩
  rcases List.mem_append.mp ht with ht | ht
  · exact ScanState.not_endMarker_of_feedsAll fed nofun t ht
  · rcases List.mem_append.mp ht with ht | ht
    · split at ht
      · rw [List.mem_singleton.mp ht]
        simp
      · cases ht
    · obtain ⟨_, -, rfl⟩ := List.mem_map.mp ht
      simp

/-- The runs of the tokens of a source take its rows one after the other, up to a gap at its
    end. -/
theorem spans_of_tokenize {source : Text} {tokens : List Token}
    (h : tokenize source = .ok tokens) :
    ∃ e, Spans (Rows.ofSource source) 1 (Runs.of tokens).ended e ∧
      (Runs.of tokens).current = [] ∧
      ∀ n, e ≤ n → ∀ c ∈ (Rows.ofSource source).row n, Lexeme.isGap c := by
  obtain ⟨s, fed, plain, closed, rfl⟩ := exists_of_tokenize h
  obtain ⟨stands, gaps⟩ := ScanState.stands_of_feedsAll fed (Text.areRows_rows source)
    (List.nil_append _).symm rfl (ScanState.stands_initial _).1
    (fun _ => (ScanState.stands_initial _).2)
  obtain ⟨spans, none⟩ := ScanState.spans_endMarks stands closed
  exact ⟨s.row, spans, none, gaps⟩

end StyleGuide
