import Mathlib.Data.List.Infix
import StyleGuide.Proofs.Ledger.Entry
import StyleGuide.Proofs.TokenStream.Cover

/-! # Runs pave the rows

Where no backslash joins rows, a statement has content on the row that opens it and on the row that
ends it, so the runs take each row as a whole: a run is a blank row, a comment row or the rows from
the first content of a statement to the last.
-/

namespace StyleGuide

/-- A row with nothing on it but gaps. -/
def isBlankRow (row : Text) : Bool := row.all fun c => Lexeme.isGap c || c == '\n'

/-- No row ends in a backslash that joins it to the next one. -/
def IsUnjoined (source : Text) : Prop :=
  ∀ above, above <+: Text.rows source → ∀ s : ScanState,
    above.foldlM ScanState.feed .initial = .ok s → s.rowEnd ≠ .joined

instance (source : Text) : Decidable (IsUnjoined source) :=
  decidable_of_iff (∀ above ∈ (Text.rows source).inits,
      ∀ s ∈ (above.foldlM ScanState.feed .initial).toOption, s.rowEnd ≠ .joined)
    ⟨fun h above sub s read => h above ((List.mem_inits ..).mpr sub) s (by rw [read]; rfl),
      fun h above sub s read => h above ((List.mem_inits ..).mp sub) s (eq_ok_of_toOption read)⟩

/-- The runs have the rows in front of the row with a number. -/
inductive Paves (rows : Rows) : List (List Token) → Nat → Prop where
  | nil : Paves rows [] 1
  | blank {runs : List (List Token)} {a : Nat} {t : Token} (before : Paves rows runs a)
      (kind : t.kind = .rowBreak) (row : isBlankRow (rows.row a)) :
      Paves rows (runs ++ [[t]]) (a + 1)
  | comment {runs : List (List Token)} {a : Nat} {t u : Token} (before : Paves rows runs a)
      (kind : t.kind = .comment) (ends : u.kind = .rowBreak) (first : t.beginsRow)
      (row : ¬isBlankRow (rows.row a)) : Paves rows (runs ++ [[t, u]]) (a + 1)
  | statement {runs : List (List Token)} {a : Nat} {run : List Token} {line : LogicalLine}
      (before : Paves rows runs a) (hl : LogicalLine.ofTokens? rows run = some line)
      (start : line.firstRow = a) (newline : ∃ t, run.getLast? = some t ∧ t.kind = .newline) :
      Paves rows (runs ++ [run]) (line.lastRow + 1)

/-- The first content of the run stands on row `a`. -/
def BeginsOn (run : List Token) (a : Nat) : Prop :=
  ∃ t rest, run.filter Token.isContent = t :: rest ∧ t.start.row = a

section Run

variable {rows : Rows} {runs pre post : List (List Token)} {run more : List Token} {t : Token}
  {line : LogicalLine} {a e n : Nat}

theorem BeginsOn.append (h : BeginsOn run a) (more : List Token) : BeginsOn (run ++ more) a := by
  obtain ⟨t, rest, content, row⟩ := h
  exact ⟨t, rest ++ more.filter Token.isContent, by rw [List.filter_append, content]; rfl, row⟩

theorem beginsOn_append_cons (none : run.filter Token.isContent = []) (content : t.isContent)
    (more : List Token) : BeginsOn (run ++ t :: more) t.start.row :=
  ⟨t, more.filter Token.isContent, by
    rw [List.filter_append, none, List.filter_cons_of_pos content, List.nil_append], rfl⟩

theorem firstRow_eq (hl : LogicalLine.ofTokens? rows run = some line) (h : BeginsOn run a) :
    line.firstRow = a := by
  obtain ⟨t, rest, content, rfl⟩ := h
  obtain ⟨first, rest', content', of⟩ := LogicalLine.exists_of_ofTokens? hl
  obtain ⟨rfl, -⟩ := List.cons.inj (content.symm.trans content')
  exact of.firstRow

/-- A blank row is no statement. -/
theorem ofTokens?_blankRow (kind : t.kind = .rowBreak) :
    LogicalLine.ofTokens? rows [t] = none :=
  ofTokens?_eq_none (by simp [kind, Token.isContent, Token.Kind.isLayout])

/-- A row with a comment alone is no statement. -/
theorem ofTokens?_commentRow {u : Token} (kind : t.kind = .comment) (ends : u.kind = .rowBreak) :
    LogicalLine.ofTokens? rows [t, u] = none :=
  ofTokens?_eq_none (by simp [kind, ends, Token.isContent, Token.Kind.isLayout])

/-- A run with content has a logical line. -/
theorem exists_line_of_content {rest : List Token} (rows : Rows)
    (content : run.filter Token.isContent = t :: rest) :
    ∃ line, LogicalLine.ofTokens? rows run = some line := by
  rw [LogicalLine.ofTokens?, content]
  exact ⟨_, rfl⟩

/-- The logical line has the rows of the content. -/
theorem exists_line (rows : Rows) (first : BeginsOn run a)
    (last : ∃ t ∈ run, t.isContent ∧ t.stop.row = n)
    (within : ∀ t ∈ run, t.isContent → t.stop.row ≤ n) :
    ∃ line, LogicalLine.ofTokens? rows run = some line ∧ line.firstRow = a ∧
      line.lastRow = n := by
  obtain ⟨line, hl⟩ : ∃ line, LogicalLine.ofTokens? rows run = some line := by
    obtain ⟨t, rest, content, -⟩ := first
    exact exists_line_of_content rows content
  refine ⟨line, hl, firstRow_eq hl first, Nat.le_antisymm ?_ ?_⟩
  · rcases LogicalLine.exists_lastRow hl with zero | ⟨t, ht, content, row⟩
    · omega
    · exact row ▸ within t ht content
  · obtain ⟨t, ht, content, rfl⟩ := last
    obtain ⟨first, rest, whole, of⟩ := LogicalLine.exists_of_ofTokens? hl
    rw [of.lastRow, ← whole]
    exact LogicalLine.le_foldl_max 0
      (.inr (List.mem_map_of_mem (List.mem_filter.mpr ⟨ht, content⟩)))

theorem eq_or_exists_of_concat {x y : List Token} (h : runs ++ [x] = pre ++ y :: post) :
    runs = pre ∧ x = y ∨ ∃ post, runs = pre ++ y :: post := by
  rcases List.eq_nil_or_concat post with rfl | ⟨post', z, rfl⟩
  · obtain ⟨same, last⟩ := List.append_inj' h rfl
    exact .inl ⟨same, (List.cons.inj last).1⟩
  · rw [List.concat_eq_append, ← List.cons_append, ← List.append_assoc] at h
    exact .inr ⟨post', List.append_inj_left' h rfl⟩

/-- The runs in front of a statement have the rows in front of it. -/
theorem Paves.of_statement (h : Paves rows runs e) (split : runs = pre ++ run :: post)
    (hl : LogicalLine.ofTokens? rows run = some line) : Paves rows pre line.firstRow := by
  induction h generalizing post with
  | nil => cases pre <;> cases split
  | blank before kind row ih =>
      rcases eq_or_exists_of_concat split with ⟨-, rfl⟩ | ⟨post, split⟩
      · rw [ofTokens?_blankRow kind] at hl
        cases hl
      · exact ih split
  | comment before kind ends first row ih =>
      rcases eq_or_exists_of_concat split with ⟨-, rfl⟩ | ⟨post, split⟩
      · rw [ofTokens?_commentRow kind ends] at hl
        cases hl
      · exact ih split
  | statement before hl' start newline ih =>
      rcases eq_or_exists_of_concat split with ⟨rfl, rfl⟩ | ⟨post, split⟩
      · obtain rfl := Option.some.inj (hl.symm.trans hl')
        exact start ▸ before
      · exact ih split

end Run

/-- Layout marks that come behind the tokens add no content to the run. -/
theorem Runs.foldl_layout {marks : List Token} (h : ∀ m ∈ marks, m.isContent = false) (R : Runs) :
    ∃ tail, (marks.foldl step R).ended = R.ended ++ tail ∧
      (∀ run ∈ tail.head?, ∃ more, run = R.current ++ more ∧ more.filter Token.isContent = []) ∧
      ∀ run ∈ tail.tail, run.filter Token.isContent = [] := by
  induction marks generalizing R with
  | nil => exact ⟨[], by simp, nofun, nofun⟩
  | cons m marks ih =>
      obtain ⟨layout, rest⟩ := List.forall_mem_cons.mp h
      have none : [m].filter Token.isContent = [] := by
        rw [List.filter_singleton, layout]
        rfl
      rw [List.foldl_cons]
      cases ends : m.endsRun R.depth with
      | true =>
          rw [step_of_endsRun ends]
          obtain ⟨tail, ended, first, others⟩ :=
            ih rest ⟨R.ended ++ [R.current ++ [m]], R.depth, []⟩
          refine ⟨(R.current ++ [m]) :: tail, by rw [ended]; simp, ?_, ?_⟩
          · rintro run ⟨⟩
            exact ⟨[m], rfl, none⟩
          · intro run hr
            cases tail with
            | nil => cases hr
            | cons x tail =>
                rcases List.mem_cons.mp hr with rfl | hr
                · obtain ⟨more, rfl, empty⟩ := first _ rfl
                  exact empty
                · exact others run hr
      | false =>
          rw [step_of_not_endsRun ends]
          obtain ⟨tail, ended, first, others⟩ :=
            ih rest ⟨R.ended, m.depthBehind R.depth, R.current ++ [m]⟩
          refine ⟨tail, ended, fun run hr => ?_, others⟩
          obtain ⟨more, rfl, empty⟩ := first run hr
          exact ⟨[m] ++ more, List.append_assoc .., by rw [List.filter_append, none, empty]; rfl⟩

/-- Marks of blocks are no content. -/
theorem Token.not_isContent_of_mark {m : Token} (h : m.kind = .indent ∨ m.kind = .dedent) :
    m.isContent = false := by
  rcases h with kind | kind <;> simp [isContent, kind, Kind.isLayout]

theorem filter_isContent_of_marks {marks : List Token}
    (hm : ∀ m ∈ marks, m.kind = .indent ∨ m.kind = .dedent) :
    marks.filter Token.isContent = [] :=
  List.filter_eq_nil_iff.mpr fun m hk => by simp [Token.not_isContent_of_mark (hm m hk)]

section Row

variable {row depth column : Nat} {line rest : Text} {items : List RowItem} {r : RowTokens}
  {ended joins : Prop}

/-- Where brackets open or close, there is content. -/
theorem Scanned.exists_content (h : Scanned row ended joins depth r) (moved : r.depth ≠ depth) :
    ∃ t ∈ r.tokens, t.isContent := by
  induction h with
  | out | joint | openLiteral | terminator => exact absurd rfl moved
  | @token d t r solid on rest ih =>
      by_cases operator : t.kind = .operator
      · exact ⟨t, List.mem_cons_self .., by simp [Token.isContent, operator, Token.Kind.isLayout]⟩
      · rw [Runs.depthBehind_of_kind operator] at ih
        obtain ⟨u, hu, content⟩ := ih moved
        exact ⟨u, List.mem_cons_of_mem t hu, content⟩

/-- A row that begins with neither a gap nor a comment nor a terminator nor a joining backslash
    begins at once with content or with a literal that stays open. -/
theorem starts_of_tokens (hi : Itemized rest items)
    (head : ∃ c ∈ rest.head?, ¬Lexeme.isGap c ∧ c ≠ '#' ∧ c ≠ '\r' ∧ c ≠ '\n')
    (h : RowItem.tokens row line depth column items = .ok r)
    (unjoined : r.rowEnd = .joined → rest.head? ≠ some '\\') :
    (∃ t more, r.tokens = t :: more ∧ t.isContent ∧ t.start = ⟨row, column⟩) ∨
      r.tokens = [] ∧ ∃ l, r.rowEnd = .inLiteral l ∧ l.start = ⟨row, column⟩ := by
  obtain ⟨c, hc, solid, comment, cr, lf⟩ := head
  have first {gap text behind : Text} {k : Lexeme} (hg : ∀ c ∈ gap, Lexeme.isGap c)
      (taken : k.Takes text behind) (head : (gap ++ text ++ behind).head? = some c) :
      gap = [] ∧ text.head? = some c := by
    cases gap with
    | nil =>
        obtain ⟨d, more, rfl⟩ := List.exists_cons_of_ne_nil taken.ne_nil
        exact ⟨rfl, head⟩
    | cons d gap =>
        obtain rfl := Option.some.inj head
        exact absurd (hg _ (List.mem_cons_self ..)) solid
  cases hi with
  | nil hg => exact absurd (hg c (List.mem_of_mem_head? hc)) solid
  | last hg taken ends =>
      obtain ⟨rfl, text⟩ := first hg taken hc
      cases RowItem.leads_of_tokens h with
      | joint hk =>
          obtain rfl := hk
          obtain ⟨d, more, n, rfl, -, starts⟩ := taken.starts
          cases starts with
          | joint hd => exact absurd (congrArg some hd) (unjoined rfl)
      | openLiteral => exact .inr ⟨rfl, _, rfl, rfl⟩
      | terminator hk =>
          obtain rfl := hk
          rcases taken.isTerminator with rfl | rfl
          · exact absurd (Option.some.inj text).symm lf
          · exact absurd (Option.some.inj text).symm cr
      | token ends' =>
          rw [ends] at ends'
          cases ends'
  | @cons gap text behind k items hg taken ends _ =>
      obtain ⟨rfl, first⟩ := first hg taken hc
      cases RowItem.leads_of_tokens h with
      | joint hk | openLiteral hk | terminator hk =>
          simp only at hk
          rw [hk] at ends
          cases ends
      | token _ ok rest' =>
          have solid' : (RowItem.token ⟨[], k, text⟩ row line column).isSolid :=
            RowItem.isSolid_token ends
          have other : (RowItem.token ⟨[], k, text⟩ row line column).kind ≠ .comment := by
            intro kind
            obtain rfl := RowItem.eq_comment_of_kind kind
            obtain hash := taken.head?_of_comment
            exact comment (Option.some.inj (first.symm.trans hash))
          refine .inl ⟨_, _, rfl, ?_, rfl⟩
          rw [Token.isContent, Bool.and_eq_true]
          exact ⟨solid', bne_iff_ne.mpr other⟩

end Row

namespace ScanState

variable {rows : Rows} {s t : ScanState} {line : Text} {a : Nat}

/-- The next row begins a run. -/
structure Rests (rows : Rows) (s : ScanState) : Prop where
  plain : s.rowEnd = .plain
  closed : s.depth = 0
  current : s.runs.current = []
  paves : Paves rows s.runs.ended s.row

/-- A statement that has been opened on row `a` has not ended. It goes on with the next row, or the
    source ends with its last row. -/
structure Opened (s : ScanState) (a : Nat) : Prop where
  starts : BeginsOn s.runs.current a ∨ s.runs.current.filter Token.isContent = [] ∧
    ∃ l, s.rowEnd = .inLiteral l ∧ l.start.row = a
  placed : ∀ t ∈ s.runs.current, t.isContent → t.stop.row < s.row
  reach : s.rowEnd = .plain → s.depth = 0 →
    ∃ t ∈ s.runs.current, t.isContent ∧ t.stop.row + 1 = s.row
  quoted : ∀ l, s.rowEnd = .inLiteral l → Lexeme.isQuote l.delimiter.mark

/-- The runs of the tokens so far have the rows read so far. -/
structure Paved (rows : Rows) (s : ScanState) : Prop where
  depth : s.runs.depth = s.depth
  place : s.Rests rows ∨ ∃ a, Paves rows s.runs.ended a ∧ s.Opened a

/-- The statement has ended if nothing is open. -/
def IsDone (rows : Rows) (s : ScanState) : Prop := s.rowEnd = .plain → s.depth = 0 → s.Rests rows

theorem Opened.beginsOn (h : s.Opened a) (plain : s.rowEnd = .plain) :
    BeginsOn s.runs.current a := by
  rcases h.starts with starts | ⟨-, l, open_, -⟩
  · exact starts
  · rw [plain] at open_
    cases open_

theorem paved_initial (rows : Rows) : initial.Paved rows ∧ initial.IsDone rows :=
  ⟨⟨rfl, .inl ⟨rfl, rfl, rfl, .nil⟩⟩, fun _ _ => ⟨rfl, rfl, rfl, .nil⟩⟩

/-- The rest of a row goes on with the statement, which has been opened on row `a`, or ends it. -/
theorem paved_scan {marks : List Token} {indents : List Nat} {r : RowTokens} {ended joins : Prop}
    (R : Runs) (hR : Runs.of (s.tokens.toList ++ marks) = R) (depth : R.depth = s.depth)
    (paves : Paves rows R.ended a) (scan : Scanned s.row ended joins s.depth r)
    (starts : BeginsOn (R.current ++ r.tokens) a ∨
      (R.current ++ r.tokens).filter Token.isContent = [] ∧
        ∃ l, r.rowEnd = .inLiteral l ∧ l.start.row = a)
    (placed : ∀ t ∈ R.current, t.isContent → t.stop.row ≤ s.row)
    (reach : r.rowEnd = .plain → r.depth = 0 →
      ∃ t ∈ R.current ++ r.tokens, t.isContent ∧ t.stop.row = s.row) :
    ({ s with indents := indents }.advance marks r).Paved rows ∧
      (ended → ({ s with indents := indents }.advance marks r).IsDone rows) := by
  have within : ∀ t ∈ R.current ++ r.tokens, t.isContent → t.stop.row ≤ s.row := by
    intro t ht content
    rcases List.mem_append.mp ht with ht | ht
    · exact placed t ht content
    · exact Nat.le_of_eq (scan.isOn t ht).2
  rcases runs_advance_cases hR depth scan with
    ⟨read, goes⟩ | ⟨read, plain, zero, t, last, kind⟩
  · refine ⟨⟨by rw [read]; rfl, .inr ⟨a, by rwa [read], ?_⟩⟩,
      fun e plain zero => absurd zero (goes e plain)⟩
    refine ⟨by rwa [read], ?_, ?_, fun l hl => (scan.start_of_inLiteral hl).2⟩
    · rw [read]
      exact fun t ht content => Nat.lt_succ_of_le (within t ht content)
    · rw [read]
      intro plain zero
      obtain ⟨t, ht, content, row⟩ := reach plain zero
      exact ⟨t, ht, content, congrArg Nat.succ row⟩
  · have first : BeginsOn (R.current ++ r.tokens) a := by
      rcases starts with starts | ⟨-, l, open_, -⟩
      · exact starts
      · rw [plain] at open_
        cases open_
    obtain ⟨line, hl, start, stop⟩ := exists_line rows first (reach plain zero) within
    have newline : ∃ t, (R.current ++ r.tokens).getLast? = some t ∧ t.kind = .newline := by
      refine ⟨t, ?_, kind⟩
      rw [List.getLast?_append, last]
      rfl
    have rests : ({ s with indents := indents }.advance marks r).Rests rows := by
      refine ⟨plain, zero, by rw [read], ?_⟩
      rw [read]
      exact stop ▸ paves.statement hl start newline
    exact ⟨⟨by rw [read]; exact zero.symm, .inl rests⟩, fun _ _ _ => rests⟩

/-- A row between statements is a run of its own. -/
theorem paved_between {r : RowTokens} (hrow : rows.row s.row = line) (newline : EndsAtNewline line)
    (bare : '\r' ∉ line) (rests : s.Rests rows) (depth : s.runs.depth = s.depth)
    (between : s.IsBetween line r) :
    (s.advance [] r).Paved rows ∧ (s.advance [] r).IsDone rows := by
  have advance : (s.advance [] r).runs = r.tokens.foldl Runs.step s.runs := by
    rw [runs, toList_tokens_advance, List.append_nil, Runs.of_append, runs]
  have done (paves : Paves rows (s.runs.ended ++ [r.tokens]) (s.row + 1))
      (read : r.tokens.foldl Runs.step s.runs = ⟨s.runs.ended ++ [r.tokens], 0, []⟩)
      (plain : r.rowEnd = .plain) (closed : r.depth = 0) :
      (s.advance [] r).Paved rows ∧ (s.advance [] r).IsDone rows := by
    have rests : (s.advance [] r).Rests rows :=
      ⟨plain, closed, by rw [advance, read], by rw [advance, read]; exact paves⟩
    exact ⟨⟨by rw [advance, read]; exact closed.symm, .inl rests⟩, fun _ _ => rests⟩
  have zero : s.runs.depth = 0 := depth.trans rests.closed
  cases between with
  | @comment gap rest comment ending hg hl hc he =>
      have first : Text.isAllBlank (Text.takeBytes (Text.byteLength gap) line) := by
        rw [hl, List.append_assoc, Text.takeBytes_byteLength_append]
        exact List.all_eq_true.mpr fun c hc => Lexeme.isBlank_of_isGap (hg c hc)
      have filled : ¬isBlankRow (rows.row s.row) := by
        rw [hrow, hl, List.append_assoc, ← he]
        simp [isBlankRow, Lexeme.isGap]
      refine done (rests.paves.comment rfl rfl first filled) ?_ rfl rests.closed
      simp [Runs.step, Token.endsRun, Runs.depthBehind_of_kind, rests.current, zero]
  | @blank gap rest c hg hl hc =>
      obtain rfl : c = '\n' := by
        refine hc.resolve_left ?_
        rintro rfl
        exact bare (hl ▸ by simp)
      obtain rfl : rest = [] := newline gap rest hl
      have blank : isBlankRow (rows.row s.row) := by
        have gaps : (gap.all fun c => Lexeme.isGap c || c == '\n') = true :=
          List.all_eq_true.mpr fun c hc => by simp [hg c hc]
        rw [hrow, hl, isBlankRow, List.all_append, gaps]
        rfl
      refine done (rests.paves.blank rfl blank) ?_ rfl rests.closed
      simp [Runs.step, Token.endsRun, rests.current, zero]

/-- What a row that opens a statement begins with behind its gap. -/
theorem exists_head?_of_betweenStatements? (between : s.betweenStatements? line = none) :
    ∃ c ∈ (line.dropWhile Lexeme.isGap).head?,
      ¬Lexeme.isGap c ∧ c ≠ '#' ∧ c ≠ '\r' ∧ c ≠ '\n' := by
  obtain ⟨c, hc, marks⟩ := betweenStatements?_eq_none_iff.mp between
  have solid := List.head?_dropWhile_not Lexeme.isGap line
  rw [hc] at solid
  exact ⟨c, hc, by simpa using solid, marks⟩

/-- A row that opens a statement begins a run with the marks of its blocks. -/
theorem paved_open {marks : List Token} {indents : List Nat} {r : RowTokens} {column : Nat}
    (rests : s.Rests rows) (depth : s.runs.depth = s.depth)
    (between : s.betweenStatements? line = none)
    (hm : ∀ m ∈ marks, m.kind = .indent ∨ m.kind = .dedent)
    (scan : scanRow s.row line s.depth column (line.dropWhile Lexeme.isGap) = .ok r)
    (unjoined : r.rowEnd ≠ .joined) :
    ({ s with indents := indents }.advance marks r).Paved rows ∧
      (line.getLast? = some '\n' →
        ({ s with indents := indents }.advance marks r).IsDone rows) := by
  have items := itemized_list (line.dropWhile Lexeme.isGap)
  have scanned : Scanned s.row (line.getLast? = some '\n') True s.depth r :=
    scanned_tokens items getLast?_dropWhile_isGap (fun _ => trivial) scan
  have none := filter_isContent_of_marks hm
  have starts :=
    starts_of_tokens items (exists_head?_of_betweenStatements? between) scan
      fun joined => absurd joined unjoined
  refine paved_scan _ (runs_of_marks rests.current hm) depth rests.paves scanned ?_ ?_ ?_
  · rcases starts with ⟨t, more, eq, content, start⟩ | ⟨eq, l, hl, start⟩
    · have row : t.start.row = s.row := by rw [start]
      rw [eq, ← row]
      exact .inl (beginsOn_append_cons none content more)
    · rw [eq, List.append_nil]
      exact .inr ⟨none, l, hl, by rw [start]⟩
  · intro t ht content
    exact absurd content (List.filter_eq_nil_iff.mp none t ht)
  · intro plain zero
    rcases starts with ⟨t, more, eq, content, -⟩ | ⟨-, l, hl, -⟩
    · have ht : t ∈ r.tokens := by rw [eq]; simp
      exact ⟨t, List.mem_append_right _ ht, content, (scanned.isOn t ht).2⟩
    · rw [plain] at hl
      cases hl

/-- A row inside a literal adds no token to the run. -/
theorem paved_literalMore {literal : OpenLiteral} (he : s.rowEnd = .inLiteral literal)
    (depth : s.runs.depth = s.depth) (paves : Paves rows s.runs.ended a) (opened : s.Opened a) :
    let behind := s.advance []
      ⟨[], s.depth, .inLiteral { literal with text := literal.text ++ line }⟩
    behind.Paved rows ∧ behind.IsDone rows := by
  intro behind
  have runs : behind.runs = s.runs := by simp [behind, ScanState.runs]
  have open_ : behind.rowEnd ≠ .plain := by simp [behind, advance]
  refine ⟨⟨by rw [runs]; exact depth, .inr ⟨a, by rwa [runs], ?_, ?_,
    fun plain => absurd plain open_, ?_⟩⟩, fun plain => absurd plain open_⟩
  · rw [runs]
    rcases opened.starts with starts | ⟨empty, l, hl, row⟩
    · exact .inl starts
    · obtain rfl := RowEnd.inLiteral.inj (he.symm.trans hl)
      exact .inr ⟨empty, _, rfl, row⟩
  · rw [runs]
    exact fun t ht content => Nat.lt_succ_of_lt (opened.placed t ht content)
  · intro l hl
    obtain rfl := RowEnd.inLiteral.inj hl
    exact opened.quoted literal he

/-- The rest of a row behind the end of a literal goes on with the statement, which has content in
    this literal. -/
theorem paved_literalEnd {literal : OpenLiteral} {n : Nat} {r : RowTokens}
    (he : s.rowEnd = .inLiteral literal) (hn : literal.delimiter.closing? line = some n)
    (scan : scanRow s.row line s.depth (Text.byteLength (line.take n)) (line.drop n) = .ok r)
    (depth : s.runs.depth = s.depth) (paves : Paves rows s.runs.ended a) (opened : s.Opened a) :
    (s.advance [s.closingToken literal (line.take n)] r).Paved rows ∧ (line.getLast? = some '\n' →
      (s.advance [s.closingToken literal (line.take n)] r).IsDone rows) := by
  have scanned : Scanned s.row (line.getLast? = some '\n') True s.depth r :=
    scanned_tokens (itemized_list (line.drop n))
      (getLast?_drop_of_closing? (opened.quoted literal he) hn) (fun _ => trivial) scan
  let closing := s.closingToken literal (line.take n)
  have begins : BeginsOn (s.runs.current ++ [closing]) a := by
    rcases opened.starts with starts | ⟨empty, l, hl, row⟩
    · exact starts.append [closing]
    · obtain rfl := RowEnd.inLiteral.inj (he.symm.trans hl)
      exact row ▸ beginsOn_append_cons empty (t := closing) rfl []
  refine paved_scan _ (runs_of_closingToken s literal _) depth paves scanned
    (.inl (begins.append _)) ?_
    fun _ _ => ⟨closing, by simp [closing], rfl, rfl⟩
  intro t ht content
  rcases List.mem_append.mp ht with ht | ht
  · exact Nat.le_of_lt (opened.placed t ht content)
  · rw [List.mem_singleton.mp ht]
    exact Nat.le_refl s.row

/-- Each row keeps the runs paved. -/
theorem paved_of_feeds (h : Feeds s line t) (hrow : rows.row s.row = line)
    (newline : EndsAtNewline line) (bare : '\r' ∉ line) (unjoined : s.rowEnd ≠ .joined)
    (unjoined' : t.rowEnd ≠ .joined) (paved : s.Paved rows) (done : s.IsDone rows) :
    t.Paved rows ∧ (line.getLast? = some '\n' → t.IsDone rows) := by
  obtain ⟨depth, place⟩ := paved
  have opened (goes : ¬(s.rowEnd = .plain ∧ s.depth = 0)) :
      ∃ a, Paves rows s.runs.ended a ∧ s.Opened a :=
    place.resolve_left fun rests => goes ⟨rests.plain, rests.closed⟩
  cases h with
  | nothing he hd between =>
      refine ⟨⟨depth, place⟩, fun last => ?_⟩
      have := isGap_of_betweenStatements? between '\n' (List.mem_of_getLast? last)
      exact absurd this (by decide)
  | between he hd between =>
      obtain ⟨paved, done⟩ := paved_between hrow newline bare (done he hd) depth
        (isBetween_of_betweenStatements? between)
      exact ⟨paved, fun _ => done⟩
  | indented he hd between deeper scan =>
      exact paved_open (done he hd) depth between (by simp [indentToken]) scan unjoined'
  | aligned he hd between indents inner width scan =>
      exact paved_open (done he hd) depth between (by simp [dedentToken]) scan unjoined'
  | literalMore he hn more =>
      obtain ⟨a, paves, opened⟩ := opened (by simp [he])
      obtain ⟨paved, done⟩ := paved_literalMore he depth paves opened
      exact ⟨paved, fun _ => done⟩
  | literalEnd he hn scan =>
      obtain ⟨a, paves, opened⟩ := opened (by simp [he])
      exact paved_literalEnd he hn scan depth paves opened
  | @continued r he scan =>
      obtain ⟨plain, open_⟩ := he.resolve_left unjoined
      obtain ⟨a, paves, opened⟩ := opened fun closed => open_ closed.2
      have scanned : Scanned s.row (line.getLast? = some '\n') True s.depth r :=
        scanned_tokens (itemized_list line) id (fun _ => trivial) scan
      refine paved_scan s.runs (by rw [List.append_nil]; rfl) depth paves scanned
        (.inl ((opened.beginsOn plain).append _))
        (fun t ht content => Nat.le_of_lt (opened.placed t ht content)) fun _ zero => ?_
      obtain ⟨t, ht, content⟩ := scanned.exists_content (by omega)
      exact ⟨t, List.mem_append_right _ ht, content, (scanned.isOn t ht).2⟩

theorem foldlM_concat {done : List Text} (start : done.foldlM feed initial = .ok s)
    (fed : s.feed line = .ok t) : (done ++ [line]).foldlM feed initial = .ok t := by
  have step : [line].foldlM feed s = .ok t := by
    rw [List.foldlM_cons, fed]
    rfl
  rw [List.foldlM_append, start]
  exact step

/-- What each row keeps holds behind the rows of a source. `Q` holds behind each row that ends in a
    newline. -/
theorem rows_induction {source : Text} {P Q : ScanState → Prop}
    (step : ∀ {done lines : List Text} {line : Text} {s t : ScanState},
      Text.rows source = done ++ line :: lines → done.foldlM feed initial = .ok s →
      s.row = done.length + 1 → s.feed line = .ok t → EndsAtNewline line → P s → Q s →
      P t ∧ (line.getLast? = some '\n' → Q t))
    (first : P initial) (ready : Q initial) (h : (Text.rows source).foldlM feed initial = .ok t) :
    P t := by
  have along {done lines : List Text} {s : ScanState} (split : Text.rows source = done ++ lines)
      (shape : AreRows lines) (start : done.foldlM feed initial = .ok s)
      (h : lines.foldlM feed s = .ok t) (hrow : lines ≠ [] → s.row = done.length + 1) (kept : P s)
      (ready : lines ≠ [] → Q s) : P t := by
    induction lines generalizing s done with
    | nil =>
        obtain rfl := Except.ok.inj h
        exact kept
    | cons line lines ih =>
        rw [List.foldlM_cons] at h
        obtain ⟨u, fed, rest⟩ := exists_of_bind_eq_ok h
        have split' : Text.rows source = done ++ [line] ++ lines := by rw [split]; simp
        have start' := foldlM_concat start fed
        obtain ⟨kept', ready'⟩ := step split start (hrow (by simp)) fed
          (endsAtNewline_of_areRows shape) kept (ready (by simp))
        cases shape with
        | last => exact ih split' .nil start' rest (by simp) kept' (by simp)
        | cons _ shape =>
            refine ih split' shape start' rest (fun _ => ?_) kept' fun _ => ready' (by simp)
            rw [row_of_feeds (feeds_of_feed fed) (by simp), hrow (by simp), List.length_append]
            rfl
  exact along (List.nil_append _).symm (Text.areRows_rows source) rfl h (fun _ => rfl) first
    fun _ => ready

section Split

variable {source : Text} {done lines : List Text}

/-- In an unjoined source no row is joined to the next one. -/
theorem unjoined_of_split (unjoined : IsUnjoined source)
    (split : Text.rows source = done ++ line :: lines) (start : done.foldlM feed initial = .ok s)
    (fed : s.feed line = .ok t) : s.rowEnd ≠ .joined ∧ t.rowEnd ≠ .joined :=
  ⟨unjoined done ⟨line :: lines, split.symm⟩ s start,
    unjoined (done ++ [line]) ⟨lines, by rw [split]; simp⟩ t (foldlM_concat start fed)⟩

/-- What is not in a source is on none of its rows. -/
theorem notMem_of_split {c : Char} (none : c ∉ source)
    (split : Text.rows source = done ++ line :: lines) : c ∉ line := by
  intro mem
  refine none ?_
  rw [← Text.flatten_rows source, split]
  simp [mem]

end Split

/-- The rows of an unjoined source keep the runs paved. -/
theorem paved_of_foldlM {source : Text} (unjoined : IsUnjoined source) (bare : '\r' ∉ source)
    (h : (Text.rows source).foldlM feed initial = .ok t) : t.Paved (Rows.ofSource source) := by
  refine rows_induction (fun split start hrow fed newline paved done => ?_)
    (paved_initial (Rows.ofSource source)).1 (paved_initial (Rows.ofSource source)).2 h
  obtain ⟨here, behind⟩ := unjoined_of_split unjoined split start fed
  exact paved_of_feeds (feeds_of_feed fed) (hrow ▸ Rows.row_ofSource split) newline
    (notMem_of_split bare split) here behind paved done

end ScanState

/-- The marks behind the last row end the run that goes on, and the runs behind it have no
    content. -/
theorem ScanState.ended_endMarks_cases {s : ScanState} {rows : List Text} {run : List Token}
    {pre post : List (List Token)}
    (split : (Runs.of (s.tokens.toList ++ s.endMarks rows)).ended = pre ++ run :: post)
    (content : run.filter Token.isContent ≠ []) :
    (∃ post, s.runs.ended = pre ++ run :: post) ∨
      s.runs.ended = pre ∧ ∃ more, run = s.runs.current ++ more ∧
        more.filter Token.isContent = [] := by
  have layout : ∀ m ∈ s.endMarks rows, m.isContent = false :=
    fun m hm => not_isContent_of_mem_endMarks hm
  obtain ⟨tail, ended, first, others⟩ := Runs.foldl_layout layout s.runs
  rw [Runs.of_append, ← runs, ended] at split
  rcases List.append_eq_append_iff.mp split with ⟨x, rfl, eq⟩ | ⟨x, eq, eq'⟩
  · cases x with
    | nil => exact .inr ⟨(List.append_nil _).symm, first run (by rw [eq]; rfl)⟩
    | cons y x => exact absurd (others run (by simp [eq])) content
  · cases x with
    | nil =>
        obtain rfl : tail = run :: post := eq'.symm
        exact .inr ⟨by rw [eq, List.append_nil], first run rfl⟩
    | cons y x =>
        obtain ⟨rfl, -⟩ := List.cons.inj eq'
        exact .inl ⟨x, eq⟩

/-- In an unjoined source without carriage returns, the runs in front of a statement have all rows
    in front of it. -/
theorem paves_of_tokenize {source : Text} {tokens run : List Token} {pre post : List (List Token)}
    {line : LogicalLine} (read : tokenize source = .ok tokens) (unjoined : IsUnjoined source)
    (bare : '\r' ∉ source) (split : (Runs.of tokens).ended = pre ++ run :: post)
    (hl : LogicalLine.ofTokens? (Rows.ofSource source) run = some line) :
    Paves (Rows.ofSource source) pre line.firstRow := by
  obtain ⟨s, fed, finished⟩ := ScanState.exists_of_bind_eq_ok read
  obtain ⟨plain, closed, rfl⟩ := ScanState.finish_eq_ok finished
  have paved := ScanState.paved_of_foldlM unjoined bare fed
  have content : run.filter Token.isContent ≠ [] := by
    obtain ⟨t, rest, content, -⟩ := LogicalLine.exists_of_ofTokens? hl
    rw [content]
    exact List.cons_ne_nil t rest
  rcases ScanState.ended_endMarks_cases split content with
    ⟨post, split⟩ | ⟨ended, more, joined, none⟩
  · rcases paved.place with rests | ⟨a, paves, -⟩
    · exact rests.paves.of_statement split hl
    · exact paves.of_statement split hl
  · -- a run that is still going on behind the last row ends at the marks
    have same : run.filter Token.isContent = s.runs.current.filter Token.isContent := by
      rw [joined, List.filter_append, none, List.append_nil]
    rcases paved.place with rests | ⟨a, paves, opened⟩
    · rw [rests.current] at same
      exact absurd same content
    · obtain ⟨t, rest, first, row⟩ := opened.beginsOn plain
      have starts : BeginsOn run a := ⟨t, rest, same.trans first, row⟩
      rwa [firstRow_eq hl starts, ← ended]

end StyleGuide
