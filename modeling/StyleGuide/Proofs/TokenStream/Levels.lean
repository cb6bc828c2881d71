import StyleGuide.Proofs.LogicalLine.Alike
import StyleGuide.Proofs.TokenStream.Paving

/-! # The levels of statements

The gap in front of a statement is measured twice, by the tokenizer for its blocks and again for the
rules. Where there are no form feeds both come to the same. So where no backslash joins rows, the
level of each statement is the width of the block it stands in, and the marks in front of its first
content say how it differs from the level of the statement before it.
-/

namespace StyleGuide

/-- Without form feeds a gap is as wide for the rules as for the blocks. -/
theorem indentLevel_eq_indentWidth {gap : Text} (hg : ∀ c ∈ gap, Lexeme.isGap c)
    (free : '\x0c' ∉ gap) : indentLevel 8 gap = indentWidth gap := by
  have inner : ∀ c ∈ gap, (c == ' ' || c == '\t') = true := by
    intro c hc
    have other : c ≠ '\x0c' := fun same => free (same ▸ hc)
    simpa [Lexeme.isGap, other] using hg c hc
  have widths (start : Nat) : gap.foldl (Text.columnBehind 8) start =
      gap.foldl (fun width c => if c == '\x0c' then 0 else Text.columnBehind 8 width c) start := by
    clear hg inner
    induction gap generalizing start with
    | nil => rfl
    | cons c gap ih =>
        obtain ⟨first, free⟩ := not_or.mp (mt List.mem_cons.mpr free)
        rw [List.foldl_cons, List.foldl_cons, if_neg (by simpa using Ne.symm first), ih free]
  rw [indentLevel, List.takeWhile_eq_self_iff.mpr inner]
  exact widths 0

/-- A statement begins at `start`, behind marks of blocks. In front of the marks the innermost block
    is as wide as `w`, and behind the first row of the statement as wide as `v`. -/
structure Opening (source : Text) (w : Nat) (marks : List Token) (start : Position) (v : Nat) :
    Prop where
  layout : marks.filter Token.isContent = []
  deeper : w < v ↔ marks.getLast?.map Token.kind = some .indent
  outer : v < w ↔ marks.getLast?.map Token.kind = some .dedent
  level : indentLevel 8
    (Text.takeBytes start.column ((Rows.ofSource source).shown start.row)) = v
  read : ∃ s, ((Text.rows source).take start.row).foldlM ScanState.feed .initial = .ok s ∧
    s.indent = v

/-- The first content of the run stands at `start` and directly behind the marks. -/
def BeginsAt (run marks : List Token) (start : Position) : Prop :=
  ∃ first rest, run = marks ++ first :: rest ∧ first.isContent ∧ first.start = start

/-- The last statement of the runs stands in a block as wide as a number. -/
inductive Levels (source : Text) : List (List Token) → Nat → Prop where
  | nil : Levels source [] 0
  | between {runs : List (List Token)} {w : Nat} {run : List Token} (before : Levels source runs w)
      (none : run.filter Token.isContent = [])
      (ends : ∃ t, run.getLast? = some t ∧ t.kind = .rowBreak) : Levels source (runs ++ [run]) w
  | statement {runs : List (List Token)} {w v : Nat} {run marks : List Token} {start : Position}
      (before : Levels source runs w) (opening : Opening source w marks start v)
      (begins : BeginsAt run marks start) (ends : ∃ t, run.getLast? = some t ∧ t.kind = .newline) :
      Levels source (runs ++ [run]) v

section Run

variable {source : Text} {runs pre post : List (List Token)} {run marks more : List Token}
  {start : Position} {w v : Nat}

/-- Behind marks of blocks, the first content of the run stands where the statement begins. -/
theorem BeginsAt.exists_content (h : BeginsAt run marks start)
    (layout : marks.filter Token.isContent = []) :
    ∃ first rest, run.filter Token.isContent = first :: rest ∧ first.start = start := by
  obtain ⟨first, rest, rfl, content, here⟩ := h
  refine ⟨first, rest.filter Token.isContent, ?_, here⟩
  rw [List.filter_append, layout, List.filter_cons_of_pos content, List.nil_append]

theorem BeginsAt.append (h : BeginsAt run marks start) (more : List Token) :
    BeginsAt (run ++ more) marks start := by
  obtain ⟨first, rest, rfl, content, here⟩ := h
  exact ⟨first, rest ++ more, by simp, content, here⟩

/-- In front of each run with content there is a level. -/
theorem Levels.exists_opening (h : Levels source runs v) (split : runs = pre ++ run :: post)
    (content : run.filter Token.isContent ≠ []) :
    ∃ w marks start v, Levels source pre w ∧ Opening source w marks start v ∧
      BeginsAt run marks start := by
  induction h generalizing post with
  | nil => cases pre <;> cases split
  | between before none ends ih =>
      rcases eq_or_exists_of_concat split with ⟨-, rfl⟩ | ⟨post, split⟩
      · exact absurd none content
      · exact ih split
  | statement before opening begins ends ih =>
      rcases eq_or_exists_of_concat split with ⟨rfl, rfl⟩ | ⟨post, split⟩
      · exact ⟨_, _, _, _, before, opening, begins⟩
      · exact ih split

theorem Levels.eq_zero (h : Levels source [] w) : w = 0 := by
  generalize none : ([] : List (List Token)) = runs at h
  cases h with
  | nil => rfl
  | between | statement => simp at none

/-- The token that ends a run tells what the run is. -/
theorem Levels.concat_cases {t : Token} (h : Levels source (runs ++ [run ++ [t]]) v) :
    t.kind = .rowBreak ∧ Levels source runs v ∨
      t.kind = .newline ∧ ∃ w marks start, Levels source runs w ∧
        Opening source w marks start v ∧ BeginsAt (run ++ [t]) marks start := by
  generalize whole : runs ++ [run ++ [t]] = all at h
  have last {u : Token} (ends : (run ++ [t]).getLast? = some u) : t = u :=
    Option.some.inj (List.getLast?_concat.symm.trans ends)
  cases h with
  | nil => cases List.append_ne_nil_of_right_ne_nil runs (List.cons_ne_nil _ []) whole
  | between before none ends =>
      obtain ⟨rfl, rfl⟩ := List.append_singleton_inj.mp whole
      obtain ⟨u, ends, kind⟩ := ends
      exact .inl ⟨last ends ▸ kind, before⟩
  | statement before opening begins ends =>
      obtain ⟨rfl, rfl⟩ := List.append_singleton_inj.mp whole
      obtain ⟨u, ends, kind⟩ := ends
      exact .inr ⟨last ends ▸ kind, _, _, _, before, opening, begins⟩

/-- No mark of a block ends a run. -/
theorem Levels.kind_getLast? (h : Levels source runs w) :
    runs.flatten.getLast?.map Token.kind ∈ [none, some .rowBreak, some .newline] := by
  cases h with
  | nil => simp
  | between before none ends =>
      obtain ⟨t, last, kind⟩ := ends
      simp [last, kind]
  | statement before opening begins ends =>
      obtain ⟨t, last, kind⟩ := ends
      simp [last, kind]

/-- A mark of a block in front of a statement is one of its own. -/
theorem Levels.getLast?_append (h : Levels source runs w) (marks : List Token) {kind : Token.Kind}
    (mark : kind = .indent ∨ kind = .dedent) :
    (runs.flatten ++ marks).getLast?.map Token.kind = some kind ↔
      marks.getLast?.map Token.kind = some kind := by
  rw [List.getLast?_append]
  cases marks.getLast? with
  | none =>
      have last := h.kind_getLast?
      rcases mark with rfl | rfl <;> simp at last ⊢ <;> grind
  | some m => rfl

end Run

namespace ScanState

variable {source line : Text} {s t : ScanState} {marks : List Token} {start : Position} {w v : Nat}

/-- The next row begins a run. -/
structure Settled (source : Text) (s : ScanState) : Prop where
  plain : s.rowEnd = .plain
  closed : s.depth = 0
  current : s.runs.current = []
  levels : Levels source s.runs.ended s.indent

/-- A statement has been opened and has not ended. -/
structure Underway (source : Text) (s : ScanState) (w : Nat) (marks : List Token)
    (start : Position) : Prop where
  levels : Levels source s.runs.ended w
  opening : Opening source w marks start s.indent
  starts : BeginsAt s.runs.current marks start ∨ s.runs.current = marks ∧
    ∃ l, s.rowEnd = .inLiteral l ∧ l.start = start
  quoted : ∀ l, s.rowEnd = .inLiteral l → Lexeme.isQuote l.delimiter.mark

/-- The statements so far have their levels. -/
structure Leveled (source : Text) (s : ScanState) : Prop where
  depth : s.runs.depth = s.depth
  place : s.Settled source ∨ ∃ w marks start, s.Underway source w marks start

/-- The statement has ended if nothing is open. -/
def Settles (source : Text) (s : ScanState) : Prop :=
  s.rowEnd = .plain → s.depth = 0 → s.Settled source

theorem leveled_initial (source : Text) : initial.Leveled source ∧ initial.Settles source :=
  ⟨⟨rfl, .inl ⟨rfl, rfl, rfl, .nil⟩⟩, fun _ _ => ⟨rfl, rfl, rfl, .nil⟩⟩

theorem Underway.begins (h : s.Underway source w marks start) (plain : s.rowEnd = .plain) :
    BeginsAt s.runs.current marks start := by
  rcases h.starts with begins | ⟨-, l, open_, -⟩
  · exact begins
  · rw [plain] at open_
    cases open_

/-- The rest of a row goes on with the statement or ends it. -/
theorem leveled_scan {front : List Token} {indents : List Nat} {r : RowTokens} {ended joins : Prop}
    {R : Runs} (hR : Runs.of (s.tokens.toList ++ front) = R) (depth : R.depth = s.depth)
    (levels : Levels source R.ended w) (opening : Opening source w marks start (indents.headD 0))
    (scan : Scanned s.row ended joins s.depth r)
    (starts : BeginsAt (R.current ++ r.tokens) marks start ∨ R.current ++ r.tokens = marks ∧
      ∃ l, r.rowEnd = .inLiteral l ∧ l.start = start) :
    ({ s with indents := indents }.advance front r).Leveled source ∧
      (ended → ({ s with indents := indents }.advance front r).Settles source) := by
  rcases runs_advance_cases hR depth scan with
    ⟨read, goes⟩ | ⟨read, plain, zero, t, last, kind⟩
  · refine ⟨⟨by rw [read]; rfl, .inr ⟨w, marks, start, by rwa [read], opening, by rwa [read],
      fun l hl => (scan.start_of_inLiteral hl).2⟩⟩, fun e plain zero => absurd zero (goes e plain)⟩
  · have begins : BeginsAt (R.current ++ r.tokens) marks start := by
      rcases starts with begins | ⟨-, l, open_, -⟩
      · exact begins
      · rw [plain] at open_
        cases open_
    have newline : ∃ t, (R.current ++ r.tokens).getLast? = some t ∧ t.kind = .newline := by
      refine ⟨t, ?_, kind⟩
      rw [List.getLast?_append, last]
      rfl
    have settled : ({ s with indents := indents }.advance front r).Settled source := by
      refine ⟨plain, zero, by rw [read], ?_⟩
      rw [read]
      exact levels.statement opening begins newline
    exact ⟨⟨by rw [read]; exact zero.symm, .inl settled⟩, fun _ _ _ => settled⟩

/-- A row between statements has no level of its own. -/
theorem leveled_between {r : RowTokens} (settled : s.Settled source)
    (depth : s.runs.depth = s.depth) (between : s.IsBetween line r) :
    (s.advance [] r).Leveled source ∧ (s.advance [] r).Settles source := by
  have advance : (s.advance [] r).runs = r.tokens.foldl Runs.step s.runs := by
    rw [runs, toList_tokens_advance, List.append_nil, Runs.of_append, runs]
  have zero : s.runs.depth = 0 := depth.trans settled.closed
  obtain ⟨plain, closed, read, none, ends⟩ : r.rowEnd = .plain ∧ r.depth = 0 ∧
      r.tokens.foldl Runs.step s.runs = ⟨s.runs.ended ++ [r.tokens], 0, []⟩ ∧
      r.tokens.filter Token.isContent = [] ∧
      ∃ t, r.tokens.getLast? = some t ∧ t.kind = .rowBreak := by
    cases between with
    | comment | blank =>
        refine ⟨rfl, settled.closed, ?_, rfl, _, rfl, rfl⟩
        simp [Runs.step, Token.endsRun, Runs.depthBehind_of_kind, settled.current, zero]
  have settled' : (s.advance [] r).Settled source := by
    refine ⟨plain, closed, by rw [advance, read], ?_⟩
    rw [advance, read]
    exact settled.levels.between none ends
  exact ⟨⟨by rw [advance, read]; exact closed.symm, .inl settled'⟩, fun _ _ => settled'⟩

/-- A row that opens a statement begins a run with the marks of its blocks, which tell the width of
    the innermost block behind it from the width in front of it. -/
theorem leveled_open {indents : List Nat} {r : RowTokens} (settled : s.Settled source)
    (depth : s.runs.depth = s.depth) (hrow : (Rows.ofSource source).row s.row = line)
    (free : '\x0c' ∉ line) (between : s.betweenStatements? line = none)
    (hm : ∀ m ∈ marks, m.kind = .indent ∨ m.kind = .dedent)
    (width : indents.headD 0 = indentWidth (line.takeWhile Lexeme.isGap))
    (deeper : s.indent < indents.headD 0 ↔ marks.getLast?.map Token.kind = some .indent)
    (outer : indents.headD 0 < s.indent ↔ marks.getLast?.map Token.kind = some .dedent)
    (scan : scanRow s.row line s.depth (Text.byteLength (line.takeWhile Lexeme.isGap))
      (line.dropWhile Lexeme.isGap) = .ok r) (unjoined : r.rowEnd ≠ .joined)
    (read : ((Text.rows source).take s.row).foldlM feed initial =
      .ok ({ s with indents := indents }.advance marks r)) :
    ({ s with indents := indents }.advance marks r).Leveled source ∧ (line.getLast? = some '\n' →
      ({ s with indents := indents }.advance marks r).Settles source) := by
  have items := itemized_list (line.dropWhile Lexeme.isGap)
  have scanned : Scanned s.row (line.getLast? = some '\n') True s.depth r :=
    scanned_tokens items getLast?_dropWhile_isGap (fun _ => trivial) scan
  have starts :=
    starts_of_tokens items (exists_head?_of_betweenStatements? between) scan
      fun joined => absurd joined unjoined
  have opening : Opening source s.indent marks
      ⟨s.row, Text.byteLength (line.takeWhile Lexeme.isGap)⟩ (indents.headD 0) := by
    refine ⟨filter_isContent_of_marks hm, deeper, outer, ?_, _, read, rfl⟩
    have holds : (Rows.ofSource source).Holds (line.takeWhile Lexeme.isGap)
        ⟨s.row, Text.byteLength (line.takeWhile Lexeme.isGap)⟩ :=
      ⟨hrow ▸ List.takeWhile_prefix _, rfl⟩
    rw [indentLevel_takeBytes_shown holds, width]
    exact indentLevel_eq_indentWidth (fun c hc => List.mem_takeWhile_imp hc)
      fun mem => free ((List.takeWhile_prefix _).subset mem)
  refine leveled_scan (runs_of_marks settled.current hm) depth settled.levels opening scanned ?_
  rcases starts with ⟨first, rest, eq, content, here⟩ | ⟨eq, l, open_, here⟩
  · exact .inl ⟨first, rest, by rw [eq], content, here⟩
  · exact .inr ⟨by rw [eq, List.append_nil], l, open_, here⟩

/-- A row that closes blocks is not as deep as the innermost of them, and other rows are as deep as
    the innermost block. -/
theorem aligned_cases {closed kept : List Nat} (indents : s.indents = closed ++ kept)
    (inner : ∀ c ∈ closed, kept.headD 0 < c) :
    closed = [] ∧ kept.headD 0 = s.indent ∨ closed ≠ [] ∧ kept.headD 0 < s.indent := by
  rw [indent, indents]
  cases closed with
  | nil => exact .inl ⟨rfl, rfl⟩
  | cons c closed => exact .inr ⟨List.cons_ne_nil c closed, inner c (List.mem_cons_self ..)⟩

/-- A row that goes on with the blocks it stands in begins with a mark for each that it closes. -/
theorem leveled_aligned {closed kept : List Nat} {r : RowTokens} (settled : s.Settled source)
    (depth : s.runs.depth = s.depth) (hrow : (Rows.ofSource source).row s.row = line)
    (free : '\x0c' ∉ line) (between : s.betweenStatements? line = none)
    (indents : s.indents = closed ++ kept)
    (inner : ∀ c ∈ closed, indentWidth (line.takeWhile Lexeme.isGap) < c)
    (width : kept.headD 0 = indentWidth (line.takeWhile Lexeme.isGap))
    (scan : scanRow s.row line s.depth (Text.byteLength (line.takeWhile Lexeme.isGap))
      (line.dropWhile Lexeme.isGap) = .ok r) (unjoined : r.rowEnd ≠ .joined)
    (read : ((Text.rows source).take s.row).foldlM feed initial =
      .ok ({ s with indents := kept }.advance (closed.map fun _ => s.dedentToken line) r)) :
    let behind := { s with indents := kept }.advance (closed.map fun _ => s.dedentToken line) r
    behind.Leveled source ∧ (line.getLast? = some '\n' → behind.Settles source) := by
  refine leveled_open settled depth hrow free between (by simp [dedentToken]) width ?_ ?_ scan
    unjoined read
  · rcases aligned_cases indents (width ▸ inner) with ⟨rfl, same⟩ | ⟨-, outer⟩
    · exact iff_of_false (by omega) (by simp)
    · refine iff_of_false (Nat.lt_asymm outer) fun last => ?_
      obtain ⟨m, last, kind⟩ := Option.map_eq_some_iff.mp last
      obtain ⟨_, -, rfl⟩ := List.mem_map.mp (List.mem_of_getLast? last)
      cases kind
  · rcases aligned_cases indents (width ▸ inner) with ⟨rfl, same⟩ | ⟨some, outer⟩
    · exact iff_of_false (by omega) (by simp)
    · obtain ⟨front, c, rfl⟩ := (List.eq_nil_or_concat closed).resolve_left some
      exact iff_of_true outer (by simp [dedentToken])

/-- A row inside a literal adds no token to the run. -/
theorem leveled_literalMore {literal : OpenLiteral} (he : s.rowEnd = .inLiteral literal)
    (depth : s.runs.depth = s.depth) (underway : s.Underway source w marks start) :
    let behind := s.advance []
      ⟨[], s.depth, .inLiteral { literal with text := literal.text ++ line }⟩
    behind.Leveled source ∧ behind.Settles source := by
  intro behind
  obtain ⟨levels, opening, starts, quoted⟩ := underway
  have runs : behind.runs = s.runs := by simp [behind, ScanState.runs]
  have open_ : behind.rowEnd ≠ .plain := by simp [behind, advance]
  refine ⟨⟨by rw [runs]; exact depth, .inr ⟨w, marks, start, by rwa [runs], opening, ?_, ?_⟩⟩,
    fun plain => absurd plain open_⟩
  · rw [runs]
    rcases starts with begins | ⟨current, l, open_, here⟩
    · exact .inl begins
    · obtain rfl := RowEnd.inLiteral.inj (he.symm.trans open_)
      exact .inr ⟨current, _, rfl, here⟩
  · intro l hl
    obtain rfl := RowEnd.inLiteral.inj hl
    exact quoted literal he

/-- The rest of a row behind the end of a literal goes on with the statement, which may begin with
    this literal. -/
theorem leveled_literalEnd {literal : OpenLiteral} {n : Nat} {r : RowTokens}
    (he : s.rowEnd = .inLiteral literal) (hn : literal.delimiter.closing? line = some n)
    (scan : scanRow s.row line s.depth (Text.byteLength (line.take n)) (line.drop n) = .ok r)
    (depth : s.runs.depth = s.depth) (underway : s.Underway source w marks start) :
    let behind := s.advance [s.closingToken literal (line.take n)] r
    behind.Leveled source ∧ (line.getLast? = some '\n' → behind.Settles source) := by
  obtain ⟨levels, opening, starts, quoted⟩ := underway
  have scanned : Scanned s.row (line.getLast? = some '\n') True s.depth r :=
    scanned_tokens (itemized_list (line.drop n)) (getLast?_drop_of_closing? (quoted _ he) hn)
      (fun _ => trivial) scan
  refine leveled_scan (runs_of_closingToken s literal _) depth levels opening scanned (.inl ?_)
  rcases starts with begins | ⟨current, l, open_, here⟩
  · exact (begins.append _).append _
  · obtain rfl := RowEnd.inLiteral.inj (he.symm.trans open_)
    exact ⟨s.closingToken literal (line.take n), r.tokens, by simp [current], rfl, here⟩

/-- Each row keeps the levels. -/
theorem leveled_of_feeds (h : Feeds s line t) (hrow : (Rows.ofSource source).row s.row = line)
    (free : '\x0c' ∉ line) (unjoined : s.rowEnd ≠ .joined) (unjoined' : t.rowEnd ≠ .joined)
    (read : ((Text.rows source).take s.row).foldlM feed initial = .ok t)
    (leveled : s.Leveled source) (settles : s.Settles source) :
    t.Leveled source ∧ (line.getLast? = some '\n' → t.Settles source) := by
  obtain ⟨depth, place⟩ := leveled
  have underway (goes : ¬(s.rowEnd = .plain ∧ s.depth = 0)) :
      ∃ w marks start, s.Underway source w marks start :=
    place.resolve_left fun settled => goes ⟨settled.plain, settled.closed⟩
  cases h with
  | nothing he hd between =>
      refine ⟨⟨depth, place⟩, fun last => ?_⟩
      have := isGap_of_betweenStatements? between '\n' (List.mem_of_getLast? last)
      exact absurd this (by decide)
  | between he hd between =>
      obtain ⟨leveled, settles⟩ := leveled_between (settles he hd) depth
        (isBetween_of_betweenStatements? between)
      exact ⟨leveled, fun _ => settles⟩
  | indented he hd between deeper scan =>
      refine leveled_open (settles he hd) depth hrow free between (by simp [indentToken]) rfl ?_ ?_
        scan unjoined' read
      · simp [indentToken, deeper]
      · simp [indentToken, Nat.le_of_lt deeper]
  | aligned he hd between indents inner width scan =>
      exact leveled_aligned (settles he hd) depth hrow free between indents inner width scan
        unjoined' read
  | literalMore he hn more =>
      obtain ⟨w, marks, start, underway⟩ := underway (by simp [he])
      obtain ⟨leveled, settles⟩ := leveled_literalMore he depth underway
      exact ⟨leveled, fun _ => settles⟩
  | literalEnd he hn scan =>
      obtain ⟨w, marks, start, underway⟩ := underway (by simp [he])
      exact leveled_literalEnd he hn scan depth underway
  | @continued r he scan =>
      obtain ⟨plain, open_⟩ := he.resolve_left unjoined
      obtain ⟨w, marks, start, underway⟩ := underway fun closed => open_ closed.2
      have scanned : Scanned s.row (line.getLast? = some '\n') True s.depth r :=
        scanned_tokens (itemized_list line) id (fun _ => trivial) scan
      exact leveled_scan (by rw [List.append_nil]; rfl) depth underway.levels underway.opening
        scanned (.inl ((underway.begins plain).append _))

/-- The rows of an unjoined source keep the levels. -/
theorem leveled_of_foldlM (unjoined : IsUnjoined source) (free : '\x0c' ∉ source)
    (h : (Text.rows source).foldlM feed initial = .ok t) : t.Leveled source := by
  refine rows_induction (fun split start hrow fed _ leveled settles => ?_)
    (leveled_initial source).1 (leveled_initial source).2 h
  obtain ⟨here, behind⟩ := unjoined_of_split unjoined split start fed
  refine leveled_of_feeds (feeds_of_feed fed) (hrow ▸ Rows.row_ofSource split)
    (notMem_of_split free split) here behind ?_ leveled settles
  rw [hrow, split, List.append_cons, List.take_left' (by simp)]
  exact foldlM_concat start fed

end ScanState

/-- In an unjoined source without form feeds each run with content begins with the marks that tell
    its level from the one in front of it. -/
theorem exists_opening_of_tokenize {source : Text} {tokens run : List Token}
    {pre post : List (List Token)} (read : tokenize source = .ok tokens)
    (unjoined : IsUnjoined source) (free : '\x0c' ∉ source)
    (split : (Runs.of tokens).ended = pre ++ run :: post)
    (content : run.filter Token.isContent ≠ []) :
    ∃ w marks start v, Levels source pre w ∧ Opening source w marks start v ∧
      BeginsAt run marks start := by
  obtain ⟨s, fed, finished⟩ := ScanState.exists_of_bind_eq_ok read
  obtain ⟨plain, closed, rfl⟩ := ScanState.finish_eq_ok finished
  obtain ⟨-, place⟩ := ScanState.leveled_of_foldlM unjoined free fed
  rcases ScanState.ended_endMarks_cases split content with ⟨post, split⟩ | ⟨ended, more, rfl, none⟩
  · rcases place with settled | ⟨w, marks, start, underway⟩
    · exact settled.levels.exists_opening split content
    · exact underway.levels.exists_opening split content
  · -- a run that is still going on behind the last row ends at the marks
    rcases place with settled | ⟨w, marks, start, underway⟩
    · rw [settled.current, List.nil_append] at content
      exact absurd none content
    · exact ⟨w, marks, start, s.indent, ended ▸ underway.levels, underway.opening,
        (underway.begins plain).append more⟩

end StyleGuide
