import StyleGuide.Proofs.TokenStream.Extension
import StyleGuide.Proofs.TokenStream.Levels
import StyleGuide.Proofs.TokenStream.Resume

/-! # The outline of a source

The tokens of a source tell how many blocks are open at each of its statements. The same numbers are
found by skimming the rows: each statement takes the rows up to the first behind which nothing is
open, and its marks open and close the blocks that the width of its first row asks for.
-/

namespace StyleGuide

open Lexeme

/-- The number of open blocks behind some tokens, where `n` blocks are open in front of them. -/
def blocksBehind (n : Nat) (tokens : List Token) : Nat :=
  tokens.foldl (fun n t =>
    match t.kind with
    | .indent => n + 1
    | .dedent => n - 1
    | _ => n) n

/-- The number of open blocks at the first content of each run that has some, where `n` blocks are
    open in front of the runs. -/
def blockDepthsFrom (n : Nat) : List (List Token) → List Nat
  | [] => []
  | run :: runs =>
    let behind := blockDepthsFrom (blocksBehind n run) runs
    if run.any Token.isContent then
      blocksBehind n (run.takeWhile fun t => !t.isContent) :: behind
    else behind

/-- The number of open blocks at each logical line of a source. -/
def blockDepths (tokens : List Token) : List Nat := blockDepthsFrom 0 (Runs.of tokens).ended

section Marks

variable {run marks more : List Token} {n : Nat} {indents kept : List Nat}

/-- Not a mark that opens or closes a block. -/
def Token.IsUnmarked (t : Token) : Prop := t.kind ≠ .indent ∧ t.kind ≠ .dedent

theorem blocksBehind_append (n : Nat) (ts us : List Token) :
    blocksBehind n (ts ++ us) = blocksBehind (blocksBehind n ts) us := List.foldl_append

theorem blocksBehind_of_unmarked (h : ∀ t ∈ run, t.IsUnmarked) (n : Nat) :
    blocksBehind n run = n := by
  induction run with
  | nil => rfl
  | cons t run ih =>
      obtain ⟨⟨open_, close⟩, rest⟩ := List.forall_mem_cons.mp h
      have same : blocksBehind n (t :: run) = blocksBehind n run := by
        cases kind : t.kind with
        | indent => exact absurd kind open_
        | dedent => exact absurd kind close
        | _ => simp only [blocksBehind, List.foldl_cons, kind]
      rw [same]
      exact ih rest

theorem blocksBehind_dedents {α : Type} (closed : List α) (mark : Token) (kind : mark.kind = .dedent)
    (n : Nat) : blocksBehind (closed.length + n) (closed.map fun _ => mark) = n := by
  induction closed with
  | nil => simp [blocksBehind]
  | cons c closed ih =>
      have step : blocksBehind ((c :: closed).length + n) ((c :: closed).map fun _ => mark) =
          blocksBehind ((c :: closed).length + n - 1) (closed.map fun _ => mark) := by
        simp [blocksBehind, kind]
      rw [step, List.length_cons, show closed.length + 1 + n - 1 = closed.length + n by omega, ih]

/-- The marks in front of a statement lead from the open blocks `indents` to the blocks `kept`. -/
structure AreMarks (indents kept : List Nat) (marks : List Token) : Prop where
  kinds : ∀ m ∈ marks, m.kind = .indent ∨ m.kind = .dedent
  behind : blocksBehind indents.length marks = kept.length

end Marks

/-- The rows from one number to another, none of them empty, belong to one statement, and behind them
    something is open. -/
inductive Passes (rows : Rows) (a : Nat) : Nat → Pause → Prop where
  | first {p : Pause} (filled : rows.row a ≠ []) (resumes : Pause.idle.resume? (rows.row a) = some p) :
      Passes rows a (a + 1) p
  | next {b : Nat} {p q : Pause} (before : Passes rows a b p) (open_ : p ≠ .idle)
      (filled : rows.row b ≠ []) (resumes : p.resume? (rows.row b) = some q) : Passes rows a (b + 1) q

/-- The tokens of a statement that takes the rows from `a` to the one in front of `b`, behind which
    this is open. It leads from the open blocks `indents` to the blocks `kept`. -/
structure IsStatement (rows : Rows) (a b : Nat) (indents kept : List Nat) (run : List Token)
    (p : Pause) : Prop where
  opens : opensStatement (rows.row a)
  passes : Passes rows a b p
  enters : enter? (startWidth (rows.row a)) indents = some kept
  parts : ∃ marks more, run = marks ++ more ∧ AreMarks indents kept marks ∧
    (∀ t ∈ more, t.IsUnmarked) ∧ (¬startsInBackslash (rows.row a) →
      (∃ t ∈ more.head?, t.isContent) ∨ more = [] ∧ ∃ q, p.ending = .inLiteral q)
  placed : ∀ t ∈ run, t.isSolid → t.IsWithin a b

/-- The rows from a number on belong to runs, where these blocks are open in front of them. -/
inductive Outlined (rows : Rows) : Nat → List Nat → List (List Token) → Prop where
  | between {a : Nat} {indents : List Nat} {run : List Token} {runs : List (List Token)}
      (filled : rows.row a ≠ []) (between : ¬opensStatement (rows.row a))
      (bare : ∀ t ∈ run, t.isContent = false ∧ t.IsUnmarked ∧ t.start.row = a)
      (ends : ∃ t, run.getLast? = some t ∧ t.kind = .rowBreak)
      (rest : Outlined rows (a + 1) indents runs) : Outlined rows a indents (run :: runs)
  | statement {a b : Nat} {indents kept : List Nat} {run : List Token} {runs : List (List Token)}
      (statement : IsStatement rows a b indents kept run .idle)
      (ends : ∃ t, run.getLast? = some t ∧ t.kind = .newline)
      (rest : Outlined rows b kept runs) : Outlined rows a indents (run :: runs)
  /-- A newline behind a last row that holds nothing. -/
  | newline {a : Nat} {indents : List Nat} {t : Token} {runs : List (List Token)}
      (kind : t.kind = .newline) (rest : Outlined rows a indents runs) :
      Outlined rows a indents ([t] :: runs)
  /-- A statement that ends with the source. -/
  | last {a b : Nat} {indents kept : List Nat} {run tail : List Token}
      (statement : IsStatement rows a b indents kept run .idle)
      (bare : ∀ t ∈ tail, t.isContent = false)
      (ends : ∃ t, tail.getLast? = some t ∧ t.kind = .endMarker)
      (gaps : ∀ n, b ≤ n → ∀ c ∈ rows.row n, isGap c) : Outlined rows a indents [run ++ tail]
  /-- The marks at the end of the source. -/
  | marks {a : Nat} {indents : List Nat} {run : List Token} (bare : ∀ t ∈ run, t.isContent = false)
      (ends : ∃ t, run.getLast? = some t ∧ t.kind = .endMarker)
      (gaps : ∀ n, a ≤ n → ∀ c ∈ rows.row n, isGap c) : Outlined rows a indents [run]

section Statement

variable {rows : Rows} {a b : Nat} {indents kept : List Nat} {run more : List Token} {p q : Pause}

theorem Passes.lt (h : Passes rows a b p) : a < b := by
  induction h with
  | first => exact Nat.lt_succ_self a
  | next _ _ _ _ ih => exact Nat.lt_succ_of_lt ih

theorem Passes.filled (h : Passes rows a b p) {n : Nat} (le : a ≤ n) (lt : n < b) :
    rows.row n ≠ [] := by
  induction h with
  | first filled =>
      obtain rfl : n = a := by omega
      exact filled
  | @next b _ _ _ _ filled _ ih =>
      by_cases last : n = b
      · exact last ▸ filled
      · exact ih (by omega)

theorem Passes.isQuoted (h : Passes rows a b p) : p.IsQuoted := by
  induction h with
  | first _ resumes => exact Pause.isQuoted_of_resume? resumes Pause.isQuoted_idle
  | next _ _ _ resumes ih => exact Pause.isQuoted_of_resume? resumes ih

theorem AreMarks.isContent_eq_false {marks : List Token} (h : AreMarks indents kept marks) :
    ∀ m ∈ marks, m.isContent = false :=
  fun m hm => Token.not_isContent_of_mark (h.kinds m hm)

theorem AreMarks.not_isSolid {marks : List Token} (h : AreMarks indents kept marks) :
    ∀ m ∈ marks, m.isSolid = false := by
  intro m hm
  rcases h.kinds m hm with kind | kind <;> simp [Token.isSolid, kind, Token.Kind.isLayout]

/-- More tokens go on with the statement. -/
theorem IsStatement.append {c : Nat} (h : IsStatement rows a b indents kept run p)
    (more : List Token)
    (passes : Passes rows a c q) (le : b ≤ c) (unmarked : ∀ t ∈ more, t.IsUnmarked)
    (begins : ∀ r, p.ending = .inLiteral r →
      (∃ t ∈ more.head?, t.isContent) ∨ more = [] ∧ q.ending = .inLiteral r)
    (placed : ∀ t ∈ more, t.isSolid → t.IsWithin a c) :
    IsStatement rows a c indents kept (run ++ more) q := by
  obtain ⟨marks, part, rfl, are, plain, starts⟩ := h.parts
  refine ⟨h.opens, passes, h.enters, ⟨marks, part ++ more, List.append_assoc .., are, ?_, ?_⟩, ?_⟩
  · exact List.forall_mem_append.mpr ⟨plain, unmarked⟩
  · intro other
    rcases starts other with ⟨t, ht, content⟩ | ⟨rfl, r, open_⟩
    · refine .inl ⟨t, ?_, content⟩
      rw [List.head?_append, Option.mem_def.mp ht]
      rfl
    · rcases begins r open_ with content | ⟨none, open_⟩
      · exact .inl content
      · exact .inr ⟨by rw [none]; rfl, r, open_⟩
  · intro t ht solid
    rcases List.mem_append.mp ht with ht | ht
    · exact (h.placed t ht solid).mono le
    · exact placed t ht solid

/-- The marks of blocks behind a statement are those that its first row asks for. -/
theorem IsStatement.blocksBehind_eq (h : IsStatement rows a b indents kept run p) :
    blocksBehind indents.length run = kept.length := by
  obtain ⟨marks, more, rfl, are, plain, -⟩ := h.parts
  rw [blocksBehind_append, are.behind, blocksBehind_of_unmarked plain]

/-- Unless it begins with a backslash, a statement has content, and the marks of blocks stand in
    front of it. -/
theorem IsStatement.exists_content (h : IsStatement rows a b indents kept run .idle)
    (other : ¬startsInBackslash (rows.row a)) (tail : List Token) :
    (run ++ tail).any Token.isContent ∧
      blocksBehind indents.length ((run ++ tail).takeWhile fun t => !t.isContent) =
        kept.length := by
  obtain ⟨marks, more, rfl, are, -, starts⟩ := h.parts
  obtain ⟨t, ht, content⟩ := (starts other).resolve_right fun ⟨_, r, open_⟩ => by cases open_
  obtain ⟨more, rfl⟩ := List.head?_eq_some_iff.mp ht
  have none : ∀ m ∈ marks, (!m.isContent) = true := by
    simpa using are.isContent_eq_false
  refine ⟨by simp [content], ?_⟩
  rw [List.append_assoc, List.takeWhile_append_of_pos none, List.cons_append,
    List.takeWhile_cons_of_neg (by simpa using content), List.append_nil]
  exact are.behind

end Statement

/-- The tokens of a row open and close no block. -/
theorem Scanned.isUnmarked {row depth : Nat} {ended joins : Prop} {r : RowTokens}
    (h : Scanned row ended joins depth r) : ∀ t ∈ r.tokens, t.IsUnmarked := by
  intro t ht
  rcases h.isSolid_or_endsRow t ht with solid | kind | kind
  · constructor <;>
    · intro kind
      simp [Token.isSolid, kind, Token.Kind.isLayout] at solid
  all_goals simp [Token.IsUnmarked, kind]

namespace ScanState

variable {rows : Rows} {s t : ScanState} {line : Text} {a : Nat} {indents : List Nat}

/-- What comes behind the runs that have ended goes on with the outline from row `a` on. -/
def Leads (rows : Rows) (ended : List (List Token)) (a : Nat) (indents : List Nat) : Prop :=
  ∀ rest, Outlined rows a indents rest → Outlined rows 1 [] (ended ++ rest)

/-- The next row begins a run. -/
structure Free (rows : Rows) (s : ScanState) : Prop where
  idle : s.pause = .idle
  current : s.runs.current = []
  leads : Leads rows s.runs.ended s.row s.indents

/-- A statement has been opened on row `a` and has not ended. -/
structure Amid (rows : Rows) (s : ScanState) (a : Nat) (indents : List Nat) : Prop where
  leads : Leads rows s.runs.ended a indents
  statement : IsStatement rows a s.row indents s.indents s.runs.current s.pause
  literal : ∀ l, s.rowEnd = .inLiteral l → a ≤ l.start.row ∧ l.start.row < s.row ∧
    isQuote l.delimiter.mark

/-- The rows so far are outlined by the runs of the tokens so far. -/
structure Outlines (rows : Rows) (s : ScanState) : Prop where
  depth : s.runs.depth = s.depth
  place : s.Free rows ∨ ∃ a indents, s.Amid rows a indents

/-- The statement has ended if nothing is open. -/
def Closes (rows : Rows) (s : ScanState) : Prop := s.pause = .idle → s.Free rows

theorem outlines_initial (rows : Rows) : initial.Outlines rows ∧ initial.Closes rows := by
  have free : initial.Free rows := ⟨rfl, rfl, fun _ => id⟩
  exact ⟨⟨rfl, .inl free⟩, fun _ => free⟩

theorem Leads.concat {ended : List (List Token)} {run : List Token} {b : Nat} {kept : List Nat}
    (h : Leads rows ended a indents)
    (step : ∀ rest, Outlined rows b kept rest → Outlined rows a indents (run :: rest)) :
    Leads rows (ended ++ [run]) b kept := by
  intro rest outlined
  rw [List.append_assoc]
  exact h _ (step rest outlined)

section Advance

variable {front : List Token} {kept : List Nat} {r : RowTokens} {R : Runs} {ended joins : Prop}

/-- The rest of a row goes on with the statement or ends it. -/
theorem outlines_scan (hR : Runs.of (s.tokens.toList ++ front) = R) (depth : R.depth = s.depth)
    (leads : Leads rows R.ended a indents)
    (statement : IsStatement rows a (s.row + 1) indents kept (R.current ++ r.tokens) r.pause)
    (le : a ≤ s.row) (scan : Scanned s.row ended joins s.depth r) :
    ({ s with indents := kept }.advance front r).Outlines rows ∧
      (ended → ({ s with indents := kept }.advance front r).Closes rows) := by
  rcases runs_advance_cases hR depth scan with
    ⟨read, goes⟩ | ⟨read, plain, zero, t, last, kind⟩
  · refine ⟨⟨by rw [read]; rfl, .inr ⟨a, indents, by rwa [read], by rwa [read], ?_⟩⟩, ?_⟩
    · intro l hl
      obtain ⟨start, mark⟩ := scan.start_of_inLiteral hl
      rw [start]
      exact ⟨le, Nat.lt_succ_self _, mark⟩
    · intro e idle
      obtain ⟨plain, closed⟩ := pause_eq_idle_iff.mp idle
      exact absurd closed (goes e plain)
  · have idle : r.pause = .idle := by simp [RowTokens.pause, plain, zero, RowEnd.ending, Pause.idle]
    have newline : ∃ t, (R.current ++ r.tokens).getLast? = some t ∧ t.kind = .newline := by
      refine ⟨t, ?_, kind⟩
      rw [List.getLast?_append, last]
      rfl
    have free : ({ s with indents := kept }.advance front r).Free rows := by
      refine ⟨idle, by rw [read], ?_⟩
      rw [read]
      exact leads.concat fun rest outlined => .statement (idle ▸ statement) newline outlined
    exact ⟨⟨by rw [read]; exact zero.symm, .inl free⟩, fun _ _ => free⟩

/-- A row between statements is a run of its own. -/
theorem outlines_between {r : RowTokens} (free : s.Free rows) (depth : s.runs.depth = s.depth)
    (hrow : rows.row s.row = line) (filled : line ≠ [])
    (found : s.betweenStatements? line = some (some r)) (between : s.IsBetween line r) :
    (s.advance [] r).Outlines rows ∧ (s.advance [] r).Closes rows := by
  obtain ⟨plain, closed⟩ := pause_eq_idle_iff.mp free.idle
  have advance : (s.advance [] r).runs = r.tokens.foldl Runs.step s.runs := by
    rw [runs, toList_tokens_advance, List.append_nil, Runs.of_append, runs]
  have zero : s.runs.depth = 0 := depth.trans closed
  have other : ¬opensStatement (rows.row s.row) := by
    rw [hrow, ← betweenStatements?_eq_none_iff_opensStatement (s := s), found]
    exact Option.some_ne_none _
  obtain ⟨idle, read, bare, ends⟩ : r.pause = .idle ∧
      r.tokens.foldl Runs.step s.runs = ⟨s.runs.ended ++ [r.tokens], 0, []⟩ ∧
      (∀ t ∈ r.tokens, t.isContent = false ∧ t.IsUnmarked ∧ t.start.row = s.row) ∧
      ∃ t, r.tokens.getLast? = some t ∧ t.kind = .rowBreak := by
    cases between with
    | comment | blank =>
        refine ⟨?_, ?_, ?_, _, rfl, rfl⟩
        · simp [RowTokens.pause, closed, RowEnd.ending, Pause.idle]
        · simp [Runs.step, Token.endsRun, Runs.depthBehind_of_kind, free.current, zero]
        · simp [Token.isContent, Token.Kind.isLayout, Token.IsUnmarked]
  have free' : (s.advance [] r).Free rows := by
    refine ⟨idle, by rw [advance, read], ?_⟩
    rw [advance, read]
    exact free.leads.concat fun rest outlined =>
      .between (by rwa [hrow]) other bare ends outlined
  have depth' : (s.advance [] r).runs.depth = (s.advance [] r).depth := by
    rw [advance, read]
    exact (congrArg Pause.depth idle).symm
  exact ⟨⟨depth', .inl free'⟩, fun _ => free'⟩

/-- A row that opens a statement begins a run with the marks of its blocks. -/
theorem outlines_open {marks : List Token} {column : Nat} (free : s.Free rows)
    (depth : s.runs.depth = s.depth) (hrow : rows.row s.row = line) (filled : line ≠ [])
    (between : s.betweenStatements? line = none) (are : AreMarks s.indents kept marks)
    (enters : enter? (startWidth line) s.indents = some kept)
    (resumes : s.pause.resume? line = some r.pause)
    (scan : scanRow s.row line s.depth column (line.dropWhile isGap) = .ok r) :
    ({ s with indents := kept }.advance marks r).Outlines rows ∧ (line.getLast? = some '\n' →
      ({ s with indents := kept }.advance marks r).Closes rows) := by
  have items := itemized_list (line.dropWhile isGap)
  have scanned : Scanned s.row (line.getLast? = some '\n') True s.depth r :=
    scanned_tokens items getLast?_dropWhile_isGap (fun _ => trivial) scan
  have begins (other : ¬startsInBackslash (rows.row s.row)) :
      (∃ t ∈ r.tokens.head?, t.isContent) ∨
        r.tokens = [] ∧ ∃ q, r.pause.ending = .inLiteral q := by
    have head : (line.dropWhile isGap).head? ≠ some '\\' := by
      simpa [startsInBackslash, hrow] using other
    rcases starts_of_tokens items (exists_head?_of_betweenStatements? between) scan fun _ => head
      with ⟨t, more, eq, content, -⟩ | ⟨none, l, open_, -⟩
    · exact .inl ⟨t, by rw [eq]; rfl, content⟩
    · exact .inr ⟨none, l.delimiter, by rw [RowTokens.pause, open_]; rfl⟩
  refine outlines_scan (runs_of_marks free.current are.kinds) depth free.leads ?_
    (Nat.le_refl _) scanned
  refine ⟨?_, ?_, by rwa [hrow], ⟨marks, r.tokens, rfl, are, scanned.isUnmarked, begins⟩, ?_⟩
  · rw [hrow]
    exact betweenStatements?_eq_none_iff_opensStatement.mp between
  · rw [free.idle] at resumes
    exact .first (by rwa [hrow]) (by rwa [hrow])
  · intro t ht solid
    rcases List.mem_append.mp ht with ht | ht
    · rw [are.not_isSolid t ht] at solid
      cases solid
    · exact (scanned.isOn t ht).isWithin (Nat.le_refl _)

/-- A row that does not open a statement goes on with one. -/
theorem Amid.passes (h : s.Amid rows a indents) (goes : s.pause ≠ .idle)
    (hrow : rows.row s.row = line) (filled : line ≠ []) {p : Pause}
    (resumes : s.pause.resume? line = some p) : Passes rows a (s.row + 1) p :=
  .next h.statement.passes goes (by rwa [hrow]) (by rwa [hrow])

/-- A row inside a literal adds no token to the run. -/
theorem outlines_literalMore {literal : OpenLiteral} (depth : s.runs.depth = s.depth)
    (he : s.rowEnd = .inLiteral literal) (amid : s.Amid rows a indents)
    (hrow : rows.row s.row = line) (filled : line ≠ [])
    (resumes : s.pause.resume? line = some s.pause) :
    let behind := s.advance []
      ⟨[], s.depth, .inLiteral { literal with text := literal.text ++ line }⟩
    behind.Outlines rows ∧ behind.Closes rows := by
  intro behind
  have runs : behind.runs = s.runs := by simp [behind, ScanState.runs]
  have pause : behind.pause = s.pause := by
    simp [behind, ScanState.pause, advance, he, RowEnd.ending]
  have open_ : s.pause.ending = .inLiteral literal.delimiter := by
    simp [ScanState.pause, he, RowEnd.ending]
  have goes : s.pause ≠ .idle := by
    intro idle
    rw [idle] at open_
    cases open_
  refine ⟨⟨by rw [runs]; exact depth, .inr ⟨a, indents, by rw [runs]; exact amid.leads, ?_, ?_⟩⟩,
    fun idle => absurd (pause ▸ idle) goes⟩
  · have statement := amid.statement.append [] (amid.passes goes hrow filled resumes)
      (Nat.le_succ _) (List.forall_mem_nil _) (fun r open_ => .inr ⟨rfl, open_⟩)
      (List.forall_mem_nil _)
    rw [List.append_nil] at statement
    rw [runs, pause]
    exact statement
  · intro l hl
    obtain rfl := RowEnd.inLiteral.inj hl
    have := amid.literal literal he
    exact ⟨this.1, Nat.lt_succ_of_lt this.2.1, this.2.2⟩

/-- The rest of a row behind the end of a literal goes on with the statement. -/
theorem outlines_literalEnd {literal : OpenLiteral} {n : Nat} (depth : s.runs.depth = s.depth)
    (he : s.rowEnd = .inLiteral literal) (hn : literal.delimiter.closing? line = some n)
    (scan : scanRow s.row line s.depth (Text.byteLength (line.take n)) (line.drop n) = .ok r)
    (amid : s.Amid rows a indents) (hrow : rows.row s.row = line) (filled : line ≠ [])
    (resumes : s.pause.resume? line = some r.pause) :
    let behind := s.advance [s.closingToken literal (line.take n)] r
    behind.Outlines rows ∧ (line.getLast? = some '\n' → behind.Closes rows) := by
  obtain ⟨above, below, mark⟩ := amid.literal literal he
  have le : a ≤ s.row := Nat.le_of_lt (Nat.lt_of_le_of_lt above below)
  have scanned : Scanned s.row (line.getLast? = some '\n') True s.depth r :=
    scanned_tokens (itemized_list (line.drop n)) (getLast?_drop_of_closing? mark hn)
      (fun _ => trivial) scan
  have goes : s.pause ≠ .idle := by
    intro idle
    rw [(pause_eq_idle_iff.mp idle).1] at he
    cases he
  refine outlines_scan (runs_of_closingToken s literal _) depth amid.leads ?_ le scanned
  have statement := amid.statement.append (s.closingToken literal (line.take n) :: r.tokens)
    (amid.passes goes hrow filled resumes) (Nat.le_succ _) ?_ (fun _ _ => .inl ⟨_, rfl, rfl⟩) ?_
  · rw [List.append_assoc]
    exact statement
  · exact List.forall_mem_cons.mpr ⟨by simp [Token.IsUnmarked, closingToken], scanned.isUnmarked⟩
  · refine List.forall_mem_cons.mpr ⟨fun _ => ?_, fun t ht _ => (scanned.isOn t ht).isWithin le⟩
    exact ⟨above, Nat.le_of_lt below, Nat.lt_succ_self _⟩

/-- A row behind a joining backslash or inside brackets goes on with the statement. -/
theorem outlines_continued (depth : s.runs.depth = s.depth)
    (he : s.rowEnd = .joined ∨ s.rowEnd = .plain ∧ s.depth ≠ 0)
    (scan : scanRow s.row line s.depth 0 line = .ok r) (amid : s.Amid rows a indents)
    (hrow : rows.row s.row = line) (filled : line ≠ [])
    (resumes : s.pause.resume? line = some r.pause) :
    (s.advance [] r).Outlines rows ∧
      (line.getLast? = some '\n' → (s.advance [] r).Closes rows) := by
  have scanned : Scanned s.row (line.getLast? = some '\n') True s.depth r :=
    scanned_tokens (itemized_list line) id (fun _ => trivial) scan
  have goes : s.pause ≠ .idle := by
    intro idle
    obtain ⟨plain, closed⟩ := pause_eq_idle_iff.mp idle
    rcases he with he | ⟨-, open_⟩
    · rw [plain] at he
      cases he
    · exact open_ closed
  have unquoted (q : Delimiter) : s.pause.ending ≠ .inLiteral q := by
    rcases he with he | ⟨he, -⟩ <;> simp [ScanState.pause, he, RowEnd.ending]
  have le : a ≤ s.row := Nat.le_of_lt amid.statement.passes.lt
  refine outlines_scan (by rw [List.append_nil]; rfl) depth amid.leads ?_ le scanned
  exact amid.statement.append r.tokens (amid.passes goes hrow filled resumes) (Nat.le_succ _)
    scanned.isUnmarked (fun q open_ => absurd open_ (unquoted q))
    fun t ht _ => (scanned.isOn t ht).isWithin le

end Advance

/-- Each row keeps the outline. -/
theorem outlines_of_feeds (h : Feeds s line t) (hrow : rows.row s.row = line) (filled : line ≠ [])
    (joins : ∀ u ∈ t.tokens.toList, ¬u.isLoneBackslash) (outlines : s.Outlines rows)
    (closes : s.Closes rows) :
    t.Outlines rows ∧ (line.getLast? = some '\n' → t.Closes rows) := by
  obtain ⟨depth, place⟩ := outlines
  have amid (goes : s.pause ≠ .idle) : ∃ a indents, s.Amid rows a indents :=
    place.resolve_left fun free => goes free.idle
  have resumes := fun goes => resume?_of_feeds h goes joins
  have idle (he : s.rowEnd = .plain) (hd : s.depth = 0) : s.pause = .idle :=
    pause_eq_idle_iff.mpr ⟨he, hd⟩
  have fed := h
  cases h with
  | nothing he hd between =>
      refine ⟨⟨depth, place⟩, fun last => ?_⟩
      have := isGap_of_betweenStatements? between '\n' (List.mem_of_getLast? last)
      exact absurd this (by decide)
  | between he hd between =>
      obtain ⟨outlines, closes⟩ := outlines_between (closes (idle he hd)) depth hrow filled between
        (isBetween_of_betweenStatements? between)
      exact ⟨outlines, fun _ => closes⟩
  | indented he hd between deeper scan =>
      have opens := betweenStatements?_eq_none_iff_opensStatement.mp between
      have are : AreMarks s.indents (indentWidth (line.takeWhile isGap) :: s.indents)
          [s.indentToken line] := ⟨by simp [indentToken], rfl⟩
      exact outlines_open (closes (idle he hd)) depth hrow filled between are
        (enter?_of_feeds fed (idle he hd) opens) (resumes (.inr opens)) scan
  | @aligned r closed kept he hd between indents inner width scan =>
      have opens := betweenStatements?_eq_none_iff_opensStatement.mp between
      have are : AreMarks s.indents kept (closed.map fun _ => s.dedentToken line) := by
        refine ⟨by simp [dedentToken], ?_⟩
        rw [indents, List.length_append]
        exact blocksBehind_dedents closed _ rfl kept.length
      exact outlines_open (closes (idle he hd)) depth hrow filled between are
        (enter?_of_feeds fed (idle he hd) opens) (resumes (.inr opens)) scan
  | literalMore he hn more =>
      have goes : s.pause ≠ .idle := by simp [pause_eq_idle_iff, he]
      obtain ⟨a, indents, amid⟩ := amid goes
      have same : s.pause.resume? line = some s.pause := by
        rw [resumes (.inl goes)]
        simp [ScanState.pause, advance, he, RowEnd.ending]
      obtain ⟨outlines, closes⟩ := outlines_literalMore depth he amid hrow filled same
      exact ⟨outlines, fun _ => closes⟩
  | literalEnd he hn scan =>
      have goes : s.pause ≠ .idle := by simp [pause_eq_idle_iff, he]
      obtain ⟨a, indents, amid⟩ := amid goes
      exact outlines_literalEnd depth he hn scan amid hrow filled (resumes (.inl goes))
  | continued he scan =>
      have goes : s.pause ≠ .idle := by
        rw [ne_eq, pause_eq_idle_iff]
        rcases he with he | ⟨he, open_⟩ <;> simp [he]
        exact open_
      obtain ⟨a, indents, amid⟩ := amid goes
      exact outlines_continued depth he scan amid hrow filled (resumes (.inl goes))

/-- The rows of a source are outlined as they are read, where no backslash stands alone. -/
theorem outlines_of_foldlM {source : Text}
    (h : (Text.rows source).foldlM feed initial = .ok t)
    (joins : ∀ u ∈ t.tokens.toList, ¬u.isLoneBackslash) : t.Outlines (Rows.ofSource source) := by
  let Joins (s : ScanState) : Prop := ∀ u ∈ s.tokens.toList, ¬u.isLoneBackslash
  refine rows_induction (P := fun s => Joins s → s.Outlines (Rows.ofSource source))
    (Q := fun s => Joins s → s.Closes (Rows.ofSource source))
    (@fun done lines line s u split _ hrow fed _ outlines closes => ?_)
    (fun _ => (outlines_initial _).1) (fun _ => (outlines_initial _).2) h joins
  have feeds := feeds_of_feed fed
  have filled : line ≠ [] := by
    have shape := Text.areRows_rows source
    rw [split] at shape
    intro none
    cases shape.of_append_right with
    | last ne => exact ne none
    | cons => simp at none
  have before (joins : Joins u) : Joins s :=
    fun v hv => joins v ((tokens_prefix_of_feeds feeds).subset hv)
  have step (joins : Joins u) := outlines_of_feeds feeds (hrow ▸ Rows.row_ofSource split) filled joins
    (outlines (before joins)) (closes (before joins))
  exact ⟨fun joins => (step joins).1, fun last joins => (step joins).2 last⟩

/-- Behind the last row there may be a newline, and then come the marks that close all blocks. -/
theorem exists_of_endMarks (s : ScanState) (lines : List Text) :
    ∃ front marks last, s.endMarks lines = front ++ (marks ++ [last]) ∧
      (front = [] ∨ ∃ t, front = [t] ∧ t.kind = .newline) ∧
      (∀ m ∈ marks, m.kind = .indent ∨ m.kind = .dedent) ∧ last.kind = .endMarker := by
  refine ⟨_, _, _, List.append_assoc .., ?_, by simp, rfl⟩
  split
  · exact .inr ⟨_, rfl, rfl⟩
  · exact .inl rfl

/-- The marks at the end of a source end the statement that goes on, or begin a run. -/
theorem outlined_endMarks {lines : List Text} (outlines : s.Outlines rows) (idle : s.pause = .idle)
    (gaps : ∀ n, s.row ≤ n → ∀ c ∈ rows.row n, isGap c) :
    Outlined rows 1 [] (Runs.of (s.tokens.toList ++ s.endMarks lines)).ended := by
  obtain ⟨front, marks, last, eq, newline, kinds, kind⟩ := exists_of_endMarks s lines
  have zero : s.runs.depth = 0 := outlines.depth.trans (pause_eq_idle_iff.mp idle).2
  have bare : ∀ t ∈ marks ++ [last], t.isContent = false := by
    refine List.forall_mem_append.mpr ⟨fun t ht => Token.not_isContent_of_mark (kinds t ht), ?_⟩
    exact List.forall_mem_singleton.mpr (by simp [Token.isContent, kind, Token.Kind.isLayout])
  have ends : ∃ t, (marks ++ [last]).getLast? = some t ∧ t.kind = .endMarker :=
    ⟨last, by simp, kind⟩
  have closing (R : Runs) : ((marks ++ [last]).foldl Runs.step R).ended =
      R.ended ++ [R.current ++ (marks ++ [last])] := by
    rw [List.foldl_append, Runs.foldl_step_marks _ kinds, List.foldl_cons, List.foldl_nil,
      Runs.step_of_endsRun (by simp [Token.endsRun, kind]), List.append_assoc]
  rw [Runs.of_append, ← runs, eq, List.foldl_append, closing]
  rcases newline with rfl | ⟨t, rfl, kind⟩
  · rcases outlines.place with free | ⟨a, indents, amid⟩
    · have current : ([].foldl Runs.step s.runs).current = [] := free.current
      rw [current, List.nil_append]
      exact free.leads _ (.marks bare ends gaps)
    · exact amid.leads _ (.last (idle ▸ amid.statement) bare ends gaps)
  · -- the newline ends the statement, and the marks behind it are a run
    have read : [t].foldl Runs.step s.runs = ⟨s.runs.ended ++ [s.runs.current ++ [t]], 0, []⟩ := by
      rw [List.foldl_cons, List.foldl_nil,
        Runs.step_of_endsRun (by simp [Token.endsRun, kind, zero]), zero]
    rw [read, List.append_assoc]
    rcases outlines.place with free | ⟨a, indents, amid⟩
    · rw [free.current, List.nil_append]
      exact free.leads _ (.newline kind (.marks bare ends gaps))
    · have open_ (q : Delimiter) : s.pause.ending ≠ .inLiteral q := by
        rw [idle]
        exact Ending.noConfusion
      have statement := amid.statement.append [t] (idle ▸ amid.statement.passes)
        (Nat.le_refl _) (by simp [Token.IsUnmarked, kind]) (fun q h => absurd h (open_ q))
        (by simp [Token.isSolid, kind, Token.Kind.isLayout])
      exact amid.leads _ (.statement statement ⟨t, by simp, kind⟩ (.marks bare ends gaps))

end ScanState

/-- A source without backslashes that stand alone is outlined by the runs of its tokens. -/
theorem outlined_of_tokenize {source : Text} {tokens : List Token}
    (read : tokenize source = .ok tokens) (joins : ∀ t ∈ tokens, ¬t.isLoneBackslash) :
    Outlined (Rows.ofSource source) 1 [] (Runs.of tokens).ended := by
  obtain ⟨s, fold, finished⟩ := ScanState.exists_of_bind_eq_ok read
  obtain ⟨plain, closed, rfl⟩ := ScanState.finish_eq_ok finished
  have outlines := ScanState.outlines_of_foldlM fold fun u hu => joins u (List.mem_append_left _ hu)
  obtain ⟨-, gaps⟩ := ScanState.stands_of_feedsAll (ScanState.feedsAll_of_foldlM fold)
    (Text.areRows_rows source) (List.nil_append _).symm rfl (ScanState.stands_initial _).1
    fun _ => (ScanState.stands_initial _).2
  exact ScanState.outlined_endMarks outlines (ScanState.pause_eq_idle_iff.mpr ⟨plain, closed⟩) gaps

/-! ## The outline in numbers -/

section Depths

variable {rows : Rows} {a b : Nat} {indents : List Nat} {runs : List (List Token)} {p : Pause}

/-- A statement is outlined by the width of its first row. -/
theorem Passes.outline?_append (h : Passes rows a b p) (opens : opensStatement (rows.row a))
    (other : ¬startsInBackslash (rows.row a)) (more : List Text) :
    Pause.idle.outline? ((List.range' a (b - a)).map rows.row ++ more) =
      (p.outline? more).map (startWidth (rows.row a) :: ·) := by
  induction h generalizing more with
  | first _ resumes =>
      rw [Nat.add_sub_cancel_left, List.range'_one, List.map_singleton, List.singleton_append,
        Pause.outline?, if_pos rfl, if_pos opens, if_neg other, resumes, Option.bind_some]
  | @next b p q before open_ _ resumes ih =>
      have lt := before.lt
      have split : List.range' a (b + 1 - a) = List.range' a (b - a) ++ [b] := by
        rw [show b + 1 - a = b - a + 1 by omega, List.range'_concat,
          show a + 1 * (b - a) = b by omega]
      rw [split, List.map_append, List.append_assoc, List.map_singleton, List.singleton_append, ih,
        Pause.outline?, if_neg open_, resumes, Option.bind_some]

theorem Rows.drop_eq_cons (h : rows.row a ≠ []) :
    rows.toList.drop (a - 1) = rows.row a :: rows.toList.drop a := by
  have pos : a ≠ 0 := by
    rintro rfl
    exact h rfl
  have lt : a - 1 < rows.size := by
    by_contra out
    rw [Rows.row, if_neg pos, Array.getElem?_eq_none (by omega)] at h
    exact h rfl
  have here : rows.row a = rows[a - 1] := by
    rw [Rows.row, if_neg pos, Array.getElem?_eq_getElem lt]
    rfl
  rw [List.drop_eq_getElem_cons (show a - 1 < rows.toList.length from lt), here,
    Array.getElem_toList, Nat.sub_add_cancel (Nat.pos_of_ne_zero pos)]

theorem Passes.drop_eq (h : Passes rows a b p) : rows.toList.drop (a - 1) =
    (List.range' a (b - a)).map rows.row ++ rows.toList.drop (b - 1) := by
  induction h with
  | first filled =>
      rw [Rows.drop_eq_cons filled, Nat.add_sub_cancel_left, List.range'_one]
      rfl
  | @next b p q before _ filled _ ih =>
      have lt := before.lt
      have split : List.range' a (b + 1 - a) = List.range' a (b - a) ++ [b] := by
        rw [show b + 1 - a = b - a + 1 by omega, List.range'_concat,
          show a + 1 * (b - a) = b by omega]
      rw [ih, Rows.drop_eq_cons filled, split, List.map_append, List.append_assoc]
      rfl

/-- Rows that hold no more than a gap have an empty outline. -/
theorem Pause.outline?_of_gaps {lines : List Text} (h : ∀ line ∈ lines, ∀ c ∈ line, isGap c) :
    idle.outline? lines = some [] := by
  induction lines with
  | nil => rfl
  | cons line lines ih =>
      obtain ⟨gaps, rest⟩ := List.forall_mem_cons.mp h
      have between : opensStatement line = false := by
        rw [opensStatement, List.dropWhile_eq_nil_iff.mpr gaps]
        rfl
      simp only [outline?, if_true, between]
      exact ih rest

theorem Rows.isGap_of_mem_drop (gaps : ∀ n, a ≤ n → ∀ c ∈ rows.row n, isGap c) :
    ∀ line ∈ rows.toList.drop (a - 1), ∀ c ∈ line, isGap c := by
  intro line hl
  obtain ⟨i, lt, rfl⟩ := List.mem_iff_getElem.mp hl
  rw [List.length_drop, Array.length_toList] at lt
  have here : rows.row (a - 1 + i + 1) = (rows.toList.drop (a - 1))[i] := by
    rw [Rows.row, if_neg (Nat.succ_ne_zero _), Nat.add_sub_cancel,
      Array.getElem?_eq_getElem (by omega), List.getElem_drop, Array.getElem_toList]
    rfl
  rw [← here]
  exact gaps _ (by omega)

/-- The numbers of open blocks that the runs tell are those that the widths of the statements
    ask for. -/
theorem Outlined.nesting?_eq (h : Outlined rows a indents runs) {widths : List Nat}
    (outlined : Pause.idle.outline? (rows.toList.drop (a - 1)) = some widths) :
    nesting? indents widths = some (blockDepthsFrom indents.length runs) := by
  induction h generalizing widths with
  | @between a indents run runs filled between bare _ _ ih =>
      rw [Rows.drop_eq_cons filled] at outlined
      simp only [Pause.outline?, if_true, if_neg between] at outlined
      have none : run.any Token.isContent = false := by
        simpa using fun t ht => (bare t ht).1
      have behind : blocksBehind indents.length run = indents.length :=
        blocksBehind_of_unmarked (fun t ht => (bare t ht).2.1) _
      rw [blockDepthsFrom, none, behind]
      exact ih outlined
  | @statement a b indents kept run runs statement _ _ ih =>
      have opens := statement.opens
      have filled := statement.passes.drop_eq
      have other : ¬startsInBackslash (rows.row a) := by
        intro other
        rw [Rows.drop_eq_cons (fun none => by simp [opensStatement, none] at opens)] at outlined
        simp [Pause.outline?, opens, other] at outlined
      rw [filled, statement.passes.outline?_append opens other, Option.map_eq_some_iff] at outlined
      obtain ⟨widths, outlined, rfl⟩ := outlined
      obtain ⟨content, front⟩ := statement.exists_content other []
      rw [List.append_nil] at content front
      rw [nesting?, statement.enters, Option.bind_some, ih outlined, blockDepthsFrom, content,
        if_pos rfl, front, statement.blocksBehind_eq]
      rfl
  | @newline a indents t runs kind _ ih =>
      have none : [t].any Token.isContent = false := by
        simp [Token.isContent, kind, Token.Kind.isLayout]
      have behind : blocksBehind indents.length [t] = indents.length :=
        blocksBehind_of_unmarked (by simp [Token.IsUnmarked, kind]) _
      rw [blockDepthsFrom, none, behind]
      exact ih outlined
  | @last a b indents kept run tail statement _ _ gaps =>
      have opens := statement.opens
      have other : ¬startsInBackslash (rows.row a) := by
        intro other
        rw [Rows.drop_eq_cons (fun none => by simp [opensStatement, none] at opens)] at outlined
        simp [Pause.outline?, opens, other] at outlined
      rw [statement.passes.drop_eq, statement.passes.outline?_append opens other,
        Pause.outline?_of_gaps (Rows.isGap_of_mem_drop gaps)] at outlined
      obtain rfl := Option.some.inj outlined
      obtain ⟨content, front⟩ := statement.exists_content other tail
      rw [nesting?, statement.enters, Option.bind_some, blockDepthsFrom, content, if_pos rfl, front]
      rfl
  | @marks a indents run bare _ gaps =>
      rw [Pause.outline?_of_gaps (Rows.isGap_of_mem_drop gaps)] at outlined
      obtain rfl := Option.some.inj outlined
      have none : run.any Token.isContent = false := by simpa using bare
      rw [blockDepthsFrom, none]
      rfl

end Depths

/-- A source that can be outlined can be read if its widths nest, and then its tokens have the numbers
    of open blocks that the widths ask for. -/
theorem map_blockDepths_of_outline? {source : Text} {widths : List Nat}
    (outlined : Pause.idle.outline? (Text.rows source) = some widths) :
    (tokenize source).toOption.map blockDepths = nesting? [] widths := by
  have rows : (Rows.ofSource source).toList.drop (1 - 1) = Text.rows source := rfl
  have of_read {tokens : List Token} (read : tokenize source = .ok tokens) :
      nesting? [] widths = some (blockDepths tokens) := by
    obtain ⟨s, fold, finished⟩ := ScanState.exists_of_bind_eq_ok read
    obtain ⟨-, -, rfl⟩ := ScanState.finish_eq_ok finished
    have joins := ScanState.joins_of_outline? fold outlined nofun
    refine (outlined_of_tokenize read fun t ht => ?_).nesting?_eq (rows ▸ outlined)
    rcases List.mem_append.mp ht with ht | ht
    · exact joins t ht
    · intro lone
      have content := ScanState.not_isContent_of_mem_endMarks ht
      simp only [Token.isLoneBackslash, Bool.and_eq_true, beq_iff_eq] at lone
      simp [Token.isContent, lone.1, Token.Kind.isLayout] at content
  cases read : tokenize source with
  | ok tokens => exact (of_read read).symm
  | error e =>
      cases nests : nesting? [] widths with
      | none => rfl
      | some depths =>
          obtain ⟨s, fold, idle⟩ := ScanState.exists_foldlM_of_outline? (s := .initial) outlined
            nests nofun
          obtain ⟨plain, closed⟩ := ScanState.pause_eq_idle_iff.mp idle
          have finished : s.finish (Text.rows source) =
              .ok (s.tokens.toList ++ s.endMarks (Text.rows source)) := by
            simp [ScanState.finish, plain, closed]
          have read' : tokenize source =
              .ok (s.tokens.toList ++ s.endMarks (Text.rows source)) := by
            simp only [tokenize, fold]
            exact finished
          rw [read] at read'
          cases read'

end StyleGuide
