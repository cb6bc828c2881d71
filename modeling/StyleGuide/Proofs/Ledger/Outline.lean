import StyleGuide.Proofs.Checker.RowOutline
import StyleGuide.Proofs.LayoutOutline
import StyleGuide.Proofs.LogicalLine.Skim

/-! # The outline of a mended source

The entries of a mended source can be read one by one: behind each of them nothing is open. A
comment row opens no statement, and a statement opens one at the width of its mended first row.
-/

namespace StyleGuide

open Lexeme

section Text

variable {row s t lead : Text} {c : Char} {widths : List Nat}

/-- Blank lines in front of a text do not count. -/
theorem Pause.outline?_blankLines (k : Nat) (s : Text) :
    idle.outline? (Text.rows (List.replicate k '\n' ++ s)) = idle.outline? (Text.rows s) := by
  induction k with
  | zero => rfl
  | succ k ih =>
      rw [List.replicate_succ, List.cons_append]
      exact ih

/-- A text behind one that ends in a newline is outlined by itself. -/
theorem Pause.outline?_rows_append (outlined : idle.outline? (Text.rows s) = some widths)
    (ended : ∀ c ∈ s.getLast?, c = '\n') (t : Text) :
    idle.outline? (Text.rows (s ++ t)) = (idle.outline? (Text.rows t)).map (widths ++ ·) := by
  rw [Text.rows_append_of_ended ended, outline?_append outlined]

theorem opensStatement_append (h : s.dropWhile isGap ≠ []) (t : Text) :
    opensStatement (s ++ t) = opensStatement s := by
  rw [opensStatement, opensStatement, List.dropWhile_append, if_neg (by simpa using h),
    List.head?_append_of_ne_nil _ h]

/-- The white space in front of a statement is a gap. -/
theorem takeWhile_isBlank_of_opener (h : opener row = some c) (hc : ¬Text.isBlank c) :
    row.takeWhile Text.isBlank = row.takeWhile isGap := by
  obtain ⟨head, -⟩ := Option.filter_eq_some_iff.mp h
  obtain ⟨rest, behind⟩ := List.head?_eq_some_iff.mp head
  conv_lhs => rw [← List.takeWhile_append_dropWhile (p := isGap) (l := row), behind]
  rw [List.takeWhile_append_of_pos fun d hd => isBlank_of_isGap (List.mem_takeWhile_imp hd),
    List.takeWhile_cons_of_neg hc, List.append_nil]

/-- A row that leaves nothing open is outlined by its width. -/
theorem Pause.outline?_row (gaps : ∀ d ∈ lead, isGap d)
    (head : ∃ c rest, s = c :: rest ∧ ¬Text.isBlank c ∧ (isFraming c → isQuote c))
    (free : '\n' ∉ s) (skimmed : skim 0 (s ++ ['\n']) = some .idle) :
    idle.outline? (Text.rows (lead ++ s ++ ['\n'])) = some [indentWidth lead] := by
  obtain ⟨c, rest, rfl, blank, framing⟩ := head
  have solid : ¬isGap c := fun gap => blank (isBlank_of_isGap gap)
  have behind : (lead ++ c :: rest ++ ['\n']).dropWhile isGap = c :: rest ++ ['\n'] := by
    rw [List.append_assoc, List.dropWhile_append_of_pos gaps]
    exact List.dropWhile_cons_of_neg solid
  have width : (lead ++ c :: rest ++ ['\n']).takeWhile isGap = lead := by
    rw [List.append_assoc, List.takeWhile_append_of_pos gaps]
    exact (congrArg _ (List.takeWhile_cons_of_neg solid)).trans (List.append_nil lead)
  have other {d : Char} (h : isFraming d) (unquoted : ¬isQuote d) : c ≠ d := by
    rintro rfl
    exact unquoted (framing h)
  have opens : opensStatement (lead ++ c :: rest ++ ['\n']) := by
    have comment : c ≠ '#' := other (by decide) (by decide)
    have return_ : c ≠ '\r' := other (by decide) (by decide)
    have newline : c ≠ '\n' := other (by decide) (by decide)
    rw [opensStatement, behind]
    simp [comment, return_, newline]
  have plain : ¬startsInBackslash (lead ++ c :: rest ++ ['\n']) := by
    have backslash : c ≠ '\\' := other (by decide) (by decide)
    rw [startsInBackslash, behind]
    simp [backslash]
  have only : '\n' ∉ lead ++ c :: rest := by
    rw [List.mem_append, not_or]
    exact ⟨KeepsOutline.notMem_newline_of_gap gaps, free⟩
  have skimmed : Pause.idle.resume? (lead ++ c :: rest ++ ['\n']) = some .idle := by
    rw [List.append_assoc]
    exact (skim_gap gaps 0 _).trans skimmed
  rw [Text.rows_append only, outline?, if_pos rfl, if_pos opens, if_neg plain, skimmed,
    startWidth, width]
  rfl

/-- A comment row is outlined by nothing. -/
theorem Pause.outline?_comment (free : '\n' ∉ s) (between : ¬opensStatement (s ++ ['\n'])) :
    idle.outline? (Text.rows (s ++ ['\n'])) = some [] := by
  rw [Text.rows_append free, outline?, if_pos rfl, if_neg between]
  rfl

end Text

section Rows

variable {rows : Rows} {line : LogicalLine} {a k : Nat}

/-- Rows that end as they should have the shape of rows. -/
theorem Rows.areRows_range'
    (each : ∀ n, a ≤ n → n < a + k → rows.row n ≠ [] ∧ EndsAtNewline (rows.row n))
    (ended : ∀ n, a ≤ n → n + 1 < a + k → (rows.row n).getLast? = some '\n') :
    AreRows ((List.range' a k).map rows.row) := by
  induction k generalizing a with
  | zero => exact .nil
  | succ k ih =>
      obtain ⟨filled, only⟩ := each a (Nat.le_refl a) (by omega)
      rw [List.range'_succ, List.map_cons]
      by_cases last : (rows.row a).getLast? = some '\n'
      · obtain ⟨body, eq⟩ := List.getLast?_eq_some_iff.mp last
        rw [eq] at only ⊢
        refine .cons (fun mem => ?_) (ih (fun n le lt => each n (by omega) (by omega))
          fun n le lt => ended n (by omega) (by omega))
        obtain ⟨x, y, rfl⟩ := List.append_of_mem mem
        have none := only x (y ++ ['\n']) (by simp)
        simp at none
      · obtain rfl : k = 0 := by
          by_contra more
          exact last (ended a (Nat.le_refl a) (by omega))
        exact .last filled (EndsAtNewline.notMem (a := []) (b := []) (by simpa using only) last)

/-- The rows of a statement are outlined by the width of the first. -/
theorem LogicalLine.IsFramed.outline?_rows (framed : line.IsFramed rows)
    (shape : AreRows (line.rowNumbers.map rows.row)) :
    Pause.idle.outline? (Text.rows (line.rowNumbers.flatMap rows.row)) =
      some [startWidth (rows.row line.firstRow)] := by
  have outlined := framed.passes.outline?_append framed.opens framed.other []
  rw [List.append_nil] at outlined
  rw [List.flatMap_def, Text.rows_flatten shape]
  exact outlined

end Rows

/-- A text with this outline. A newline ends it if another text may follow. -/
structure IsOutlined (follows : Prop) (s : Text) (widths : List Nat) : Prop where
  outline : Pause.idle.outline? (Text.rows s) = some widths
  ended : follows → ∀ c ∈ s.getLast?, c = '\n'

namespace IsOutlined

variable {follows : Prop} {s t : Text} {widths more : List Nat}

theorem blankLines (h : IsOutlined follows s widths) (k : Nat) :
    IsOutlined follows (List.replicate k '\n' ++ s) widths where
  outline := (Pause.outline?_blankLines k s).trans h.outline
  ended goes c hc := by
    rw [List.getLast?_append, Option.mem_def, Option.or_eq_some_iff] at hc
    rcases hc with hc | ⟨-, hc⟩
    · exact h.ended goes c hc
    · exact List.eq_of_mem_replicate (List.mem_of_getLast? hc)

theorem append (h : IsOutlined follows s widths) (outline : Pause.idle.outline? (Text.rows t) = some more)
    (goes : t ≠ [] → follows) : Pause.idle.outline? (Text.rows (s ++ t)) = some (widths ++ more) := by
  by_cases none : t = []
  · subst none
    obtain rfl : [] = more := Option.some.inj outline
    rw [List.append_nil, List.append_nil, h.outline]
  · rw [Text.rows_append_of_ended (h.ended (goes none)), Pause.outline?_append h.outline, outline]
    rfl

end IsOutlined

section Statement

variable {p : Pass} {s : CheckState} {source : Text} {tokens run : List Token} {line : LogicalLine}
  {q r : Position} {text : Text} {n k : Nat}

theorem getLast?_row (pos : 0 < n) (lt : n < (Rows.ofSource source).size) :
    ((Rows.ofSource source).row n).getLast? = some '\n' := by
  obtain ⟨i, rfl⟩ : ∃ i, n = i + 1 := ⟨n - 1, by omega⟩
  have newline := (Text.areRows_rows source).newline_mem (i := i) (by simpa [Rows.ofSource] using lt)
  rw [← Text.row_ofSource] at newline
  obtain ⟨before, behind, eq⟩ := List.append_of_mem newline
  obtain rfl := endsAtNewline_row source (i + 1) before behind eq
  rw [eq, List.getLast?_concat]

/-- The last row of a statement is not blank. -/
theorem not_isAllBlank_lastRow (read : tokenize source = .ok tokens) (sub : ∀ t ∈ run, t ∈ tokens)
    (sober : ∀ t ∈ run, t.isContent → t.isSober)
    (hl : LogicalLine.ofTokens? (Rows.ofSource source) run = some line) (pos : 0 < line.lastRow) :
    ¬Text.isAllBlank ((Rows.ofSource source).row line.lastRow) := by
  obtain ⟨t, ht, content, row⟩ := (LogicalLine.exists_lastRow hl).resolve_left (by omega)
  rw [← row]
  have solid := Token.isSolid_of_isContent content
  by_cases string : t.kind = .string
  · have edged := edged_of_tokenize read t (sub t ht) (Token.isKnown_of_string string)
    obtain ⟨before, c, last, holds⟩ := edged.last
    obtain ⟨-, body, d, text, quote⟩ := (edged.literal string).edges
    obtain rfl : d = c := by simpa [text] using last
    exact ScanState.not_isAllBlank_of_mem (holds.1.subset (a := d) (by simp))
      (by simpa using not_isBlank_of_isQuote quote)
  · obtain ⟨_, laid⟩ := laid_of_tokenize read
    cases laid.isSet_of_mem (List.mem_filter.mpr ⟨sub t ht, solid⟩) with
    | acrossRows across => exact absurd across string
    | onRow _ stop _ spelled =>
        obtain ⟨c, rest, text, blank, -⟩ :=
          Token.exists_head_of_isSober (sober t ht content) spelled.ne_nil (absurd · string)
        exact ScanState.not_isAllBlank_of_mem (stop.1.subset (a := c) (by simp [text]))
          (by simpa using blank)

/-- The rows of a statement, as they are and as they are mended. -/
theorem LogicalLine.IsFramed.keepsOutline (framed : line.IsFramed p.rows)
    (last : ¬Text.isAllBlank (p.rows.row line.lastRow)) (hn : n ∈ line.rowNumbers) :
    p.rows.row n ≠ [] ∧ n ≤ p.rows.size ∧
      KeepsOutline (p.rows.row n) (Rows.row p.mendedRows n) := by
  obtain ⟨first, le⟩ := mem_rowNumbers.mp hn
  have pos := framed.firstRow_pos
  have filled := framed.passes.filled first (by omega)
  have within := Rows.le_size_of_row filled
  have inside : line.lastRow ≤ p.rows.size :=
    Rows.le_size_of_row (framed.passes.filled (by omega) (Nat.lt_succ_self _))
  refine ⟨filled, within, p.keepsOutline_mendedRows (by omega) within fun size => ?_⟩
  rwa [show n = line.lastRow by omega]

/-- The rows of a statement, the last of them apart. -/
theorem LogicalLine.IsFramed.rowNumbers_eq {rows : Rows} (framed : line.IsFramed rows) :
    line.rowNumbers =
      List.range' line.firstRow (line.lastRow - line.firstRow) ++ [line.lastRow] := by
  have lt := framed.passes.lt
  rw [rowNumbers, show line.lastRow + 1 - line.firstRow = line.lastRow - line.firstRow + 1 by omega,
    List.range'_concat, show line.firstRow + 1 * (line.lastRow - line.firstRow) = line.lastRow by
      omega]

theorem LogicalLine.IsFramed.keepsOutline_first (framed : line.IsFramed p.rows)
    (last : ¬Text.isAllBlank (p.rows.row line.lastRow)) :
    KeepsOutline (p.rows.row line.firstRow) (Rows.row p.mendedRows line.firstRow) := by
  have lt := framed.passes.lt
  exact (framed.keepsOutline last (mem_rowNumbers.mpr ⟨Nat.le_refl _, by omega⟩)).2.2

theorem LogicalLine.IsFramed.mended (framed : line.IsFramed p.rows)
    (last : ¬Text.isAllBlank (p.rows.row line.lastRow)) : line.IsFramed p.mendedRows := by
  have lt := framed.passes.lt
  have keeps := framed.keepsOutline_first last
  refine ⟨?_, ?_, framed.passes.mended framed.firstRow_pos fun size => ?_⟩
  · rw [opensStatement_eq, keeps.first, ← opensStatement_eq]
    exact framed.opens
  · rw [startsInBackslash_eq, keeps.first, ← startsInBackslash_eq]
    exact framed.other
  · rwa [show p.rows.size = line.lastRow by omega]

/-- The mended rows of a statement have the shape of rows. -/
theorem LogicalLine.IsFramed.areRows_mended (rows : p.rows = .ofSource source)
    (framed : line.IsFramed p.rows) (last : ¬Text.isAllBlank (p.rows.row line.lastRow)) :
    AreRows (line.rowNumbers.map (Rows.row p.mendedRows)) ∧
      (line.lastRow < p.rows.size → (Rows.row p.mendedRows line.lastRow).getLast? = some '\n') := by
  have lt := framed.passes.lt
  have pos := framed.firstRow_pos
  have each := fun n hn => framed.keepsOutline last (n := n) hn
  have ended (n : Nat) (le : line.firstRow ≤ n) (le' : n ≤ line.lastRow) (lt : n < p.rows.size) :
      (Rows.row p.mendedRows n).getLast? = some '\n' := by
    refine (each n (mem_rowNumbers.mpr ⟨le, le'⟩)).2.2.ended ?_
    rw [rows] at lt ⊢
    exact getLast?_row (by omega) lt
  refine ⟨?_, ended line.lastRow (by omega) (Nat.le_refl _)⟩
  refine Rows.areRows_range' (fun n le lt => ?_) fun n le lt => ended n le (by omega) ?_
  · obtain ⟨filled, -, keeps⟩ := each n (mem_rowNumbers.mpr ⟨le, by omega⟩)
    exact ⟨keeps.filled filled, keeps.only (rows ▸ endsAtNewline_row source n)⟩
  · have := (each (n + 1) (mem_rowNumbers.mpr ⟨by omega, by omega⟩)).2.1
    omega

/-- The mended rows of a statement, put together. -/
theorem LogicalLine.IsFramed.isOutlined_rows (rows : p.rows = .ofSource source)
    (framed : line.IsFramed p.rows) (last : ¬Text.isAllBlank (p.rows.row line.lastRow)) :
    IsOutlined (line.lastRow < p.rows.size) (line.rowNumbers.flatMap (Rows.row p.mendedRows))
      [startWidth (Rows.row p.mendedRows line.firstRow)] := by
  obtain ⟨shape, ended⟩ := framed.areRows_mended rows last
  refine ⟨(framed.mended last).outline?_rows shape, fun lt c hc => ?_⟩
  rw [framed.rowNumbers_eq, List.flatMap_append, List.flatMap_singleton, List.getLast?_append,
    ended lt] at hc
  exact (Option.some.inj hc).symm

/-- A statement over several rows is written as its mended rows are. -/
theorem LogicalLine.IsFramed.isOutlined_of_several (rows : p.rows = .ofSource source)
    (framed : line.IsFramed p.rows) (last : ¬Text.isAllBlank (p.rows.row line.lastRow))
    (several : ¬line.isSingleRow) (text : Text) :
    IsOutlined (line.lastRow < p.rows.size) (line.written text k p.mendedRows)
      [startWidth (Rows.row p.mendedRows line.firstRow)] := by
  rw [written, if_neg several, flatten_extract p.mendedRows framed.firstRow_pos]
  exact (framed.isOutlined_rows rows last).blankLines k

theorem LogicalLine.IsFramed.skim_of_single {rows : Rows} (framed : line.IsFramed rows)
    (single : line.isSingleRow) : skim 0 (rows.row line.firstRow) = some .idle := by
  have passes := framed.passes
  rw [← beq_iff_eq.mp single] at passes
  obtain ⟨-, ⟨-, resumes⟩ | ⟨q, before, -⟩⟩ := passes.exists_last
  · exact resumes
  · exact absurd before.lt (Nat.lt_irrefl _)

/-- A statement that fills its row opens it with a character that is no white space. -/
theorem exists_opener_of_fillsRow {rows : Rows} (hl : LogicalLine.ofTokens? rows run = some line)
    (single : line.isSingleRow) (laid : Laid rows q (run.filter Token.isSolid) r)
    (above : q.row < line.firstRow) (fills : FillsRow rows run line.firstRow) :
    ∃ d, opener (rows.row line.firstRow) = some d ∧ ¬Text.isBlank d := by
  obtain ⟨_, _, x, part, tail, -, -, -, -, -, gaps, firm, -, whole⟩ :=
    LogicalLine.exists_parts_of_fillsRow hl single laid above fills
  obtain ⟨d, head, hd⟩ := firm.first
  obtain ⟨more, rfl⟩ := List.head?_eq_some_iff.mp head
  refine ⟨d, ?_, hd⟩
  have solid : ¬isGap d := fun gap => hd (isBlank_of_isGap gap)
  rw [← whole, List.append_assoc, List.append_assoc, opener_gap gaps, opener, List.cons_append,
    List.dropWhile_cons_of_neg solid, List.head?_cons, Option.filter_some, if_pos]
  simp only [Bool.and_eq_true, bne_iff_ne]
  constructor <;>
    (rintro rfl
     exact hd (by decide))

/-- A statement on one row is written behind the gap of its mended row. -/
theorem LogicalLine.IsFramed.exists_written (rows : p.rows = .ofSource source)
    (framed : line.IsFramed p.rows) (last : ¬Text.isAllBlank (p.rows.row line.lastRow))
    (hl : ofTokens? p.rows run = some line) (single : line.isSingleRow)
    (laid : Laid p.rows q (run.filter Token.isSolid) r) (above : q.row < line.firstRow)
    (fills : FillsRow p.rows run line.firstRow) (sober : ∀ t ∈ run, t.isContent → t.isSober) :
    ∃ text, (∃ c rest, text = c :: rest ∧ ¬Text.isBlank c ∧ (isFraming c → isQuote c)) ∧
      '\n' ∉ text ∧ skim 0 (text ++ ['\n']) = some .idle ∧ Text.trimEnd text = text ∧
      ∀ k, line.written (p.mend s line).text k p.mendedRows = List.replicate k '\n' ++
        ((Rows.row p.mendedRows line.firstRow).takeWhile isGap ++ text ++ ['\n']) := by
  have pos := framed.firstRow_pos
  have keeps := framed.keepsOutline_first last
  obtain ⟨restored, found, ⟨c, rest, eq, blank, framing⟩, free, skims, trimmed⟩ :=
    Pass.exists_restored (s := s) hl single laid above fills sober (framed.skim_of_single single)
      (rows ▸ endsAtNewline_row source line.firstRow)
  obtain ⟨d, opens, hd⟩ := exists_opener_of_fillsRow hl single laid above fills
  rw [← keeps.first] at opens
  have lead : Rows.row p.mendedRows line.firstRow = (p.mendedRows[line.firstRow - 1]?).getD [] := by
    rw [Rows.row, if_neg (by omega)]
  refine ⟨restored ++ Text.trimEnd (line.comment.getD []),
    ⟨c, rest ++ Text.trimEnd (line.comment.getD []), by rw [eq]; rfl, blank, framing⟩, free,
    by rwa [List.append_assoc], ?_, fun k => ?_⟩
  · by_cases none : Text.trimEnd (line.comment.getD []) = []
    · rw [none, List.append_nil, trimmed]
    · have twice : Text.trimEnd (Text.trimEnd (line.comment.getD [])) =
          Text.trimEnd (line.comment.getD []) := List.rdropWhile_idempotent _ _
      rw [Text.trimEnd_append (by rwa [twice]), twice]
  · simp only [written, single, if_true, found]
    rw [← lead, takeWhile_isBlank_of_opener opens hd, List.append_assoc _ restored]

theorem LogicalLine.IsFramed.isOutlined_of_single (rows : p.rows = .ofSource source)
    (framed : line.IsFramed p.rows) (last : ¬Text.isAllBlank (p.rows.row line.lastRow))
    (hl : ofTokens? p.rows run = some line) (single : line.isSingleRow)
    (laid : Laid p.rows q (run.filter Token.isSolid) r) (above : q.row < line.firstRow)
    (fills : FillsRow p.rows run line.firstRow) (sober : ∀ t ∈ run, t.isContent → t.isSober) :
    IsOutlined True (line.written (p.mend s line).text k p.mendedRows)
      [startWidth (Rows.row p.mendedRows line.firstRow)] := by
  obtain ⟨text, head, free, skims, -, written⟩ :=
    framed.exists_written (s := s) rows last hl single laid above fills sober
  rw [written]
  refine IsOutlined.blankLines ⟨?_, fun _ e he => ?_⟩ k
  · exact Pause.outline?_row (fun e he => List.mem_takeWhile_imp he) head free skims
  · rw [List.getLast?_concat] at he
    exact (Option.some.inj he).symm

end Statement

section Entries

variable {c : Checker} {source : Text} {tokens : List Token} {e : Entry} {entries : List Entry}

/-- The width at which the statement of an entry starts on the mended rows. -/
def Entry.startWidth? (mended : Rows) (e : Entry) : Option Nat :=
  e.line?.map fun line => startWidth (mended.row line.firstRow)

/-- A statement of an orderly source has its rows for itself, and the last of them is not blank. -/
theorem IsOrderly.isFramed {run : List Token} {line : LogicalLine}
    (orderly : IsOrderly (Rows.ofSource source) (Runs.of tokens).ended)
    (read : tokenize source = .ok tokens) (hr : run ∈ (Runs.of tokens).ended)
    (hl : LogicalLine.ofTokens? (Rows.ofSource source) run = some line) :
    line.IsFramed (Rows.ofSource source) ∧
      ¬Text.isAllBlank ((Rows.ofSource source).row line.lastRow) := by
  have framed := ((orderly.outline?_eq read).2 run hr).line line hl
  have lt := framed.passes.lt
  have pos := framed.firstRow_pos
  exact ⟨framed, not_isAllBlank_lastRow read (fun t ht => mem_of_mem_ended hr ht)
    (orderly.sober run hr) hl (by omega)⟩

/-- A comment row opens no statement as it is written. -/
theorem isOutlined_comment {row : Text} (between : ¬opensStatement row) (only : EndsAtNewline row)
    (nonblank : ¬Text.isAllBlank row) (k : Nat) :
    IsOutlined True (Comment.mk k (Text.trimEnd row)).written [] := by
  have ne : Text.trimEnd row ≠ [] := fun none =>
    nonblank (List.all_eq_true.mpr (Text.trimEnd_eq_nil_iff.mp none))
  obtain ⟨body, d, behind, whole, solid, trimmed⟩ := Text.exists_of_trimEnd_ne_nil ne
  rw [Comment.written, List.append_assoc, trimmed]
  rw [whole] at between only
  have starts : (body ++ [d]).dropWhile isGap ≠ [] := by
    rw [ne_eq, List.dropWhile_eq_nil_iff]
    exact fun gaps => solid (isBlank_of_isGap (gaps d (by simp)))
  refine IsOutlined.blankLines ⟨Pause.outline?_comment ?_ ?_, fun _ c hc => ?_⟩ k
  · refine EndsAtNewline.notMem (a := []) (b := behind) only fun last => ?_
    rw [List.getLast?_concat] at last
    obtain rfl := Option.some.inj last
    exact solid (by decide)
  · rw [opensStatement_append starts] at between ⊢
    exact between
  · rw [List.getLast?_concat] at hc
    exact (Option.some.inj hc).symm

/-- Each entry of an orderly source is outlined by its statement. -/
theorem Entry.IsFrom.isOutlined (read : tokenize source = .ok tokens)
    (orderly : IsOrderly (Rows.ofSource source) (Runs.of tokens).ended)
    (isFrom : e.IsFrom (c.pass source) tokens) :
    e.rows ≠ [] ∧ (∀ n ∈ e.rows, n ≤ (Rows.ofSource source).size) ∧
      IsOutlined (∀ n ∈ e.rows, n < (Rows.ofSource source).size)
        (e.written (c.pass source).mendedRows)
        (e.startWidth? (c.pass source).mendedRows).toList := by
  cases isFrom with
  | @comment t u k run kind ends =>
      have ht := mem_of_mem_ended run (List.mem_cons_self ..)
      obtain ⟨-, pos, le, -⟩ := place_of_comment read ht kind
      have nonblank := not_isAllBlank_of_comment read ht kind
      have keeps := (c.pass source).keepsOutline_mendedRows pos le fun _ => nonblank
      have between := ((orderly.outline?_eq read).2 _ run).comment t
        (by simp [loneComment?, kind, ends])
      have row : (c.pass source).mendedRows[t.start.row - 1]?.getD [] =
          Rows.row (c.pass source).mendedRows t.start.row := by
        rw [Rows.row, if_neg (by omega)]
      refine ⟨by simp [rows], by simpa [rows] using le, ?_⟩
      have outlined : IsOutlined True
          (Comment.mk k (Text.trimEnd (Rows.row (c.pass source).mendedRows t.start.row))).written
          [] := by
        refine isOutlined_comment ?_ (keeps.only (endsAtNewline_row source _)) ?_ k
        · rwa [opensStatement_eq, keeps.first, ← opensStatement_eq]
        · rw [Text.isAllBlank_iff_trim, ← row, Pass.trim_mendedRows pos le,
            ← Text.isAllBlank_iff_trim]
          exact nonblank
      rw [← row] at outlined
      exact ⟨outlined.outline, fun _ => outlined.ended trivial⟩
  | @statement seen ahead t line k _ hr hl =>
      obtain ⟨framed, last⟩ := orderly.isFramed read hr hl
      have sober := orderly.sober _ hr
      obtain ⟨_, spans, closed, -⟩ := spans_of_tokenize read
      obtain ⟨_, laid⟩ := laid_of_tokenize read
      rw [← Runs.flatten_of tokens, closed, List.append_nil] at laid
      obtain ⟨_, _, laid, above⟩ := spans.exists_laid laid Nat.one_pos _ hr line hl
      have lt := framed.passes.lt
      have first : line.firstRow ∈ line.rowNumbers :=
        LogicalLine.mem_rowNumbers.mpr ⟨Nat.le_refl _, by omega⟩
      have final : line.lastRow ∈ line.rowNumbers :=
        LogicalLine.mem_rowNumbers.mpr ⟨by omega, Nat.le_refl _⟩
      refine ⟨List.ne_nil_of_mem first,
        fun n hn => (framed.keepsOutline (p := c.pass source) last hn).2.1, ?_⟩
      by_cases single : line.isSingleRow
      · have outlined := framed.isOutlined_of_single (s := (c.pass source).reach seen t) (k := k) rfl
          last hl single laid above (orderly.single _ hr line hl single) sober
        exact ⟨outlined.outline, fun _ => outlined.ended trivial⟩
      · have outlined := framed.isOutlined_of_several (p := c.pass source) (k := k) rfl last single
          ((c.pass source).mend ((c.pass source).reach seen t) line).text
        exact ⟨outlined.outline, fun inner => outlined.ended (inner _ final)⟩

/-- The rows of an entry are in front of those of the next. -/
theorem lt_size_of_entry {size : Nat}
    (each : ∀ f ∈ entries, f.rows ≠ [] ∧ ∀ n ∈ f.rows, n ≤ size)
    (ascending : ((e :: entries).flatMap Entry.rows).Pairwise (· < ·)) (more : entries ≠ []) :
    ∀ n ∈ e.rows, n < size := by
  intro n hn
  cases entries with
  | nil => exact absurd rfl more
  | cons f entries =>
      obtain ⟨some, le⟩ := each f (List.mem_cons_self ..)
      obtain ⟨m, hm⟩ := List.exists_mem_of_ne_nil _ some
      rw [List.flatMap_cons] at ascending
      have := (List.pairwise_append.mp ascending).2.2 n hn m
        (List.mem_flatMap.mpr ⟨f, List.mem_cons_self .., hm⟩)
      have := le m hm
      omega

/-- Entries in order are outlined by their statements. -/
theorem outline?_entries {mended : Rows} {size : Nat}
    (each : ∀ e ∈ entries, e.rows ≠ [] ∧ (∀ n ∈ e.rows, n ≤ size) ∧
      IsOutlined (∀ n ∈ e.rows, n < size) (e.written mended) (e.startWidth? mended).toList)
    (ascending : (entries.flatMap Entry.rows).Pairwise (· < ·)) :
    Pause.idle.outline? (Text.rows (entries.flatMap (Entry.written mended))) =
      some (entries.filterMap (Entry.startWidth? mended)) := by
  induction entries with
  | nil => rfl
  | cons e entries ih =>
      obtain ⟨⟨-, -, here⟩, rest⟩ := List.forall_mem_cons.mp each
      have widths : (e :: entries).filterMap (Entry.startWidth? mended) =
          (e.startWidth? mended).toList ++ entries.filterMap (Entry.startWidth? mended) := by
        rw [List.filterMap_cons]
        cases e.startWidth? mended <;> rfl
      have sorted := (List.pairwise_append.mp (List.flatMap_cons ▸ ascending)).2.1
      rw [List.flatMap_cons, widths]
      refine here.append (ih rest sorted) fun more => ?_
      refine lt_size_of_entry (fun f hf => ⟨(rest f hf).1, (rest f hf).2.1⟩) ascending ?_
      rintro rfl
      exact more rfl

/-- The mended source of an orderly source is put together from entries for its runs. -/
theorem IsOrderly.exists_entries (fix : c.config.fix) (read : tokenize source = .ok tokens)
    (orderly : IsOrderly (Rows.ofSource source) (Runs.of tokens).ended) :
    ∃ (report : FileReport) (entries : List Entry), c.check source = .ok report ∧
      report.fixed = some (entries.flatMap (Entry.written (c.pass source).mendedRows)) ∧
      (∀ e ∈ entries, e.IsFrom (c.pass source) tokens) ∧
      (entries.flatMap Entry.rows).Pairwise (· < ·) ∧
      entries.filterMap Entry.line? =
        (Runs.of tokens).ended.filterMap (LogicalLine.ofTokens? (Rows.ofSource source)) := by
  obtain ⟨_, spans, -, -⟩ := spans_of_tokenize read
  obtain ⟨entries, fixed, isFrom, rows, lines⟩ := StyleGuide.exists_entries fix read
    fun n nonblank => by
      rcases orderly.owned n with gap | ⟨run, hr, own⟩
      · refine absurd (List.all_eq_true.mpr fun d hd => ?_) nonblank
        exact isBlank_of_isGap (gap d hd)
      · exact ⟨run, hr, mem_keptRows_of_ownRows own nonblank⟩
  exact ⟨_, entries, c.check_of_tokenize read, fixed, isFrom, rows ▸ spans.pairwise_keptRows.1, lines⟩

/-- A mended source is outlined by the first rows of its logical lines, as they are mended. -/
theorem IsOrderly.outline?_fixed (fix : c.config.fix) (read : tokenize source = .ok tokens)
    (orderly : IsOrderly (Rows.ofSource source) (Runs.of tokens).ended) :
    ∃ report fixed, c.check source = .ok report ∧ report.fixed = some fixed ∧
      Pause.idle.outline? (Text.rows fixed) = some (startWidths (Rows.ofSource source)
        (c.pass source).mendedRows (Runs.of tokens).ended) := by
  obtain ⟨report, entries, check, fixed, isFrom, ascending, lines⟩ :=
    orderly.exists_entries (c := c) fix read
  have outlined :=
    outline?_entries (fun e he => (isFrom e he).isOutlined read orderly) ascending
  have widths : entries.filterMap (Entry.startWidth? (c.pass source).mendedRows) =
      startWidths (Rows.ofSource source) (c.pass source).mendedRows (Runs.of tokens).ended := by
    change entries.filterMap (fun e => e.line?.map fun line =>
      startWidth (Rows.row (c.pass source).mendedRows line.firstRow)) = _
    rw [← List.map_filterMap, lines, List.map_filterMap]
    rfl
  exact ⟨report, _, check, fixed, widths ▸ outlined⟩

end Entries

end StyleGuide
