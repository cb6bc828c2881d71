import StyleGuide.Proofs.Ledger.Booking
import StyleGuide.Proofs.LogicalLine.Inline

/-! # The ledger of a mended source

Mending a source drops nothing, repeats nothing and keeps the order, as far as its rows are comment
rows and statements. Rows of other kinds are lost: one on which a joining backslash stands alone, a
comment that a backslash joins to the end of a statement, and what a carriage return begins.
-/

namespace StyleGuide

/-- The entries account for a mended source. -/
structure Accounts (p : Pass) (tokens : List Token) (entries : List Entry) (fixed : Text) :
    Prop where
  /-- The entries are all there is. -/
  fixed_eq : fixed = entries.flatMap (Entry.written p.mendedRows)
  isFrom : ∀ e ∈ entries, e.IsFrom p tokens
  /-- The rows that they stand for are in order, and none is there twice. -/
  ascending : (entries.flatMap Entry.rows).Pairwise (· < ·)
  /-- None is missing. -/
  complete : ∀ n, ¬Text.isAllBlank (p.rows.row n) → n ∈ entries.flatMap Entry.rows
  /-- Every comment is in the entry for its row. -/
  comments : ∀ t ∈ tokens, t.kind = .comment → ∃ e ∈ entries, t.start.row ∈ e.rows ∧
    Text.trimEnd t.text <:+: e.written p.mendedRows
  /-- On one row the comment comes behind the statement and is no part of it. -/
  inline : ∀ line text n, .statement line text n ∈ entries → line.isSingleRow →
    ∀ run ∈ (Runs.of tokens).ended, LogicalLine.ofTokens? p.rows run = some line →
      CommentsLast run

section Source

variable {source : Text} {tokens run : List Token} {t : Token} {n : Nat}

/-- Where a comment stands. -/
theorem place_of_comment (read : tokenize source = .ok tokens) (ht : t ∈ tokens)
    (kind : t.kind = .comment) :
    t.start.row = t.stop.row ∧ 0 < t.start.row ∧ t.start.row ≤ (Rows.ofSource source).size ∧
      t.text.head? = some '#' ∧ t.text <:+: (Rows.ofSource source).row t.start.row := by
  obtain ⟨_, laid⟩ := laid_of_tokenize read
  have set := laid.isSet_of_mem
    (List.mem_filter.mpr ⟨ht, Token.isSolid_of_comment kind⟩)
  cases set with
  | acrossRows string => rw [kind] at string; cases string
  | onRow start stop row spelled =>
      have head := spelled.comment kind
      obtain ⟨c, more, text⟩ : ∃ c more, t.text = c :: more := by
        cases h : t.text with
        | nil => rw [h] at head; cases head
        | cons c more => exact ⟨c, more, rfl⟩
      obtain ⟨behind, whole⟩ := stop.1
      rw [← row] at whole
      have mem : c ∈ (Rows.ofSource source).row t.start.row := by
        rw [← whole, text]
        simp
      have inside : 0 < t.start.row ∧ t.start.row ≤ (Rows.ofSource source).size := by
        rw [Rows.row] at mem
        split at mem
        · cases mem
        · next pos =>
            have : t.start.row - 1 < (Rows.ofSource source).size := by
              by_contra out
              rw [Array.getElem?_eq_none (by omega)] at mem
              cases mem
            omega
      exact ⟨row, inside.1, inside.2, head, _, behind, whole⟩

theorem not_isAllBlank_of_comment (read : tokenize source = .ok tokens) (ht : t ∈ tokens)
    (kind : t.kind = .comment) :
    ¬Text.isAllBlank ((Rows.ofSource source).row t.start.row) := by
  obtain ⟨-, -, -, head, infix_⟩ := place_of_comment read ht kind
  exact ScanState.not_isAllBlank_of_mem (infix_.subset (List.mem_of_mem_head? head)) (by decide)

theorem laid_of_mem_ended (read : tokenize source = .ok tokens)
    (hr : run ∈ (Runs.of tokens).ended) :
    ∃ p q, Laid (Rows.ofSource source) p (run.filter Token.isSolid) q := by
  obtain ⟨_, laid⟩ := laid_of_tokenize read
  exact laid.exists_of_infix ((Runs.infix_of_mem_ended hr).filter _)

/-- Where all rows are kept, no statement begins with a comment. -/
theorem isTidy_of_kept (read : tokenize source = .ok tokens)
    (kept : ∀ n, ¬Text.isAllBlank ((Rows.ofSource source).row n) →
      ∃ run ∈ (Runs.of tokens).ended, n ∈ keptRows (Rows.ofSource source) run)
    (hr : run ∈ (Runs.of tokens).ended) : IsTidy run := by
  obtain ⟨e, spans, -, -⟩ := spans_of_tokenize read
  obtain ⟨i, j, block, -, apart⟩ := spans.exists_apart hr
  cases block with
  | blank kind => exact .blank kind
  | comment kind ends => exact .comment kind ends
  | statement le placed last first =>
      obtain ⟨u, hu, ends⟩ := last
      have other : u.kind ≠ .rowBreak := by
        rcases ends with ends | ends <;> simp [ends]
      refine .statement (fun t ht kind => ?_) ⟨u, hu, other⟩
      -- The row that opened the statement would be kept by it, but it lies in front of it.
      obtain ⟨behind, nonblank⟩ := first t ht kind
      have here := placed t (List.mem_of_mem_head? ht) (Token.isSolid_of_comment kind)
      obtain ⟨run', hr', mem⟩ := kept i nonblank
      have same : run' = run := by
        rcases apart run' hr' with eq | ⟨i', j', block', apart⟩
        · exact eq
        · have := block'.mem_keptRows mem
          obtain ⟨-, through, above⟩ := here
          omega
      rw [same, keptRows, loneComment?_eq_none ⟨u, hu, other⟩] at mem
      split at mem
      · next h => cases h
      · next line _ hl =>
          obtain ⟨v, hv, content, row, -⟩ := LogicalLine.exists_firstRow hl
          obtain ⟨p, q, laid⟩ := laid_of_mem_ended read hr
          cases run with
          | nil => cases ht
          | cons w rest =>
              obtain rfl := Option.some.inj ht
              rw [List.filter_cons_of_pos (Token.isSolid_of_comment kind)] at laid
              cases laid with
              | cons _ set laid =>
                  have hv : v ∈ rest := by
                    rcases List.mem_cons.mp hv with rfl | hv
                    · simp [Token.isContent, kind] at content
                    · exact hv
                  have hv := List.mem_filter.mpr ⟨hv, Token.isSolid_of_isContent content⟩
                  have := (List.filter_true .. ▸ laid.ordered_filter fun _ => true).row_le hv
                  have := set.row_le
                  have := (LogicalLine.mem_rowNumbers.mp mem).1
                  omega
      · cases mem

end Source

section Iff

variable {c : Checker} {source : Text} {tokens : List Token}

/-- What waits behind the last token is written at the end. -/
theorem fixed_report {p : Pass} {s : CheckState} (fix : p.config.fix) (none : s.pending = none) :
    (p.report s).fixed =
      some (s.output.toList ++ s.comments.map Comment.written).flatten := by
  have flush : p.flushComment (p.checkRowsThrough p.rows.size s) =
      p.checkRowsThrough p.rows.size s := by
    have idle : (p.checkRowsThrough p.rows.size s).pending = .none := by
      rw [Pass.checkRowsThrough_eq]
      exact none
    simp only [Pass.flushComment, idle]
  simp only [Pass.report, flush, Pass.writeComments, fix, if_true, Array.toList_appendList]
  rw [Pass.checkRowsThrough_eq]

theorem infix_written {line : LogicalLine} {text part : Text} {mended : Array Text} {k n : Nat}
    (pos : 0 < line.firstRow) (first : line.firstRow ≤ n) (last : n ≤ line.lastRow)
    (le : n ≤ mended.size) (row : part <:+: mended[n - 1]?.getD [])
    (comment : line.isSingleRow → part <:+: Text.trimEnd (line.comment.getD [])) :
    part <:+: line.written text k mended := by
  have kept : part <:+: (mended.extract (line.firstRow - 1) line.lastRow).toList.flatten := by
    have lt : n - 1 < mended.size := by omega
    rw [Array.getElem?_eq_getElem lt, Option.getD_some] at row
    refine row.trans (List.infix_of_mem_flatten ?_)
    rw [Array.toList_extract, List.extract_eq_take_drop, List.mem_iff_getElem?]
    refine ⟨n - line.firstRow, ?_⟩
    rw [List.getElem?_take_of_lt (by omega), List.getElem?_drop, Array.getElem?_toList]
    rw [show line.firstRow - 1 + (n - line.firstRow) = n - 1 by omega]
    exact Array.getElem?_eq_getElem lt
  simp only [LogicalLine.written]
  split
  · next single =>
      split
      · next restored _ =>
          exact (comment single).trans ⟨List.replicate k '\n' ++
            ((mended[line.firstRow - 1]?.getD []).takeWhile Text.isBlank ++ restored), ['\n'],
            by simp⟩
      · exact kept.trans (List.suffix_append _ _).isInfix
  · exact kept.trans (List.suffix_append _ _).isInfix

/-- A comment is written with the entry for its row. -/
theorem infix_written_of_comment {t : Token} {e : Entry} (read : tokenize source = .ok tokens)
    (inline : ∀ run ∈ (Runs.of tokens).ended, ∀ line,
      LogicalLine.ofTokens? (Rows.ofSource source) run = some line → line.isSingleRow →
        CommentsLast run)
    (ht : t ∈ tokens) (kind : t.kind = .comment) (isFrom : e.IsFrom (c.pass source) tokens)
    (row : t.start.row ∈ e.rows) :
    Text.trimEnd t.text <:+: e.written (c.pass source).mendedRows := by
  obtain ⟨_, spans, closed, -⟩ := spans_of_tokenize read
  obtain ⟨level, pos, le, head, infix_⟩ := place_of_comment read ht kind
  obtain ⟨run, hr, mem⟩ : ∃ run ∈ (Runs.of tokens).ended, t ∈ run := by
    rw [← Runs.flatten_of tokens, closed, List.append_nil] at ht
    exact List.mem_flatten.mp ht
  have same {run' : List Token} (hr' : run' ∈ (Runs.of tokens).ended)
      (kept : t.start.row ∈ keptRows (Rows.ofSource source) run') : run' = run :=
    spans.eq_of_mem_keptRows hr' hr kept mem (Token.isSolid_of_comment kind)
      (Nat.le_refl _) (Nat.le_of_eq level)
  have mended : Text.trimEnd t.text <:+:
      Text.trim ((c.pass source).mendedRows[t.start.row - 1]?.getD []) := by
    rw [Pass.trim_mendedRows pos le]
    cases text : t.text with
    | nil => rw [text] at head; cases head
    | cons d more =>
        rw [text] at head infix_
        obtain rfl := Option.some.inj head
        exact Text.trimEnd_infix_trim (by decide) infix_
  cases isFrom with
  | @comment u v n member kindu ends =>
      have eq : t.start.row = u.start.row := List.mem_singleton.mp row
      have only := same member (by rw [keptRows_of_comment kindu ends, eq]; simp)
      simp only [Entry.written, Comment.written]
      rw [← eq]
      refine (mended.trans (Text.trim_infix_trimEnd _)).trans ⟨List.replicate n '\n', ['\n'], ?_⟩
      rfl
  | @statement seen ahead u line n whole member hl =>
      have kept : keptRows (Rows.ofSource source) ((c.pass source).reach seen u).run.toList =
          line.rowNumbers := keptRows_of_statement hl
      have only := same member (by rw [kept]; exact row)
      obtain ⟨first, last⟩ := LogicalLine.mem_rowNumbers.mp row
      obtain ⟨v, hv, content, firstRow, -⟩ := LogicalLine.exists_firstRow hl
      obtain ⟨i, j, block, below⟩ := spans.exists_block member
      have := (block.isWithin v hv (Token.isSolid_of_isContent content)).1
      refine infix_written (by omega) first last (by rwa [Pass.size_mendedRows])
        (mended.trans (Text.trim_infix _)) fun single => ?_
      have level : line.firstRow = line.lastRow := by simpa [LogicalLine.isSingleRow] using single
      obtain ⟨p, q, laid⟩ := laid_of_mem_ended read member
      obtain ⟨s, eq, part⟩ := LogicalLine.infix_comment hl single laid
        (inline _ member line hl single) (only ▸ mem) kind (by omega)
      rw [eq]
      exact Text.trimEnd_infix part

/-- A mended source is put together from entries for its runs, if the runs keep all rows. -/
theorem exists_entries (fix : c.config.fix) (read : tokenize source = .ok tokens)
    (kept : ∀ n, ¬Text.isAllBlank ((Rows.ofSource source).row n) →
      ∃ run ∈ (Runs.of tokens).ended, n ∈ keptRows (Rows.ofSource source) run) :
    ∃ entries : List Entry,
      ((c.pass source).report ((c.pass source).after tokens)).fixed =
        some (entries.flatMap (Entry.written (c.pass source).mendedRows)) ∧
      (∀ e ∈ entries, e.IsFrom (c.pass source) tokens) ∧
      entries.flatMap Entry.rows =
        (Runs.of tokens).ended.flatMap (keptRows (c.pass source).rows) ∧
      entries.filterMap Entry.line? =
        (Runs.of tokens).ended.filterMap (LogicalLine.ofTokens? (c.pass source).rows) := by
  obtain ⟨e, spans, closed, -⟩ := spans_of_tokenize read
  have within : ∀ t ∈ tokens, t.isContent → 0 < t.start.row ∧ t.start.row ≤ t.stop.row := by
    intro t ht content
    rw [← Runs.flatten_of tokens, closed, List.append_nil] at ht
    obtain ⟨run, hr, ht⟩ := List.mem_flatten.mp ht
    obtain ⟨i, j, block, le⟩ := spans.exists_block hr
    obtain ⟨below, through, -⟩ := block.isWithin t ht (Token.isSolid_of_isContent content)
    exact ⟨by omega, through⟩
  have comment : ∀ t ∈ tokens, t.kind = .comment → t.start.row = t.stop.row ∧
      0 < t.start.row ∧ t.start.row ≤ (c.pass source).rows.size := by
    intro t ht kind
    obtain ⟨level, pos, le, -⟩ := place_of_comment read ht kind
    exact ⟨level, pos, le⟩
  have booked : Booked (c.pass source) tokens tokens :=
    .of_tidy fix (fun run hr => isTidy_of_kept read kept hr) within comment
      (List.append_nil _).symm
  obtain ⟨entries, later, book⟩ := booked.booked
  have idle := booked.idle (by rw [closed]; simp)
  refine ⟨entries ++ later.map fun w => .comment w.1 w.2, ?_, ?_, ?_, ?_⟩
  · rw [fixed_report fix idle, book.output, book.comments, List.flatMap_append, List.flatMap_map,
      List.map_map, List.flatten_append]
    rfl
  · intro e he
    rcases List.mem_append.mp he with he | he
    · exact book.isFrom e he
    · obtain ⟨w, hw, rfl⟩ := List.mem_map.mp he
      exact book.isFrom_later w hw
  · rw [← book.rows, List.flatMap_append, List.flatMap_map]
    exact congrArg _ (List.map_eq_flatMap ..).symm
  · have none : (later.map fun w => Entry.comment w.1 w.2).filterMap Entry.line? = [] := by
      simp [Entry.line?]
    rw [List.filterMap_append, none, List.append_nil, book.lines]

/-- The entries of the runs account for the mended source if the runs keep all rows. -/
theorem exists_accounts (fix : c.config.fix) (read : tokenize source = .ok tokens)
    (kept : ∀ n, ¬Text.isAllBlank ((Rows.ofSource source).row n) →
      ∃ run ∈ (Runs.of tokens).ended, n ∈ keptRows (Rows.ofSource source) run)
    (inline : ∀ run ∈ (Runs.of tokens).ended, ∀ line,
      LogicalLine.ofTokens? (Rows.ofSource source) run = some line → line.isSingleRow →
        CommentsLast run) :
    ∃ entries fixed, ((c.pass source).report ((c.pass source).after tokens)).fixed = some fixed ∧
      Accounts (c.pass source) tokens entries fixed := by
  obtain ⟨entries, fixed, isFrom, rows, -⟩ := exists_entries fix read kept
  have complete : ∀ n, ¬Text.isAllBlank ((c.pass source).rows.row n) →
      n ∈ entries.flatMap Entry.rows := by
    intro n nonblank
    rw [rows]
    exact List.mem_flatMap.mpr (kept n nonblank)
  refine ⟨entries, _, fixed, rfl, isFrom, ?_, complete, ?_, ?_⟩
  · obtain ⟨_, spans, -, -⟩ := spans_of_tokenize read
    rw [rows]
    exact spans.pairwise_keptRows.1
  · intro t ht kind
    obtain ⟨e, he, row⟩ := List.mem_flatMap.mp
      (complete _ (not_isAllBlank_of_comment read ht kind))
    exact ⟨e, he, row, infix_written_of_comment read inline ht kind (isFrom e he) row⟩
  · intro line _ _ _ single run hr hl
    exact inline run hr line hl single

/-- An entry stands for the rows that its run keeps. -/
theorem Entry.IsFrom.exists_run {p : Pass} {e : Entry} (h : e.IsFrom p tokens) :
    ∃ run ∈ (Runs.of tokens).ended, e.rows = keptRows p.rows run ∧
      ∀ line, LogicalLine.ofTokens? p.rows run = some line →
        ∃ text n, e = .statement line text n := by
  cases h with
  | comment run kind ends =>
      refine ⟨_, run, (keptRows_of_comment kind ends).symm, fun line hl => ?_⟩
      rw [ofTokens?_eq_none (by simp [Token.isContent, kind, ends, Token.Kind.isLayout])] at hl
      cases hl
  | statement whole run hl =>
      refine ⟨_, run, (keptRows_of_statement hl).symm, fun line hl' => ?_⟩
      obtain rfl := Option.some.inj (hl.symm.trans hl')
      exact ⟨_, _, rfl⟩

/-- Comments stand behind the statement on a row where no comment can stand. -/
theorem commentsLast_of_blank {run : List Token} {line : LogicalLine}
    (read : tokenize source = .ok tokens) (hr : run ∈ (Runs.of tokens).ended)
    (hl : LogicalLine.ofTokens? (Rows.ofSource source) run = some line)
    (single : line.isSingleRow)
    (blank : Text.isAllBlank ((Rows.ofSource source).row line.firstRow)) : CommentsLast run := by
  obtain ⟨p, q, laid⟩ := laid_of_mem_ended read hr
  obtain ⟨first, rest, content, of⟩ := LogicalLine.exists_of_ofTokens? hl
  have ordered := laid.ordered_filter fun _ => true
  rw [List.filter_true] at ordered
  refine List.pairwise_iff_forall_sublist.mpr fun {t u} sub kind hu => ?_
  have solid := sub.filter Token.isSolid
  rw [List.filter_cons_of_pos (Token.isSolid_of_comment kind),
    List.filter_cons_of_pos (Token.isSolid_of_isContent hu), List.filter_nil] at solid
  have le := ordered.row_le_of_sublist solid
  refine Nat.lt_of_le_of_ne le fun eq => ?_
  have ht : t ∈ tokens := (Runs.infix_of_mem_ended hr).subset (sub.subset (by simp))
  obtain ⟨level, -⟩ := place_of_comment read ht kind
  have row : u.start.row = line.firstRow := by
    have on := LogicalLine.onRow_of_isSingleRow of single (content ▸ laid.ordered_content)
    exact (on u (content ▸ List.mem_filter.mpr ⟨sub.subset (by simp), hu⟩)).1
  have nonblank := not_isAllBlank_of_comment read ht kind
  rw [level, eq, row] at nonblank
  exact nonblank blank

/-- The parts of a mended source account for all rows of the source exactly if each row that is
    not blank is a comment row or a row of a statement, from its first content to its last, and no
    statement on one row has a comment in front of content. -/
theorem accounts_iff (fix : c.config.fix) (read : tokenize source = .ok tokens) :
    (∃ report fixed entries, c.check source = .ok report ∧ report.fixed = some fixed ∧
      Accounts (c.pass source) tokens entries fixed) ↔
    (∀ n, ¬Text.isAllBlank ((Rows.ofSource source).row n) →
      ∃ run ∈ (Runs.of tokens).ended, n ∈ keptRows (Rows.ofSource source) run) ∧
    ∀ run ∈ (Runs.of tokens).ended, ∀ line,
      LogicalLine.ofTokens? (Rows.ofSource source) run = some line → line.isSingleRow →
        CommentsLast run := by
  constructor
  · rintro ⟨report, fixed, entries, -, -, accounts⟩
    constructor
    · intro n nonblank
      obtain ⟨e, he, hn⟩ := List.mem_flatMap.mp (accounts.complete n nonblank)
      obtain ⟨run, hr, rows, -⟩ := (accounts.isFrom e he).exists_run
      exact ⟨run, hr, rows ▸ hn⟩
    · intro run hr line hl single
      by_cases blank : Text.isAllBlank ((Rows.ofSource source).row line.firstRow)
      · exact commentsLast_of_blank read hr hl single blank
      · obtain ⟨e, he, hn⟩ := List.mem_flatMap.mp (accounts.complete _ blank)
        obtain ⟨run', hr', rows, statement⟩ := (accounts.isFrom e he).exists_run
        obtain ⟨_, spans, -, -⟩ := spans_of_tokenize read
        obtain ⟨t, ht, content, row, -⟩ := LogicalLine.exists_firstRow hl
        obtain ⟨i, j, block, -⟩ := spans.exists_block hr
        have solid := Token.isSolid_of_isContent content
        have same : run' = run := spans.eq_of_mem_keptRows hr' hr (rows ▸ hn) ht solid
          (Nat.le_of_eq row) (row ▸ (block.isWithin t ht solid).2.1)
        obtain ⟨text, n, rfl⟩ := statement line (same ▸ hl)
        exact accounts.inline line text n he single run hr hl
  · rintro ⟨kept, inline⟩
    obtain ⟨entries, fixed, eq, accounts⟩ := exists_accounts fix read kept inline
    refine ⟨_, fixed, entries, ?_, eq, accounts⟩
    simp only [Checker.check, read]
    rfl

end Iff

/-- A comment in a block and one in brackets stay where they are. -/
theorem accounts_of_block :
    let source := "x=1\n\ndef f(a,b):\n\t# c\n\treturn (a,  # d\n\t\tb)\n".toList
    let c : Checker := ⟨⟨RowRule.all, StatementRule.all⟩, { fix := true }⟩
    ∃ tokens report fixed entries, tokenize source = .ok tokens ∧ c.check source = .ok report ∧
      report.fixed = some fixed ∧ Accounts (c.pass source) tokens entries fixed ∧
      fixed = "x = 1\n\n\ndef f(a, b):\n    # c\n    return (a,  # d\n        b)\n".toList := by
  intro source c
  obtain ⟨tokens, read⟩ : ∃ tokens, (tokenize source).toOption = some tokens :=
    Option.isSome_iff_exists.mp (by decide +kernel)
  have rows : ∀ n < 7, ¬Text.isAllBlank ((Rows.ofSource source).row n) →
      ∃ run ∈ (Runs.of ((tokenize source).toOption.getD [])).ended,
        n ∈ keptRows (Rows.ofSource source) run := by
    decide +kernel
  have beyond : ∀ n, 7 ≤ n → (Rows.ofSource source).row n = [] := by
    intro n le
    have size : (Rows.ofSource source).size = 6 := by decide +kernel
    rw [Rows.row, if_neg (by omega), Array.getElem?_eq_none (by omega)]
    rfl
  have last : ∀ run ∈ (Runs.of ((tokenize source).toOption.getD [])).ended,
      run.Pairwise fun t u => t.kind = .comment → u.isContent → t.stop.row < u.start.row := by
    decide +kernel
  have written : (c.check source).toOption.bind FileReport.fixed =
      some "x = 1\n\n\ndef f(a, b):\n    # c\n    return (a,  # d\n        b)\n".toList := by
    decide +kernel
  rw [read] at rows last
  obtain ⟨report, fixed, entries, check, eq, accounts⟩ :=
    (accounts_iff (c := c) rfl (eq_ok_of_toOption read)).mpr ⟨fun n nonblank => by
      by_cases lt : n < 7
      · exact rows n lt nonblank
      · rw [beyond n (by omega)] at nonblank
        exact absurd rfl nonblank, fun run hr _ _ _ => last run hr⟩
  refine ⟨tokens, report, fixed, entries, eq_ok_of_toOption read, check, eq, accounts, ?_⟩
  rw [check] at written
  exact Option.some.inj (eq.symm.trans written)

/-- A comment that a backslash joins to the end of a statement belongs to no part. -/
theorem joined_comment_lost :
    let source := "x = 1 \\\n# c\n".toList
    let c : Checker := ⟨⟨RowRule.all, StatementRule.all⟩, { fix := true }⟩
    ∃ tokens report, tokenize source = .ok tokens ∧ c.check source = .ok report ∧
      report.fixed = some "x = 1\n".toList ∧
      (∃ t ∈ tokens, t.kind = .comment ∧ t.text = "# c".toList) ∧
      ¬∃ entries, Accounts (c.pass source) tokens entries "x = 1\n".toList := by
  intro source c
  obtain ⟨tokens, read⟩ : ∃ tokens, (tokenize source).toOption = some tokens :=
    Option.isSome_iff_exists.mp (by decide +kernel)
  obtain ⟨report, check⟩ : ∃ report, (c.check source).toOption = some report :=
    Option.isSome_iff_exists.mp (by decide +kernel)
  have written : (c.check source).toOption.bind FileReport.fixed = some "x = 1\n".toList := by
    decide +kernel
  have comment : ∃ t ∈ (tokenize source).toOption.getD [],
      t.kind = .comment ∧ t.text = "# c".toList := by
    decide +kernel
  have lost : ∀ run ∈ (Runs.of ((tokenize source).toOption.getD [])).ended,
      2 ∉ keptRows (Rows.ofSource source) run := by
    decide +kernel
  have nonblank : ¬Text.isAllBlank ((c.pass source).rows.row 2) := by decide +kernel
  rw [read] at comment lost
  rw [check] at written
  refine ⟨tokens, report, eq_ok_of_toOption read, eq_ok_of_toOption check, written, comment, ?_⟩
  rintro ⟨entries, accounts⟩
  obtain ⟨e, he, hn⟩ := List.mem_flatMap.mp (accounts.complete 2 nonblank)
  obtain ⟨run, hr, rows, -⟩ := (accounts.isFrom e he).exists_run
  exact lost run hr (rows ▸ hn)

end StyleGuide
