import StyleGuide.Proofs.Ledger.Outline
import StyleGuide.Proofs.LoneRows
import StyleGuide.Proofs.Rule.Rest
import StyleGuide.Proofs.Unchanged

/-! # The rows of a mended source

A mended source is made of tidy rows and of the mended rows of statements over several rows. The
rows of the first kind are those that stand alone, and the last row is not blank.
-/

namespace StyleGuide

open Lexeme

/-- A row of a mended source. -/
structure Pass.IsWritten (p : Pass) (row : Text) : Prop where
  /-- A tab in front of it stands in front of a mended row. -/
  tabs : '\t' ∈ indentation row →
    ∃ n, 0 < n ∧ n ≤ p.rows.size ∧ '\t' ∈ indentation (Rows.row p.mendedRows n)
  ended : row = Text.tidied row ∨ ∃ n, 0 < n ∧ n ≤ p.rows.size ∧
    row = Rows.row p.mendedRows n ∧ (n = p.rows.size → ¬Text.isAllBlank (p.rows.row n))

/-- A text as a mended source has it. -/
structure Pass.IsTidied (p : Pass) (s : Text) : Prop where
  rows : ∀ row ∈ Text.rows s, p.IsWritten row
  lone : ∀ row ∈ Pause.idle.loneRows (Text.rows s), row = Text.tidied row
  last : ∀ row ∈ (Text.rows s).getLast?, ¬Text.isAllBlank row

section Text

variable {p : Pass} {s t : Text} {c : Char} {widths : List Nat}

/-- The indentation ends in front of anything that is not white space. -/
theorem indentation_append_of_head (hc : ¬Text.isBlank c) (lead rest : Text) :
    indentation (lead ++ c :: rest) = indentation lead := by
  have stop : (c :: rest).takeWhile (fun c => c == ' ' || c == '\t') = [] := by
    refine List.takeWhile_cons_of_neg fun gap => hc ?_
    rcases (by simpa using gap : c = ' ' ∨ c = '\t') with rfl | rfl <;> decide
  rw [indentation, List.takeWhile_append, stop, List.append_nil]
  split
  · next all => exact ((List.takeWhile_prefix _).eq_of_length all).symm
  · rfl

theorem Text.tidied_concat_newline (h : Text.trimEnd s = s) :
    Text.tidied (s ++ ['\n']) = s ++ ['\n'] := by
  rw [Text.tidied, Text.trimEnd_concat (by decide), h]

namespace Pass.IsTidied

theorem nil : p.IsTidied [] := ⟨List.forall_mem_nil _, List.forall_mem_nil _, by simp [Text.rows]⟩

/-- A single tidy row. -/
theorem of_row (ne : s ≠ []) (free : '\n' ∉ s) (tidy : Text.trimEnd s = s)
    (tabs : '\t' ∈ indentation s →
      ∃ n, 0 < n ∧ n ≤ p.rows.size ∧ '\t' ∈ indentation (Rows.row p.mendedRows n)) :
    p.IsTidied (s ++ ['\n']) := by
  have rows : Text.rows (s ++ ['\n']) = [s ++ ['\n']] := Text.rows_append free []
  have tidied := (Text.tidied_concat_newline tidy).symm
  refine ⟨?_, ?_, ?_⟩
  · rw [rows]
    refine List.forall_mem_singleton.mpr ⟨fun tab => tabs ?_, .inl tidied⟩
    rwa [indentation_concat_newline] at tab
  · intro row hr
    rw [rows] at hr
    rwa [List.mem_singleton.mp (Pause.loneRows_subset _ _ hr)]
  · intro row hr blank
    rw [rows] at hr
    obtain rfl := Option.some.inj hr
    have none : Text.trimEnd s = [] := Text.trimEnd_eq_nil_iff.mpr fun c hc =>
      List.all_eq_true.mp blank c (List.mem_append_left _ hc)
    exact ne (tidy.symm.trans none)

/-- Blank rows in front of a text. -/
theorem blankLines (h : p.IsTidied s) (ne : s ≠ []) (k : Nat) :
    p.IsTidied (List.replicate k '\n' ++ s) := by
  induction k with
  | zero => exact h
  | succ k ih =>
      have rows : Text.rows (List.replicate (k + 1) '\n' ++ s) =
          ['\n'] :: Text.rows (List.replicate k '\n' ++ s) := rfl
      have filled : Text.rows (List.replicate k '\n' ++ s) ≠ [] := by
        intro none
        have := Text.flatten_rows (List.replicate k '\n' ++ s)
        rw [none, List.flatten_nil] at this
        exact ne (List.append_eq_nil_iff.mp this.symm).2
      have tidied : ['\n'] = Text.tidied ['\n'] := rfl
      refine ⟨?_, ?_, ?_⟩
      · rw [rows]
        exact List.forall_mem_cons.mpr ⟨⟨by simp [indentation], .inl tidied⟩, ih.rows⟩
      · rw [rows, Pause.loneRows_of_between (by decide)]
        exact List.forall_mem_cons.mpr ⟨tidied, ih.lone⟩
      · rw [rows, List.getLast?_cons_of_ne_nil filled]
        exact ih.last

/-- A text behind one that leaves nothing open. -/
theorem append (h : p.IsTidied s) (outlined : Pause.idle.outline? (Text.rows s) = some widths)
    (ended : t ≠ [] → ∀ c ∈ s.getLast?, c = '\n') (ht : p.IsTidied t) : p.IsTidied (s ++ t) := by
  by_cases none : t = []
  · rwa [none, List.append_nil]
  have rows := Text.rows_append_of_ended (ended none) t
  have filled : Text.rows t ≠ [] := by
    intro empty
    have := Text.flatten_rows t
    rw [empty] at this
    exact none this.symm
  refine ⟨?_, ?_, ?_⟩
  · rw [rows]
    exact List.forall_mem_append.mpr ⟨h.rows, ht.rows⟩
  · rw [rows, Pause.loneRows_append outlined]
    exact List.forall_mem_append.mpr ⟨h.lone, ht.lone⟩
  · rw [rows, List.getLast?_append_of_ne_nil _ filled]
    exact ht.last

end Pass.IsTidied

end Text

section Statement

variable {p : Pass} {s : CheckState} {c : Checker} {source : Text} {tokens run : List Token}
  {line : LogicalLine} {e : Entry} {entries : List Entry} {n : Nat}

theorem Rows.size_ofSource (source : Text) :
    (Rows.ofSource source).size = (Text.rows source).length := by simp [Rows.ofSource]

theorem Rows.getElem?_rows (pos : 0 < n) (le : n ≤ (Rows.ofSource source).size) :
    (Text.rows source)[n - 1]? = some ((Rows.ofSource source).row n) := by
  rw [size_ofSource] at le
  have lt : n - 1 < (Text.rows source).length := by omega
  rw [row, if_neg (by omega), ofSource, List.getElem?_toArray, List.getElem?_eq_getElem lt]
  rfl

/-- The mended rows of a statement over several rows. -/
theorem LogicalLine.IsFramed.isTidied_rows (rows : p.rows = .ofSource source)
    (framed : line.IsFramed p.rows) (last : ¬Text.isAllBlank (p.rows.row line.lastRow))
    (several : ¬line.isSingleRow) :
    p.IsTidied (line.rowNumbers.flatMap (Rows.row p.mendedRows)) := by
  have lt := framed.passes.lt
  have pos := framed.firstRow_pos
  have several : line.firstRow ≠ line.lastRow := mt beq_iff_eq.mpr several
  obtain ⟨shape, -⟩ := framed.areRows_mended rows last
  have whole : Text.rows (line.rowNumbers.flatMap (Rows.row p.mendedRows)) =
      line.rowNumbers.map (Rows.row p.mendedRows) := by
    rw [List.flatMap_def, Text.rows_flatten shape]
  have within (n : Nat) (hn : n ∈ line.rowNumbers) : 0 < n ∧ n ≤ p.rows.size := by
    have first := (mem_rowNumbers.mp hn).1
    exact ⟨by omega, (framed.keepsOutline last hn).2.1⟩
  refine ⟨?_, ?_, ?_⟩
  · rw [whole]
    refine List.forall_mem_map.mpr fun n hn => ?_
    obtain ⟨pos, le⟩ := within n hn
    refine ⟨fun tab => ⟨n, pos, le, tab⟩, .inr ⟨n, pos, le, rfl, fun size => ?_⟩⟩
    have := (mem_rowNumbers.mp hn).2
    have := (within line.lastRow (mem_rowNumbers.mpr ⟨by omega, Nat.le_refl _⟩)).2
    rwa [show n = line.lastRow by omega]
  · have mended := framed.mended last
    have none := mended.passes.loneRows_append mended.opens (.inl (by omega)) []
    rw [List.append_nil] at none
    rw [whole, rowNumbers, none]
    exact List.forall_mem_nil _
  · rw [whole, framed.rowNumbers_eq, List.map_append, List.map_singleton, List.getLast?_concat]
    intro row hr blank
    obtain rfl := Option.some.inj hr
    obtain ⟨pos, le⟩ := within line.lastRow (mem_rowNumbers.mpr ⟨by omega, Nat.le_refl _⟩)
    have trim := Pass.trim_mendedRows (p := p) pos le
    rw [Rows.row, if_neg (by omega), Text.isAllBlank_iff_trim, trim,
      ← Text.isAllBlank_iff_trim] at blank
    exact last blank

/-- Each entry of a mended source is made of such rows. -/
theorem Entry.IsFrom.isTidied (read : tokenize source = .ok tokens)
    (orderly : IsOrderly (Rows.ofSource source) (Runs.of tokens).ended)
    (isFrom : e.IsFrom (c.pass source) tokens) :
    (c.pass source).IsTidied (e.written (c.pass source).mendedRows) := by
  cases isFrom with
  | @comment t u k run kind ends =>
      have ht := mem_of_mem_ended run (List.mem_cons_self ..)
      obtain ⟨-, pos, le, -⟩ := place_of_comment read ht kind
      have nonblank := not_isAllBlank_of_comment read ht kind
      have trim := Pass.trim_mendedRows (p := c.pass source) pos le
      have only := ((c.pass source).keepsOutline_mendedRows pos le fun _ => nonblank).only
        (endsAtNewline_row source _)
      have row : (c.pass source).mendedRows[t.start.row - 1]?.getD [] =
          Rows.row (c.pass source).mendedRows t.start.row := by
        rw [Rows.row, if_neg (by omega)]
      have filled : Text.trimEnd (Rows.row (c.pass source).mendedRows t.start.row) ≠ [] := by
        intro none
        rw [row, Text.trim_eq_trimStart_trimEnd, none] at trim
        exact nonblank (Text.isAllBlank_iff_trim.mpr trim.symm)
      rw [written, Comment.written, row, List.append_assoc]
      have tidy := List.rdropWhile_idempotent (p := Text.isBlank)
        (l := Rows.row (c.pass source).mendedRows t.start.row)
      refine Pass.IsTidied.blankLines (.of_row filled ?_ tidy fun tab => ?_) (by simp) k
      · obtain ⟨body, d, behind, whole, solid, trimmed⟩ := Text.exists_of_trimEnd_ne_nil filled
        rw [trimmed]
        rw [whole] at only
        refine EndsAtNewline.notMem (a := []) (b := behind) only fun last => ?_
        rw [List.getLast?_concat] at last
        obtain rfl := Option.some.inj last
        exact solid (by decide)
      · exact ⟨_, pos, le, indentation_subset (Text.dropEndWhile_prefix _ _) tab⟩
  | @statement seen ahead t line k _ hr hl =>
      obtain ⟨framed, last⟩ := orderly.isFramed read hr hl
      have sober := orderly.sober _ hr
      obtain ⟨_, spans, closed, -⟩ := spans_of_tokenize read
      obtain ⟨_, laid⟩ := laid_of_tokenize read
      rw [← Runs.flatten_of tokens, closed, List.append_nil] at laid
      obtain ⟨_, _, laid, above⟩ := spans.exists_laid laid Nat.one_pos _ hr line hl
      have lt := framed.passes.lt
      have pos := framed.firstRow_pos
      by_cases single : line.isSingleRow
      · obtain ⟨text, ⟨d, rest, rfl, solid, -⟩, free, -, trimmed, text_eq⟩ :=
          framed.exists_written (s := (c.pass source).reach seen t) rfl last hl single laid above
            (orderly.single _ hr line hl single) sober
        rw [written, text_eq]
        set row := Rows.row (c.pass source).mendedRows line.firstRow
        refine Pass.IsTidied.blankLines (.of_row (by simp) ?_ ?_ fun tab => ?_) (by simp) k
        · rw [List.mem_append, not_or]
          exact ⟨KeepsOutline.notMem_newline_of_gap fun c hc => List.mem_takeWhile_imp hc, free⟩
        · rw [Text.trimEnd_append (by rw [trimmed]; simp), trimmed]
        · rw [indentation_append_of_head solid, indentation_takeWhile] at tab
          exact ⟨_, pos, (framed.keepsOutline (p := c.pass source) last
            (LogicalLine.mem_rowNumbers.mpr ⟨Nat.le_refl _, by omega⟩)).2.1, tab⟩
      · have tidied := framed.isTidied_rows (p := c.pass source) rfl last single
        have ne : line.rowNumbers.flatMap (Rows.row (c.pass source).mendedRows) ≠ [] := by
          intro none
          have first := LogicalLine.mem_rowNumbers.mpr
            ⟨Nat.le_refl line.firstRow, show line.firstRow ≤ line.lastRow by omega⟩
          obtain ⟨filled, -, keeps⟩ := framed.keepsOutline (p := c.pass source) last first
          exact keeps.filled filled (List.flatMap_eq_nil_iff.mp none _ first)
        rw [written, LogicalLine.written, if_neg single,
          LogicalLine.flatten_extract (c.pass source).mendedRows pos]
        exact tidied.blankLines ne k

/-- Entries in order are made of such rows. -/
theorem isTidied_entries {p : Pass} {size : Nat}
    (each : ∀ e ∈ entries, e.rows ≠ [] ∧ (∀ n ∈ e.rows, n ≤ size) ∧
      IsOutlined (∀ n ∈ e.rows, n < size) (e.written p.mendedRows)
        (e.startWidth? p.mendedRows).toList)
    (tidied : ∀ e ∈ entries, p.IsTidied (e.written p.mendedRows))
    (ascending : (entries.flatMap Entry.rows).Pairwise (· < ·)) :
    p.IsTidied (entries.flatMap (Entry.written p.mendedRows)) := by
  induction entries with
  | nil => exact .nil
  | cons e entries ih =>
      obtain ⟨⟨-, -, here⟩, rest⟩ := List.forall_mem_cons.mp each
      obtain ⟨tidy, tidied⟩ := List.forall_mem_cons.mp tidied
      have sorted := (List.pairwise_append.mp (List.flatMap_cons ▸ ascending)).2.1
      rw [List.flatMap_cons]
      refine tidy.append here.outline (fun more => here.ended ?_) (ih rest tidied sorted)
      refine lt_size_of_entry (fun f hf => ⟨(rest f hf).1, (rest f hf).2.1⟩) ascending ?_
      rintro rfl
      exact more rfl

/-- The mended source of an orderly source is made of such rows. -/
theorem IsOrderly.isTidied_fixed (fix : c.config.fix) (read : tokenize source = .ok tokens)
    (orderly : IsOrderly (Rows.ofSource source) (Runs.of tokens).ended) :
    ∃ report fixed, c.check source = .ok report ∧ report.fixed = some fixed ∧
      (c.pass source).IsTidied fixed := by
  obtain ⟨report, entries, check, fixed, isFrom, ascending, -⟩ :=
    orderly.exists_entries (c := c) fix read
  exact ⟨report, _, check, fixed, isTidied_entries
    (fun e he => (isFrom e he).isOutlined read orderly)
    (fun e he => (isFrom e he).isTidied read orderly) ascending⟩

/-- Where such a text is orderly itself, it is neat. -/
theorem IsOrderly.isNeat {p : Pass} (read : tokenize source = .ok tokens)
    (orderly : IsOrderly (Rows.ofSource source) (Runs.of tokens).ended)
    (tidied : p.IsTidied source) : IsNeat (Rows.ofSource source) (Runs.of tokens).ended where
  tidied run hr n own := tidied.lone _ (orderly.mem_loneRows read run hr n own)
  last some := tidied.last _ (by
    rw [List.getLast?_eq_getElem?, ← Rows.size_ofSource,
      Rows.getElem?_rows (by omega) (Nat.le_refl _)]
    rfl)

end Statement

end StyleGuide
