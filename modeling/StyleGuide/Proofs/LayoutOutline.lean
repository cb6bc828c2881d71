import StyleGuide.Proofs.Layout
import StyleGuide.Proofs.LogicalLine.Inside
import StyleGuide.Proofs.LogicalLine.Origin
import StyleGuide.Proofs.TokenStream.Outline

/-! # The rows of each statement

Where each row of a source belongs to a run as a whole, a statement takes exactly the rows from its
first content to its last: in front of them nothing is open, and behind them nothing is. So the
outline of the source is given by the first rows of its logical lines.
-/

namespace StyleGuide

open Lexeme

/-- The widths at which the logical lines of some runs start, on the rows `mended`. -/
def startWidths (rows mended : Rows) (runs : List (List Token)) : List Nat :=
  runs.filterMap fun run =>
    (LogicalLine.ofTokens? rows run).map fun line => startWidth (mended.row line.firstRow)

/-- Each row of a source belongs to a run as a whole, and its statements are written in characters
    that the language knows. -/
structure IsOrderly (rows : Rows) (runs : List (List Token)) : Prop where
  /-- Each row belongs to a run; a gap may stand behind the last row. -/
  owned : ∀ n, (∀ c ∈ rows.row n, isGap c) ∨ ∃ run ∈ runs, n ∈ ownRows rows run
  /-- A newline ends a statement that has content. -/
  filled : ∀ run ∈ runs, ∀ t ∈ run.getLast?, t.kind = .newline → ∃ u ∈ run, u.isContent
  single : ∀ run ∈ runs, ∀ line ∈ LogicalLine.ofTokens? rows run,
    line.isSingleRow → FillsRow rows run line.firstRow
  /-- No backslash joins a gap at the end of the source. -/
  joined : ∀ n, endsInBackslash (rows.row n) → (∀ c ∈ rows.row (n + 1), isGap c) →
    rows.row (n + 1) = []
  sober : ∀ run ∈ runs, ∀ t ∈ run, t.isContent → t.isSober

instance (rows : Rows) (runs : List (List Token)) : Decidable (IsOrderly rows runs) :=
  decidable_of_iff
    ((∀ n < rows.size + 1, (rows.row n).all isGap ∨ ∃ run ∈ runs, n ∈ ownRows rows run) ∧
      (∀ run ∈ runs, ∀ t ∈ run.getLast?, t.kind = .newline → ∃ u ∈ run, u.isContent) ∧
      (∀ run ∈ runs, ∀ line ∈ LogicalLine.ofTokens? rows run,
        line.isSingleRow → FillsRow rows run line.firstRow) ∧
      (∀ n < rows.size + 1, endsInBackslash (rows.row n) → (rows.row (n + 1)).all isGap →
        rows.row (n + 1) = []) ∧
      ∀ run ∈ runs, ∀ t ∈ run, t.isContent → t.isSober)
    ⟨fun ⟨owned, filled, single, joined, sober⟩ => by
      refine ⟨fun n => ?_, filled, single, fun n joins gaps => ?_, sober⟩
      all_goals by_cases lt : n < rows.size + 1
      · rw [← List.all_eq_true]
        exact owned n lt
      · rw [Rows.row_of_size_lt (by omega)]
        exact .inl nofun
      · exact joined n lt joins (List.all_eq_true.mpr gaps)
      · exact Rows.row_of_size_lt (by omega),
    fun ⟨owned, filled, single, joined, sober⟩ =>
      ⟨fun n _ => (owned n).imp_left List.all_eq_true.mpr, filled, single,
        fun n _ joins gaps => joined n joins (List.all_eq_true.mp gaps), sober⟩⟩

section Joined

variable {s rest : Text} {d : Nat} {p : Pause}

/-- A row that is joined to the next one holds a backslash in front of its end. -/
theorem exists_joint_of_skim (h : skim d s = some p) (joined : p.ending = .joined) :
    ∃ rest, '\\' :: rest <:+ s ∧ (terminator? rest).isSome := by
  fun_induction skim d s with
  | case1 | case3 | case6 =>
      obtain rfl := Option.some.inj h
      cases joined
  | case2 depth c rest q _ inner n _ ih =>
      obtain ⟨joint, sub, ends⟩ := ih h
      exact ⟨joint, (sub.trans (List.drop_suffix n inner)).trans
        ((List.drop_suffix _ rest).trans (List.suffix_cons c rest)), ends⟩
  | case4 | case8 => cases h
  | case5 depth rest _ ih =>
      obtain ⟨joint, sub, ends⟩ := ih h
      exact ⟨joint, (sub.trans (List.dropWhile_suffix _)).trans (List.suffix_cons '#' rest), ends⟩
  | case7 depth rest ends => exact ⟨rest, List.suffix_rfl, ends⟩
  | case9 depth c rest _ _ _ _ ih =>
      obtain ⟨depth, -, h⟩ := Option.bind_eq_some_iff.mp h
      obtain ⟨joint, sub, ends⟩ := ih depth h
      exact ⟨joint, sub.trans (List.suffix_cons c rest), ends⟩

/-- A newline is the last thing on its row, and so is a terminator. -/
theorem isTerminator_of_suffix {line : Text} (h : (terminator? rest).isSome)
    (only : EndsAtNewline line) (sub : rest <:+ line) : IsTerminator rest := by
  obtain ⟨n, hn⟩ := Option.isSome_iff_exists.mp h
  obtain ⟨x, rfl⟩ := sub
  have ending := (isTerminator_of_terminator? hn).1
  rw [← List.take_append_drop n rest, ← List.append_assoc] at only
  rw [← List.take_append_drop n rest, only.behind_eq_nil ending, List.append_nil]
  exact ending

theorem endsInBackslash_of_suffix {t : Text} (h : endsInBackslash s) (sub : s <:+ t) :
    endsInBackslash t := by
  simp only [endsInBackslash, Bool.or_eq_true, List.isSuffixOf_iff_suffix] at h ⊢
  exact h.imp (·.trans sub) (·.trans sub)

/-- Only a row that ends in a backslash is joined to the next one. -/
theorem endsInBackslash_of_skim (h : skim d s = some p) (joined : p.ending = .joined)
    (only : EndsAtNewline s) : endsInBackslash s := by
  obtain ⟨rest, sub, ends⟩ := exists_joint_of_skim h joined
  have terminator := isTerminator_of_suffix ends only ((List.suffix_cons _ rest).trans sub)
  simp only [endsInBackslash, Bool.or_eq_true, List.isSuffixOf_iff_suffix]
  rcases terminator with rfl | rfl
  · exact .inl sub
  · exact .inr sub

end Joined

section Gaps

variable {rows : Rows} {source row : Text} {q : Delimiter} {p r : Pause} {a b c n : Nat}

theorem endsAtNewline_of_mem_rows {line : Text} (h : line ∈ Text.rows source) :
    EndsAtNewline line := by
  obtain ⟨done, more, split⟩ := List.append_of_mem h
  have shape := Text.areRows_rows source
  rw [split] at shape
  exact ScanState.endsAtNewline_of_areRows shape.of_append_right

theorem endsAtNewline_row (source : Text) (n : Nat) :
    EndsAtNewline ((Rows.ofSource source).row n) := by
  intro before behind eq
  have mem : (Rows.ofSource source).row n ∈ Text.rows source := by
    cases n with
    | zero => simp [Rows.row] at eq
    | succ n =>
        rw [Text.row_ofSource] at eq ⊢
        cases h : (Text.rows source)[n]? with
        | none => simp [h] at eq
        | some line => exact List.mem_of_getElem? h
  exact endsAtNewline_of_mem_rows mem before behind eq

theorem closing?_of_gap (hq : isQuote q.mark) (gap : ∀ c ∈ row, isGap c) :
    q.closing? row = none := by
  cases h : q.closing? row with
  | none => rfl
  | some n =>
      obtain ⟨body, behind, rfl, -⟩ := Delimiter.exists_of_closing? h
      have mark : q.mark ∈ q.text := by
        unfold Delimiter.text
        split <;> simp
      have := gap q.mark (List.mem_append_left _ (List.mem_append_right _ mark))
      simp only [isQuote, Bool.or_eq_true, beq_iff_eq] at hq
      rcases hq with hq | hq <;>
        (rw [hq] at this
         exact absurd this (by decide))

/-- Where a gap leaves nothing open, the row in front of it has been joined to it. -/
theorem Pause.eq_of_resume?_gap (quoted : p.IsQuoted) (gap : ∀ c ∈ row, isGap c)
    (h : p.resume? row = some .idle) : p = .idle ∨ p.ending = .joined := by
  have skimmed (depth : Nat) : skim depth row = some ⟨depth, .plain⟩ := by
    have := skim_gap gap depth []
    rw [List.append_nil] at this
    rw [this, skim]
  obtain ⟨depth, ending⟩ := p
  cases ending with
  | inLiteral q =>
      simp only [resume?, closing?_of_gap (quoted q rfl) gap] at h
      split at h
      · cases h
      · cases h
  | plain =>
      rw [resume?, skimmed] at h
      exact .inl (Option.some.inj h)
  | joined => exact .inr rfl

/-- A row that is joined to the next one ends in a backslash. -/
theorem Pause.endsInBackslash_of_resume? (h : p.resume? row = some r) (joined : r.ending = .joined)
    (only : EndsAtNewline row) : endsInBackslash row := by
  unfold resume? at h
  split at h
  · next q open_ =>
      split at h
      · next n _ =>
          have sub := List.drop_suffix n row
          refine endsInBackslash_of_suffix (endsInBackslash_of_skim h joined ?_) sub
          intro before behind eq
          obtain ⟨x, whole⟩ := sub
          exact only (x ++ before) behind (by rw [← whole, eq, List.append_assoc])
      · split at h
        · obtain rfl := Option.some.inj h
          rw [open_] at joined
          cases joined
        · cases h
  · exact endsInBackslash_of_skim h joined only
  · exact endsInBackslash_of_skim h joined only

theorem Passes.exists_last (h : Passes rows a (b + 1) p) :
    rows.row b ≠ [] ∧ ((a = b ∧ Pause.idle.resume? (rows.row b) = some p) ∨
      ∃ q, Passes rows a b q ∧ q ≠ .idle ∧ q.resume? (rows.row b) = some p) := by
  cases h with
  | first filled resumes => exact ⟨filled, .inl ⟨rfl, resumes⟩⟩
  | next before open_ filled resumes => exact ⟨filled, .inr ⟨_, before, open_, resumes⟩⟩

theorem Passes.endsInBackslash_of_joined (h : Passes (Rows.ofSource source) a (b + 1) p)
    (joined : p.ending = .joined) : endsInBackslash ((Rows.ofSource source).row b) := by
  rcases h.exists_last.2 with ⟨-, resumes⟩ | ⟨_, -, -, resumes⟩ <;>
    exact Pause.endsInBackslash_of_resume? resumes joined (endsAtNewline_row source b)

/-- A statement does not go on into a gap at the end of the source, unless it is joined to it. -/
theorem Passes.le_of_gaps (h : Passes (Rows.ofSource source) a b .idle) (lt : a < c)
    (gaps : ∀ n, c ≤ n → ∀ d ∈ (Rows.ofSource source).row n, isGap d)
    (joined : ∀ n, endsInBackslash ((Rows.ofSource source).row n) →
      (∀ d ∈ (Rows.ofSource source).row (n + 1), isGap d) →
      (Rows.ofSource source).row (n + 1) = []) : b ≤ c := by
  by_contra beyond
  obtain ⟨n, rfl⟩ : ∃ n, b = n + 2 := ⟨b - 2, by omega⟩
  obtain ⟨filled, ⟨same, -⟩ | ⟨q, before, open_, resumes⟩⟩ := h.exists_last
  · omega
  · have gap := gaps (n + 1) (by omega)
    have ending := (Pause.eq_of_resume?_gap before.isQuoted gap resumes).resolve_left open_
    exact filled (joined n (before.endsInBackslash_of_joined ending) gap)

end Gaps

section Content

variable {source : Text} {tokens : List Token} {t : Token} {d : Nat} {p : Pause}

/-- A sober token begins with a character that is no white space and no backslash. -/
theorem Token.exists_head_of_isSober (h : t.isSober) (ne : t.text ≠ [])
    (literal : t.kind = .string → IsLiteral t.text) :
    ∃ c rest, t.text = c :: rest ∧ ¬Text.isBlank c ∧ c ≠ '\\' := by
  by_cases string : t.kind = .string
  · obtain ⟨c, rest, text, firm⟩ := (literal string).isFirm_head
    refine ⟨c, rest, text, fun blank => not_isFirm_of_isBlank blank firm, ?_⟩
    rintro rfl
    exact absurd firm (by decide)
  · obtain ⟨c, rest, text⟩ := List.exists_cons_of_ne_nil ne
    have sober := h
    simp only [isSober, string, beq_iff_eq, Bool.or_eq_true, false_or, List.all_eq_true] at sober
    have hc := sober c (by simp [text])
    simp only [Bool.and_eq_true, Bool.not_eq_true'] at hc
    refine ⟨c, rest, text, by simp [hc.2], ?_⟩
    rintro rfl
    exact absurd hc.1 (by decide)

/-- A token begins on the row of its start, if a newline ends that row. -/
theorem head_mem_row (read : tokenize source = .ok tokens) (ht : t ∈ tokens) (content : t.isContent)
    (newline : '\n' ∈ (Rows.ofSource source).row t.start.row) {c : Char} {rest : Text}
    (text : t.text = c :: rest) : c ∈ (Rows.ofSource source).row t.start.row := by
  have solid := Token.isSolid_of_isContent content
  obtain ⟨_, laid⟩ := laid_of_tokenize read
  cases laid.isSet_of_mem (List.mem_filter.mpr ⟨ht, solid⟩) with
  | onRow _ stop row =>
      rw [row]
      exact stop.1.subset (by simp [text])
  | acrossRows string =>
      obtain ⟨initial, shown, length⟩ :=
        (edged_of_tokenize read t ht (Token.isKnown_of_string string)).start
      obtain ⟨done, line, more, before, behind, split, whole, part, start⟩ :=
        exists_row_of_isCut (isCut_of_isSolid read ht solid)
      have row : (Rows.ofSource source).row t.start.row = line := by
        rw [start, Rows.row_ofSource split]
      rw [Rows.shown, row] at shown
      rw [row] at newline ⊢
      have terminator : Text.withoutTerminator line <+: line := Text.dropEndWhile_prefix _ _
      obtain rfl := Text.eq_of_prefix_of_byteLength_eq (shown.trans terminator) ⟨behind, whole⟩
        (by rw [length, start])
      cases behind with
      | nil =>
          -- the token would begin behind the newline
          rw [List.append_nil] at whole
          subst whole
          obtain ⟨x, y, eq⟩ := List.append_of_mem newline
          obtain rfl := eq_nil_of_row split eq.symm
          have all : Text.withoutTerminator initial = initial :=
            terminator.eq_of_length_le shown.length_le
          have last := Text.ne_newline_of_getLast?_withoutTerminator initial '\n'
          rw [all, eq] at last
          exact absurd rfl (last (by simp)).1
      | cons e behind =>
          rw [text, List.cons_append, List.cons_prefix_cons] at part
          rw [← whole, part.1]
          simp

/-- Behind a backslash that joins its row to the next one no token begins. -/
theorem not_startsInBackslash_of_content (read : tokenize source = .ok tokens) (ht : t ∈ tokens)
    (content : t.isContent) (sober : t.isSober)
    (skimmed : skim d ((Rows.ofSource source).row t.start.row) = some p) :
    ¬startsInBackslash ((Rows.ofSource source).row t.start.row) := by
  intro starts
  have solid := Token.isSolid_of_isContent content
  have only := endsAtNewline_row source t.start.row
  obtain ⟨_, laid⟩ := laid_of_tokenize read
  have ne := (laid.isSet_of_mem (List.mem_filter.mpr ⟨ht, solid⟩)).ne_nil
  obtain ⟨c, more, text, other, plain⟩ := Token.exists_head_of_isSober sober ne fun string =>
    (edged_of_tokenize read t ht (Token.isKnown_of_string string)).literal string
  have mem := fun newline => head_mem_row read ht content newline text
  generalize (Rows.ofSource source).row t.start.row = line at starts only mem skimmed
  obtain ⟨rest, eq⟩ : ∃ rest, line.dropWhile isGap = '\\' :: rest := by
    simp only [startsInBackslash, beq_iff_eq] at starts
    exact List.head?_eq_some_iff.mp starts
  have whole : line.takeWhile isGap ++ '\\' :: rest = line := by
    rw [← eq, List.takeWhile_append_dropWhile]
  have ends : (terminator? rest).isSome := by
    by_contra none
    rw [← ScanState.skim_dropWhile, eq, skim_backslash (by simpa using none)] at skimmed
    cases skimmed
  have terminator := isTerminator_of_suffix ends only ⟨line.takeWhile isGap ++ ['\\'], by simpa⟩
  have blank : ∀ e ∈ rest, Text.isBlank e := by
    rcases terminator with rfl | rfl
    · exact List.forall_mem_singleton.mpr (by decide)
    · exact List.forall_mem_cons.mpr ⟨by decide, List.forall_mem_singleton.mpr (by decide)⟩
  have newline : '\n' ∈ line := by
    rw [← whole]
    rcases terminator with rfl | rfl <;> simp
  have here := mem newline
  rw [← whole, List.mem_append, List.mem_cons] at here
  rcases here with gap | rfl | behind
  · exact other (isBlank_of_isGap (List.mem_takeWhile_imp gap))
  · exact plain rfl
  · exact other (blank c behind)

end Content

/-- A statement takes the rows from its first content to its last, and nothing is open in front of
    them or behind them. -/
structure LogicalLine.IsFramed (l : LogicalLine) (rows : Rows) : Prop where
  opens : opensStatement (rows.row l.firstRow)
  other : ¬startsInBackslash (rows.row l.firstRow)
  passes : Passes rows l.firstRow (l.lastRow + 1) .idle

theorem LogicalLine.IsFramed.firstRow_pos {l : LogicalLine} {rows : Rows} (h : l.IsFramed rows) :
    0 < l.firstRow := by
  by_contra zero
  have opens := h.opens
  rw [Nat.eq_zero_of_not_pos zero] at opens
  cases opens

/-- The statement of a run has its rows for itself, and no comment row opens one. -/
structure IsFramed (rows : Rows) (run : List Token) : Prop where
  line : ∀ l, LogicalLine.ofTokens? rows run = some l → l.IsFramed rows
  comment : ∀ t, loneComment? run = some t → ¬opensStatement (rows.row t.start.row)

section Framed

variable {rows mended : Rows} {source : Text} {tokens run : List Token}
  {runs : List (List Token)} {line : LogicalLine} {a b e n : Nat} {indents kept : List Nat} {p : Pause}

theorem startWidths_of_none (none : LogicalLine.ofTokens? rows run = none) :
    startWidths rows mended (run :: runs) = startWidths rows mended runs := by
  rw [startWidths, List.filterMap_cons, none]
  rfl

theorem startWidths_of_some (hl : LogicalLine.ofTokens? rows run = some line) :
    startWidths rows mended (run :: runs) =
      startWidth (mended.row line.firstRow) :: startWidths rows mended runs := by
  rw [startWidths, List.filterMap_cons, hl]
  rfl

theorem Passes.exists_first (h : Passes rows a b p) : ∃ q, skim 0 (rows.row a) = some q := by
  induction h with
  | first _ resumes => exact ⟨_, resumes⟩
  | next _ _ _ _ ih => exact ih

/-- A run without content has no statement and is outlined by nothing. -/
theorem isFramed_of_bare (bare : ∀ t ∈ run, t.isContent = false)
    (comment : ∀ t, loneComment? run = some t → ¬opensStatement (rows.row t.start.row)) :
    IsFramed rows run := by
  refine ⟨fun l hl => ?_, comment⟩
  rw [ofTokens?_eq_none bare] at hl
  cases hl

/-- The rows of a statement are those from its first content to its last, if no more do. -/
theorem IsStatement.isFramed {body : List Token} (read : tokenize source = .ok tokens)
    (h : IsStatement (Rows.ofSource source) a b indents kept body .idle)
    (hl : LogicalLine.ofTokens? (Rows.ofSource source) run = some line)
    (content : ∀ t ∈ run, t.isContent → t ∈ body) (sub : ∀ t ∈ run, t ∈ tokens)
    (sober : ∀ t ∈ run, t.isContent → t.isSober)
    (last : ∃ t, run.getLast? = some t ∧ t.kind ≠ .rowBreak) (start : line.firstRow = a)
    (le : a ≤ line.lastRow) (pos : 0 < a) (stop : b ≤ line.lastRow + 1) :
    b = line.lastRow + 1 ∧ IsFramed (Rows.ofSource source) run := by
  have same : b = line.lastRow + 1 := by
    rcases LogicalLine.exists_lastRow hl with zero | ⟨t, ht, hc, row⟩
    · omega
    · have := (h.placed t (content t ht hc) (Token.isSolid_of_isContent hc)).2.2
      omega
  obtain ⟨t, ht, hc, row, -⟩ := LogicalLine.exists_firstRow hl
  obtain ⟨q, skimmed⟩ := h.passes.exists_first
  rw [← start, ← row] at skimmed
  have other := not_startsInBackslash_of_content read (sub t ht) hc (sober t ht hc) skimmed
  refine ⟨same, fun l hl' => ?_, fun u hu => ?_⟩
  · obtain rfl := Option.some.inj (hl.symm.trans hl')
    exact ⟨start ▸ h.opens, row ▸ other, by rw [← same, start]; exact h.passes⟩
  · rw [loneComment?_eq_none last] at hu
    cases hu

/-- The end of a row between statements ends a run between statements. -/
theorem Outlined.of_rowBreak (h : Outlined rows a indents (run :: runs))
    (last : ∃ t, run.getLast? = some t ∧ t.kind = .rowBreak) :
    rows.row a ≠ [] ∧ ¬opensStatement (rows.row a) ∧
      (∀ t ∈ run, t.isContent = false ∧ t.start.row = a) ∧ Outlined rows (a + 1) indents runs := by
  obtain ⟨t, ht, kind⟩ := last
  cases h with
  | between filled between bare _ rest =>
      exact ⟨filled, between, fun u hu => ⟨(bare u hu).1, (bare u hu).2.2⟩, rest⟩
  | statement _ ends | marks _ ends =>
      obtain ⟨u, hu, kind'⟩ := ends
      obtain rfl := Option.some.inj (ht.symm.trans hu)
      cases kind'.symm.trans kind
  | newline kind' =>
      obtain rfl := Option.some.inj ht
      cases kind'.symm.trans kind
  | last _ _ ends =>
      obtain ⟨u, hu, kind'⟩ := ends
      rw [List.getLast?_append, hu] at ht
      obtain rfl := Option.some.inj ht
      cases kind'.symm.trans kind

/-- A newline ends a statement. -/
theorem Outlined.of_newline (h : Outlined rows a indents (run :: runs))
    (last : ∃ t, run.getLast? = some t ∧ t.kind = .newline)
    (hl : LogicalLine.ofTokens? rows run = some line) :
    ∃ b kept, IsStatement rows a b indents kept run .idle ∧ Outlined rows b kept runs := by
  obtain ⟨t, ht, kind⟩ := last
  cases h with
  | statement statement _ rest => exact ⟨_, _, statement, rest⟩
  | newline kind' =>
      rw [ofTokens?_eq_none (by simp [Token.isContent, kind', Token.Kind.isLayout])] at hl
      cases hl
  | between _ _ bare =>
      rw [ofTokens?_eq_none fun u hu => (bare u hu).1] at hl
      cases hl
  | marks bare =>
      rw [ofTokens?_eq_none bare] at hl
      cases hl
  | last _ _ ends =>
      obtain ⟨u, hu, kind'⟩ := ends
      rw [List.getLast?_append, hu] at ht
      obtain rfl := Option.some.inj ht
      cases kind'.symm.trans kind

/-- The end of the source ends the last run. -/
theorem Outlined.of_endMarker (h : Outlined rows a indents (run :: runs))
    (last : ∃ t, run.getLast? = some t ∧ t.kind = .endMarker) :
    (∃ b kept body, IsStatement rows a b indents kept body .idle ∧
        ∀ t ∈ run, t.isContent → t ∈ body) ∨
      (∀ t ∈ run, t.isContent = false) ∧ ∀ n, a ≤ n → ∀ c ∈ rows.row n, isGap c := by
  obtain ⟨t, ht, kind⟩ := last
  cases h with
  | last statement bare =>
      refine .inl ⟨_, _, _, statement, fun u hu content => ?_⟩
      refine (List.mem_append.mp hu).resolve_right fun hu => ?_
      rw [bare u hu] at content
      cases content
  | marks bare _ gaps => exact .inr ⟨bare, gaps⟩
  | statement _ ends | between _ _ _ ends =>
      obtain ⟨u, hu, kind'⟩ := ends
      obtain rfl := Option.some.inj (ht.symm.trans hu)
      cases kind'.symm.trans kind
  | newline kind' =>
      obtain rfl := Option.some.inj ht
      cases kind'.symm.trans kind

/-- A statement ends where the rows behind it begin, as the layout has it. -/
theorem Layout.le_of_outlined (layout : Layout (Rows.ofSource source) b runs e)
    (outlined : Outlined (Rows.ofSource source) a kept runs)
    (passes : Passes (Rows.ofSource source) n a .idle) (lt : n < b)
    (joined : ∀ n, endsInBackslash ((Rows.ofSource source).row n) →
      (∀ d ∈ (Rows.ofSource source).row (n + 1), isGap d) →
      (Rows.ofSource source).row (n + 1) = [])
    (behind : ∀ n, e ≤ n → ∀ c ∈ (Rows.ofSource source).row n, isGap c) : a ≤ b := by
  cases layout with
  | nil => cases outlined
  | @blank _ _ t _ kind row =>
      have bare := (outlined.of_rowBreak ⟨t, rfl, kind⟩).2.2.1
      exact Nat.le_of_eq ((bare t (List.mem_singleton_self t)).2.symm.trans row)
  | @comment _ _ t u _ kind ends on =>
      have bare := (outlined.of_rowBreak ⟨u, rfl, ends⟩).2.2.1
      exact Nat.le_of_eq ((bare t (List.mem_cons_self ..)).2.symm.trans on.1)
  | statement hl start le last =>
      obtain ⟨_, _, statement, -⟩ := outlined.of_newline last hl
      obtain ⟨t, ht, content, row, -⟩ := LogicalLine.exists_firstRow hl
      have := (statement.placed t ht (Token.isSolid_of_isContent content)).1
      omega
  | last hl start le last =>
      obtain ⟨_, _, _, statement, body⟩ | ⟨bare, -⟩ := outlined.of_endMarker last
      · obtain ⟨t, ht, content, row, -⟩ := LogicalLine.exists_firstRow hl
        have := (statement.placed t (body t ht content) (Token.isSolid_of_isContent content)).1
        omega
      · rw [ofTokens?_eq_none bare] at hl
        cases hl
  | marks none last => exact passes.le_of_gaps lt behind joined

/-- In an orderly source the statements begin where their logical lines do. -/
theorem Layout.outline?_eq (read : tokenize source = .ok tokens)
    (joined : ∀ n, endsInBackslash ((Rows.ofSource source).row n) →
      (∀ d ∈ (Rows.ofSource source).row (n + 1), isGap d) →
      (Rows.ofSource source).row (n + 1) = [])
    (layout : Layout (Rows.ofSource source) a runs e)
    (outlined : Outlined (Rows.ofSource source) a indents runs)
    (sub : ∀ run ∈ runs, ∀ t ∈ run, t ∈ tokens)
    (sober : ∀ run ∈ runs, ∀ t ∈ run, t.isContent → t.isSober) (pos : 0 < a)
    (behind : ∀ n, e ≤ n → ∀ c ∈ (Rows.ofSource source).row n, isGap c) :
    Pause.idle.outline? ((Rows.ofSource source).toList.drop (a - 1)) =
        some (startWidths (Rows.ofSource source) (Rows.ofSource source) runs) ∧
      ∀ run ∈ runs, IsFramed (Rows.ofSource source) run := by
  induction layout generalizing indents with
  | nil => cases outlined
  | @blank a e t runs kind row blank rest ih =>
      obtain ⟨filled, between, bare, outlined⟩ := outlined.of_rowBreak ⟨t, rfl, kind⟩
      obtain ⟨_, sub⟩ := List.forall_mem_cons.mp sub
      obtain ⟨_, sober⟩ := List.forall_mem_cons.mp sober
      obtain ⟨widths, framed⟩ := ih outlined sub sober (Nat.succ_pos a) behind
      have content := fun u hu => (bare u hu).1
      refine ⟨?_, List.forall_mem_cons.mpr ⟨isFramed_of_bare content nofun, framed⟩⟩
      rw [Rows.drop_eq_cons filled, startWidths_of_none (ofTokens?_eq_none content), ← widths]
      simp [Pause.outline?, between]
  | @comment a e t u runs kind ends on first rest ih =>
      obtain ⟨filled, between, bare, outlined⟩ := outlined.of_rowBreak ⟨u, rfl, ends⟩
      obtain ⟨_, sub⟩ := List.forall_mem_cons.mp sub
      obtain ⟨_, sober⟩ := List.forall_mem_cons.mp sober
      obtain ⟨widths, framed⟩ := ih outlined sub sober (Nat.succ_pos a) behind
      have content := fun v hv => (bare v hv).1
      have comment : ∀ v, loneComment? [t, u] = some v →
          ¬opensStatement ((Rows.ofSource source).row v.start.row) := by
        intro v hv
        obtain ⟨w, eq, -, -⟩ := loneComment?_eq_some hv
        obtain ⟨rfl, -⟩ := List.cons.inj eq
        rwa [on.1]
      refine ⟨?_, List.forall_mem_cons.mpr ⟨isFramed_of_bare content comment, framed⟩⟩
      rw [Rows.drop_eq_cons filled, startWidths_of_none (ofTokens?_eq_none content), ← widths]
      simp [Pause.outline?, between]
  | @statement a e run line runs hl start le last rest ih =>
      obtain ⟨b, kept, statement, outlined⟩ := outlined.of_newline last hl
      obtain ⟨subrun, sub⟩ := List.forall_mem_cons.mp sub
      obtain ⟨soberrun, sober⟩ := List.forall_mem_cons.mp sober
      have other : ∃ t, run.getLast? = some t ∧ t.kind ≠ .rowBreak := by
        obtain ⟨t, ht, kind⟩ := last
        exact ⟨t, ht, by simp [kind]⟩
      have stop := rest.le_of_outlined outlined statement.passes (by omega) joined behind
      obtain ⟨rfl, framed⟩ := statement.isFramed read hl (fun _ ht _ => ht) subrun soberrun other
        start le pos stop
      obtain ⟨widths, all⟩ := ih outlined sub sober (Nat.succ_pos _) behind
      refine ⟨?_, List.forall_mem_cons.mpr ⟨framed, all⟩⟩
      obtain ⟨opens, other, passes⟩ := framed.line line hl
      subst start
      rw [passes.drop_eq, passes.outline?_append opens other, widths, startWidths_of_some hl]
      rfl
  | @last a run line hl start le last =>
      obtain ⟨subrun, -⟩ := List.forall_mem_cons.mp sub
      obtain ⟨soberrun, -⟩ := List.forall_mem_cons.mp sober
      obtain ⟨b, kept, body, statement, content⟩ | ⟨bare, -⟩ := outlined.of_endMarker last
      · have other : ∃ t, run.getLast? = some t ∧ t.kind ≠ .rowBreak := by
          obtain ⟨t, ht, kind⟩ := last
          exact ⟨t, ht, by simp [kind]⟩
        have stop := statement.passes.le_of_gaps (by omega) behind joined
        obtain ⟨rfl, framed⟩ := statement.isFramed read hl content subrun soberrun other start le
          pos stop
        refine ⟨?_, List.forall_mem_singleton.mpr framed⟩
        obtain ⟨opens, other, passes⟩ := framed.line line hl
        subst start
        rw [passes.drop_eq, passes.outline?_append opens other,
          Pause.outline?_of_gaps (Rows.isGap_of_mem_drop behind), startWidths_of_some hl]
        rfl
      · rw [ofTokens?_eq_none bare] at hl
        cases hl
  | @marks a run none last =>
      obtain ⟨b, kept, body, statement, -⟩ | ⟨bare, -⟩ := outlined.of_endMarker last
      · -- the statement would have its first row from behind the end
        have opens := statement.opens
        rw [opensStatement, List.dropWhile_eq_nil_iff.mpr (behind a (Nat.le_refl a))] at opens
        cases opens
      · refine ⟨?_, List.forall_mem_singleton.mpr ⟨?_, fun t lone => ?_⟩⟩
        · rw [Pause.outline?_of_gaps (Rows.isGap_of_mem_drop behind), startWidths_of_none none]
          rfl
        · intro l hl
          rw [none] at hl
          cases hl
        · obtain ⟨t, ht, kind⟩ := last
          rw [loneComment?_eq_none ⟨t, ht, by simp [kind]⟩] at lone
          cases lone

theorem mem_of_mem_ended {t : Token} (hr : run ∈ (Runs.of tokens).ended) (ht : t ∈ run) :
    t ∈ tokens := (Runs.infix_of_mem_ended hr).subset ht

/-- In an orderly source no backslash stands alone. -/
theorem IsOrderly.not_isLoneBackslash (read : tokenize source = .ok tokens)
    (orderly : IsOrderly (Rows.ofSource source) (Runs.of tokens).ended) :
    ∀ t ∈ tokens, ¬t.isLoneBackslash := by
  obtain ⟨_, -, closed, -⟩ := spans_of_tokenize read
  intro t ht lone
  obtain ⟨kind, text⟩ := Bool.and_eq_true_iff.mp lone
  rw [beq_iff_eq] at kind text
  have content : t.isContent := by simp [Token.isContent, kind, Token.Kind.isLayout]
  rw [← Runs.flatten_of tokens, closed, List.append_nil] at ht
  obtain ⟨run, hr, ht⟩ := List.mem_flatten.mp ht
  have sober := orderly.sober run hr t ht content
  simp only [Token.isSober, kind, text] at sober
  exact absurd sober (by decide)

/-- An orderly source is outlined by the first rows of its logical lines. -/
theorem IsOrderly.outline?_eq (read : tokenize source = .ok tokens)
    (orderly : IsOrderly (Rows.ofSource source) (Runs.of tokens).ended) :
    Pause.idle.outline? (Text.rows source) =
        some (startWidths (Rows.ofSource source) (Rows.ofSource source) (Runs.of tokens).ended) ∧
      ∀ run ∈ (Runs.of tokens).ended, IsFramed (Rows.ofSource source) run := by
  obtain ⟨e, layout⟩ := layout_of_tokenize read orderly.owned orderly.filled
  have joins := orderly.not_isLoneBackslash read
  refine layout.outline?_eq read orderly.joined (outlined_of_tokenize read joins)
    (fun run hr t ht => mem_of_mem_ended hr ht) orderly.sober Nat.one_pos fun n le => ?_
  refine (orderly.owned n).resolve_right fun owned => ?_
  obtain ⟨run, hr, own⟩ := owned
  obtain ⟨pos, eq⟩ := layout.ownRows_eq
  have mem : n ∈ (Runs.of tokens).ended.flatMap (ownRows (Rows.ofSource source)) :=
    List.mem_flatMap.mpr ⟨run, hr, own⟩
  rw [eq, List.mem_range'_1] at mem
  omega

end Framed

end StyleGuide
