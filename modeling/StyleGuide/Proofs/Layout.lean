import StyleGuide.Proofs.Ledger
import StyleGuide.Proofs.LogicalLine.OwnRow
import StyleGuide.Proofs.TokenStream.Cover

/-! # The layout of a source

In a source with a regular layout each row, as a whole, is a blank row, a comment row or a row of a
statement. Its runs then take its rows one after the other.
-/

namespace StyleGuide

/-- The row of a run that is the end of a row between statements and nothing else. -/
def blankRow? : List Token → Option Nat
  | [t] => if t.kind = .rowBreak then some t.start.row else none
  | _ => none

/-- The rows of the source that a run takes as a whole. -/
def ownRows (rows : Rows) (run : List Token) : List Nat :=
  match blankRow? run with
  | some n => if Text.isAllBlank (rows.row n) then [n] else []
  | none => keptRows rows run

/-- A row that is not blank is kept by the run that takes it. -/
theorem mem_keptRows_of_ownRows {rows : Rows} {run : List Token} {n : Nat}
    (own : n ∈ ownRows rows run) (nonblank : ¬Text.isAllBlank (rows.row n)) :
    n ∈ keptRows rows run := by
  rw [ownRows] at own
  split at own
  · split at own
    · next blank =>
        rw [List.mem_singleton.mp own] at nonblank
        exact absurd blank nonblank
    · cases own
  · exact own

/-- The runs of a source leave nothing between them. What this keeps out is a row on which a joining
    backslash stands alone or behind all content of a statement, content behind a carriage return,
    white space that is no gap around a statement, and a comment row inside a statement directly
    behind blank rows. -/
structure IsRegular (rows : Rows) (runs : List (List Token)) : Prop where
  /-- Each row belongs to a run; a gap may stand behind the last row. -/
  owned : ∀ n, (∀ c ∈ rows.row n, Lexeme.isGap c) ∨ ∃ run ∈ runs, n ∈ ownRows rows run
  /-- A newline ends a statement that has content. -/
  filled : ∀ run ∈ runs, ∀ t ∈ run.getLast?, t.kind = .newline → ∃ u ∈ run, u.isContent
  single : ∀ run ∈ runs, ∀ line ∈ LogicalLine.ofTokens? rows run,
    line.isSingleRow → FillsRow rows run line.firstRow
  apart : ∀ run ∈ runs, loneComment? run = none → (∃ t ∈ run, t.beginsRow) →
    ∀ n ∈ (ownRows rows run).head?, n ≤ 1 ∨ ¬Text.isAllBlank (rows.row (n - 1))

/-- Rows that do not exist are empty, so only the others count. -/
instance (rows : Rows) (runs : List (List Token)) : Decidable (IsRegular rows runs) :=
  decidable_of_iff
    ((∀ n < rows.size + 1, (rows.row n).all Lexeme.isGap ∨ ∃ run ∈ runs, n ∈ ownRows rows run) ∧
      (∀ run ∈ runs, ∀ t ∈ run.getLast?, t.kind = .newline → ∃ u ∈ run, u.isContent) ∧
      (∀ run ∈ runs, ∀ line ∈ LogicalLine.ofTokens? rows run,
        line.isSingleRow → FillsRow rows run line.firstRow) ∧
      ∀ run ∈ runs, loneComment? run = none → (∃ t ∈ run, t.beginsRow) →
        ∀ n ∈ (ownRows rows run).head?, n ≤ 1 ∨ ¬Text.isAllBlank (rows.row (n - 1)))
    ⟨fun ⟨owned, filled, single, apart⟩ => by
      refine ⟨fun n => ?_, filled, single, apart⟩
      by_cases lt : n < rows.size + 1
      · rw [← List.all_eq_true]
        exact owned n lt
      · rw [Rows.row_of_size_lt (by omega)]
        exact .inl nofun,
    fun ⟨owned, filled, single, apart⟩ =>
      ⟨fun n _ => (owned n).imp_left List.all_eq_true.mpr, filled, single, apart⟩⟩

/-- The runs take the rows from one number on to another, each of them as a whole. -/
inductive Layout (rows : Rows) : Nat → List (List Token) → Nat → Prop where
  | nil {a : Nat} : Layout rows a [] a
  | blank {a b : Nat} {t : Token} {runs : List (List Token)} (kind : t.kind = .rowBreak)
      (row : t.start.row = a) (blank : Text.isAllBlank (rows.row a))
      (rest : Layout rows (a + 1) runs b) : Layout rows a ([t] :: runs) b
  | comment {a b : Nat} {t u : Token} {runs : List (List Token)} (kind : t.kind = .comment)
      (ends : u.kind = .rowBreak) (on : t.IsOn a) (first : t.beginsRow)
      (rest : Layout rows (a + 1) runs b) : Layout rows a ([t, u] :: runs) b
  | statement {a b : Nat} {run : List Token} {line : LogicalLine} {runs : List (List Token)}
      (hl : LogicalLine.ofTokens? rows run = some line) (start : line.firstRow = a)
      (le : a ≤ line.lastRow) (last : ∃ t, run.getLast? = some t ∧ t.kind = .newline)
      (rest : Layout rows (line.lastRow + 1) runs b) : Layout rows a (run :: runs) b
  /-- A statement that ends with the source. -/
  | last {a : Nat} {run : List Token} {line : LogicalLine}
      (hl : LogicalLine.ofTokens? rows run = some line) (start : line.firstRow = a)
      (le : a ≤ line.lastRow) (last : ∃ t, run.getLast? = some t ∧ t.kind = .endMarker) :
      Layout rows a [run] (line.lastRow + 1)
  /-- The marks at the end of the source. -/
  | marks {a : Nat} {run : List Token} (none : LogicalLine.ofTokens? rows run = none)
      (last : ∃ t, run.getLast? = some t ∧ t.kind = .endMarker) : Layout rows a [run] a

section Own

variable {rows : Rows} {run : List Token} {t u : Token} {a b n : Nat} {line : LogicalLine}

theorem blankRow?_eq_none (last : ∃ t, run.getLast? = some t ∧ t.kind ≠ .rowBreak) :
    blankRow? run = none := by
  unfold blankRow?
  split
  · next t =>
      obtain ⟨u, hu, kind⟩ := last
      obtain rfl : t = u := Option.some.inj hu
      rw [if_neg kind]
  · rfl

theorem ownRows_of_blank (kind : t.kind = .rowBreak)
    (blank : Text.isAllBlank (rows.row t.start.row)) : ownRows rows [t] = [t.start.row] := by
  simp [ownRows, blankRow?, kind, blank]

theorem ownRows_of_comment (kind : t.kind = .comment) (ends : u.kind = .rowBreak) :
    ownRows rows [t, u] = [t.start.row] := keptRows_of_comment kind ends

theorem ownRows_of_ends (last : ∃ t, run.getLast? = some t ∧ t.kind ≠ .rowBreak) :
    ownRows rows run = keptRows rows run := by
  rw [ownRows, blankRow?_eq_none last]

/-- The rows that a run takes are among its rows. -/
theorem IsBlock.mem_ownRows (block : IsBlock rows a run b) (h : n ∈ ownRows rows run) :
    a ≤ n ∧ n < b := by
  cases block with
  | blank kind on =>
      have : n = a := by
        simp only [ownRows, blankRow?, kind, if_true, on.1] at h
        split at h
        · exact List.mem_singleton.mp h
        · cases h
      omega
  | comment kind ends on first => exact (IsBlock.comment kind ends on first).mem_keptRows h
  | statement le placed last first =>
      have other : ∃ t, run.getLast? = some t ∧ t.kind ≠ .rowBreak := by
        obtain ⟨t, ht, kind⟩ := last
        exact ⟨t, ht, by rcases kind with kind | kind <;> simp [kind]⟩
      rw [ownRows_of_ends other] at h
      exact (IsBlock.statement le placed last first).mem_keptRows h

theorem Spans.le_of_mem_ownRows {runs : List (List Token)} (h : Spans rows a runs b)
    (hr : run ∈ runs) (own : n ∈ ownRows rows run) : a ≤ n := by
  obtain ⟨i, j, block, le⟩ := h.exists_block hr
  exact Nat.le_trans le (block.mem_ownRows own).1

end Own

section Laid

variable {rows : Rows} {p q : Position} {a b : Nat} {runs : List (List Token)}

/-- A statement begins on a row behind everything in front of it. -/
theorem Spans.exists_laid (spans : Spans rows a runs b)
    (laid : Laid rows p (runs.flatten.filter Token.isSolid) q) (above : p.row < a) :
    ∀ run ∈ runs, ∀ line, LogicalLine.ofTokens? rows run = some line →
      ∃ p q, Laid rows p (run.filter Token.isSolid) q ∧ p.row < line.firstRow := by
  intro run hr line hl
  obtain ⟨p, q, laid, above⟩ := spans.exists_laid_run laid above run hr
  obtain ⟨t, ht, content, row, -⟩ := LogicalLine.exists_firstRow hl
  exact ⟨p, q, laid, row ▸ above t ht (Token.isSolid_of_isContent content)⟩

end Laid

section Source

variable {source : Text} {tokens run : List Token} {runs : List (List Token)} {t : Token}
  {a b n : Nat}

/-- A newline ends each row but the last. -/
theorem AreRows.newline_mem {lines : List Text} (h : AreRows lines) {i : Nat}
    (lt : i + 1 < lines.length) : '\n' ∈ lines[i]?.getD [] := by
  induction h generalizing i with
  | nil => cases lt
  | last => simp at lt
  | cons _ _ ih =>
      cases i with
      | zero => simp
      | succ i => exact ih (by simpa using lt)

/-- A row that is only a gap is the last one. -/
theorem size_le_of_gap (pos : 0 < n) (gap : ∀ c ∈ (Rows.ofSource source).row n, Lexeme.isGap c) :
    (Rows.ofSource source).size ≤ n := by
  by_contra inner
  obtain ⟨i, rfl⟩ : ∃ i, n = i + 1 := ⟨n - 1, by omega⟩
  have newline := (Text.areRows_rows source).newline_mem (i := i) (by
    simpa [Rows.ofSource] using inner)
  rw [← Text.row_ofSource] at newline
  exact absurd (gap _ newline) (by decide)

/-- A token with a place of its own, or the end of a row, is on a row of the source. -/
theorem row_le_size (read : tokenize source = .ok tokens) (ht : t ∈ tokens)
    (place : t.isSolid ∨ t.kind = .rowBreak) : t.start.row ≤ (Rows.ofSource source).size := by
  rcases isMark_or_isCut_of_tokenize read ht with ⟨-, kind⟩ | cut
  · rcases place with solid | kind'
    · rcases kind with kind | kind | kind <;> simp [Token.isSolid, kind, Token.Kind.isLayout] at solid
    · rw [kind'] at kind
      simp at kind
  · simpa [Rows.ofSource] using cut.start.2.1

/-- Runs that leave no row out take the rows as a whole. The rows from `a` on in front of the first
    run are no more than a gap at the end of the source. -/
theorem layout_of_spans {e : Nat} (read : tokenize source = .ok tokens)
    (spans : Spans (Rows.ofSource source) b runs e) (sub : runs ⊆ (Runs.of tokens).ended)
    (final : ∀ pre run rest, runs = pre ++ run :: rest →
      ∀ t ∈ run, t.kind = .endMarker → rest = [])
    (filled : ∀ run ∈ runs, ∀ t ∈ run.getLast?, t.kind = .newline → ∃ u ∈ run, u.isContent)
    (pos : 0 < a) (le : a ≤ b)
    (gaps : ∀ n, a ≤ n → n < b → ∀ c ∈ (Rows.ofSource source).row n, Lexeme.isGap c)
    (owned : ∀ n, b ≤ n → (∀ c ∈ (Rows.ofSource source).row n, Lexeme.isGap c) ∨
      ∃ run ∈ runs, n ∈ ownRows (Rows.ofSource source) run) :
    ∃ e', Layout (Rows.ofSource source) a runs e' := by
  induction spans generalizing a with
  | nil => exact ⟨a, .nil⟩
  | @cons b c e run runs block rest ih =>
      have mem := sub (List.mem_cons_self ..)
      have later (n : Nat) (h : c ≤ n) := (owned n (Nat.le_trans block.le h)).imp_right
        fun ⟨run', hr', own⟩ => (List.mem_cons.mp hr').elim
          (fun same => absurd (block.mem_ownRows (same ▸ own)).2 (by omega))
          fun hr' => (⟨run', hr', own⟩ : ∃ run ∈ runs, n ∈ ownRows (Rows.ofSource source) run)
      have here (n : Nat) (low : b ≤ n) (high : n < c) :
          (∀ c ∈ (Rows.ofSource source).row n, Lexeme.isGap c) ∨
            n ∈ ownRows (Rows.ofSource source) run := by
        refine (owned n low).imp_right fun ⟨run', hr', own⟩ => ?_
        rcases List.mem_cons.mp hr' with rfl | hr'
        · exact own
        · have := rest.le_of_mem_ownRows hr' own
          omega
      have next {a : Nat} (pos : 0 < a) (le : a ≤ c)
          (gaps : ∀ n, a ≤ n → n < c → ∀ c ∈ (Rows.ofSource source).row n, Lexeme.isGap c) :=
        ih (fun run hr => sub (List.mem_cons_of_mem _ hr))
          (fun pre run' rest split => final (run :: pre) run' rest (by rw [split]; rfl))
          (fun run hr => filled run (List.mem_cons_of_mem _ hr)) pos le gaps later
      -- A run with a token on a row of the source begins where the one before has ended.
      have level {t : Token} (ht : t ∈ run) (place : t.isSolid ∨ t.kind = .rowBreak)
          (low : b ≤ t.start.row) : a = b := by
        have high := row_le_size read ((Runs.infix_of_mem_ended mem).subset ht) place
        by_contra other
        have := size_le_of_gap (by omega) (gaps (b - 1) (by omega) (by omega))
        omega
      have blank_of_gap {n : Nat} (h : ∀ c ∈ (Rows.ofSource source).row n, Lexeme.isGap c) :
          Text.isAllBlank ((Rows.ofSource source).row n) :=
        List.all_eq_true.mpr fun c hc => Lexeme.isBlank_of_isGap (h c hc)
      cases block with
      | @blank t kind on =>
          obtain rfl := level (List.mem_singleton_self t) (.inr kind) (Nat.le_of_eq on.1.symm)
          obtain ⟨e', layout⟩ := next (Nat.succ_pos a) (Nat.le_refl _) fun n _ _ => by omega
          refine ⟨e', .blank kind on.1 ?_ layout⟩
          rcases here a (Nat.le_refl _) (Nat.lt_succ_self _) with gap | own
          · exact blank_of_gap gap
          · by_contra other
            simp [ownRows, blankRow?, kind, on.1, other] at own
      | @comment t u kind ends on first =>
          obtain rfl := level (List.mem_cons_self ..) (.inl (Token.isSolid_of_comment kind))
            (Nat.le_of_eq on.1.symm)
          obtain ⟨e', layout⟩ := next (Nat.succ_pos a) (Nat.le_refl _) fun n _ _ => by omega
          exact ⟨e', .comment kind ends on first layout⟩
      | statement le' placed last first =>
          have own : ownRows (Rows.ofSource source) run = keptRows (Rows.ofSource source) run := by
            obtain ⟨t, ht, kind⟩ := last
            exact ownRows_of_ends ⟨t, ht, by rcases kind with kind | kind <;> simp [kind]⟩
          cases hl : LogicalLine.ofTokens? (Rows.ofSource source) run with
          | none =>
              obtain ⟨t, ht, kind⟩ := last
              have mark : t.kind = .endMarker := by
                refine kind.resolve_left fun newline => ?_
                obtain ⟨u, hu, content⟩ := filled run (List.mem_cons_self ..) t ht newline
                have some := List.mem_filter.mpr ⟨hu, content⟩
                simp only [LogicalLine.ofTokens?] at hl
                split at hl
                · next none => simp [none] at some
                · cases hl
              obtain rfl := final [] run runs rfl t (List.mem_of_getLast? ht) mark
              exact ⟨a, .marks hl ⟨t, ht, mark⟩⟩
          | some line =>
              have kept : keptRows (Rows.ofSource source) run = line.rowNumbers :=
                keptRows_of_statement hl
              obtain ⟨first, hf, content, row, through⟩ := LogicalLine.exists_firstRow hl
              have solid := Token.isSolid_of_isContent content
              have within := placed first hf solid
              have := within.1
              have := within.2
              obtain rfl := level hf (.inl solid) within.1
              have start : line.firstRow = a := by
                rcases here a (Nat.le_refl _) (by omega) with gap | mem
                · have := size_le_of_gap pos gap
                  have := row_le_size read ((Runs.infix_of_mem_ended mem).subset hf) (.inl solid)
                  omega
                · rw [own, kept, LogicalLine.mem_rowNumbers] at mem
                  omega
              have stop : line.lastRow < c := by
                rcases LogicalLine.exists_lastRow hl with zero | ⟨last, hm, cm, eq⟩
                · omega
                · have := (placed last hm (Token.isSolid_of_isContent cm)).2.2
                  omega
              obtain ⟨t, ht, newline | mark⟩ := last
              · obtain ⟨e', layout⟩ := next (Nat.succ_pos line.lastRow) stop fun n low high => by
                  refine (here n (by omega) high).resolve_right fun mem => ?_
                  rw [own, kept, LogicalLine.mem_rowNumbers] at mem
                  omega
                exact ⟨e', .statement hl start (by omega) ⟨t, ht, newline⟩ layout⟩
              · obtain rfl := final [] run runs rfl t (List.mem_of_getLast? ht) mark
                exact ⟨_, .last hl start (by omega) ⟨t, ht, mark⟩⟩

/-- In a source whose rows all belong to a run the runs take all rows but a gap at the end. -/
theorem layout_of_tokenize (read : tokenize source = .ok tokens)
    (owned : ∀ n, (∀ c ∈ (Rows.ofSource source).row n, Lexeme.isGap c) ∨
      ∃ run ∈ (Runs.of tokens).ended, n ∈ ownRows (Rows.ofSource source) run)
    (filled : ∀ run ∈ (Runs.of tokens).ended, ∀ t ∈ run.getLast?, t.kind = .newline →
      ∃ u ∈ run, u.isContent) :
    ∃ e, Layout (Rows.ofSource source) 1 (Runs.of tokens).ended e := by
  obtain ⟨_, spans, closed, -⟩ := spans_of_tokenize read
  have splits := Runs.splits_of tokens closed
  have whole := Runs.flatten_of tokens
  rw [closed, List.append_nil] at whole
  refine layout_of_spans read spans (List.Subset.refl _) ?_ filled Nat.one_pos
    (Nat.le_refl _) (fun n _ _ => by omega) fun n _ => owned n
  intro pre run rest split t ht mark
  obtain ⟨init, last, tokens_eq, none⟩ := exists_of_endMarker read
  rw [split] at whole splits
  cases rest with
  | nil => rfl
  | cons next rest =>
      have ne : (next :: rest).flatten ≠ [] := by
        have := splits.ne_nil next (by simp)
        simp [this]
      rw [List.flatten_append, List.flatten_cons, ← List.dropLast_append_getLast ne, tokens_eq,
        ← List.append_assoc, ← List.append_assoc] at whole
      have parts := List.append_inj_left' whole rfl
      exact absurd mark (none t (by rw [← parts]; simp [ht]))

/-- The rows that the runs take, one after the other. -/
theorem Layout.ownRows_eq {rows : Rows} (h : Layout rows a runs b) :
    a ≤ b ∧ runs.flatMap (ownRows rows) = List.range' a (b - a) := by
  have lines {run : List Token} {line : LogicalLine}
      (hl : LogicalLine.ofTokens? rows run = some line)
      (last : ∃ t, run.getLast? = some t ∧ t.kind ≠ .rowBreak) :
      ownRows rows run = List.range' line.firstRow (line.lastRow + 1 - line.firstRow) := by
    rw [ownRows_of_ends last, keptRows_of_statement hl]
    rfl
  have one (a : Nat) : [a] = List.range' a (a + 1 - a) := by
    rw [Nat.add_sub_cancel_left]
    rfl
  have join {a b c : Nat} {run : List Token} {runs : List (List Token)}
      (own : ownRows rows run = List.range' a (c - a)) (le : a ≤ c)
      (ih : c ≤ b ∧ runs.flatMap (ownRows rows) = List.range' c (b - c)) :
      a ≤ b ∧ (run :: runs).flatMap (ownRows rows) = List.range' a (b - a) := by
    refine ⟨Nat.le_trans le ih.1, ?_⟩
    rw [List.flatMap_cons, own, ih.2]
    conv_lhs => rw [← Nat.add_sub_cancel' le, Nat.add_sub_cancel_left]
    rw [List.range'_append_1]
    congr 1
    omega
  induction h with
  | nil => simp
  | @blank a b t runs kind row blank rest ih =>
      refine join (c := a + 1) ?_ (Nat.le_succ a) ih
      rw [ownRows_of_blank kind (row ▸ blank), row, one]
  | @comment a b t u runs kind ends on first rest ih =>
      refine join (c := a + 1) ?_ (Nat.le_succ a) ih
      rw [ownRows_of_comment kind ends, on.1, one]
  | @statement a b run line runs hl start le last rest ih =>
      subst start
      obtain ⟨t, ht, newline⟩ := last
      exact join (lines hl ⟨t, ht, by simp [newline]⟩) (by omega) ih
  | @last a run line hl start le last =>
      subst start
      obtain ⟨t, ht, mark⟩ := last
      refine ⟨by omega, ?_⟩
      rw [List.flatMap_singleton, lines hl ⟨t, ht, by simp [mark]⟩]
  | @marks a run none last =>
      obtain ⟨t, ht, mark⟩ := last
      have other : t.kind ≠ .rowBreak := by simp [mark]
      refine ⟨Nat.le_refl a, ?_⟩
      rw [List.flatMap_singleton, ownRows_of_ends ⟨t, ht, other⟩, keptRows,
        loneComment?_eq_none ⟨t, ht, other⟩, none]
      simp

end Source

end StyleGuide
