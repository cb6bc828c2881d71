import StyleGuide.FixedText
import StyleGuide.Proofs.LogicalLine.Strands
import StyleGuide.Proofs.TokenStream.Blocks

/-! # Entries of a mended source

A mended source is put together from comment rows and statements. Each entry stands for rows of
the source: a comment row for itself, a statement for the rows from its first content to its last.
-/

namespace StyleGuide

/-- The numbers of the rows of a statement. -/
def LogicalLine.rowNumbers (l : LogicalLine) : List Nat :=
  List.range' l.firstRow (l.lastRow + 1 - l.firstRow)

/-- The comment of a run that is a comment row. -/
def loneComment? : List Token → Option Token
  | [t, u] => if t.kind = .comment ∧ u.kind = .rowBreak then some t else none
  | _ => none

/-- The rows of the source that a run brings to the mended source. -/
def keptRows (rows : Rows) (run : List Token) : List Nat :=
  match loneComment? run, LogicalLine.ofTokens? rows run with
  | some t, _ => [t.start.row]
  | none, some line => line.rowNumbers
  | none, none => []

/-- A part of a mended source, behind a number of blank lines. -/
inductive Entry where
  | comment (row blankLines : Nat)
  /-- A statement that the rules have given the logical line `text`. -/
  | statement (line : LogicalLine) (text : Text) (blankLines : Nat)

namespace Entry

/-- The rows of the source that an entry stands for. -/
def rows : Entry → List Nat
  | comment row _ => [row]
  | statement line _ _ => line.rowNumbers

/-- The logical line of a statement. -/
def line? : Entry → Option LogicalLine
  | comment _ _ => none
  | statement line _ _ => some line

/-- The entry as it is written, where `mended` are the rows with all changes. -/
def written (mended : Array Text) : Entry → Text
  | comment row n => (Comment.mk n (Text.trimEnd (mended[row - 1]?.getD []))).written
  | statement line text n => line.written text n mended

end Entry

section Kept

variable {rows : Rows} {run : List Token} {line : LogicalLine} {t u : Token} {a b n : Nat}

theorem loneComment?_eq_some (h : loneComment? run = some t) :
    ∃ u, run = [t, u] ∧ t.kind = .comment ∧ u.kind = .rowBreak := by
  unfold loneComment? at h
  split at h
  · split at h
    · next kinds =>
        obtain rfl := Option.some.inj h
        exact ⟨_, rfl, kinds⟩
    · cases h
  · cases h

theorem keptRows_of_comment (kind : t.kind = .comment) (ends : u.kind = .rowBreak) :
    keptRows rows [t, u] = [t.start.row] := by
  simp [keptRows, loneComment?, kind, ends]

/-- The end of a statement is not the end of a row between statements. -/
theorem loneComment?_eq_none (last : ∃ t, run.getLast? = some t ∧ t.kind ≠ .rowBreak) :
    loneComment? run = none := by
  cases h : loneComment? run with
  | none => rfl
  | some t =>
      obtain ⟨u, rfl, -, ends⟩ := loneComment?_eq_some h
      obtain ⟨v, hv, other⟩ := last
      obtain rfl : u = v := Option.some.inj hv
      exact absurd ends other

theorem ofTokens?_eq_none (h : ∀ t ∈ run, t.isContent = false) :
    LogicalLine.ofTokens? rows run = none := by
  have none : run.filter Token.isContent = [] :=
    List.filter_eq_nil_iff.mpr fun t ht => by simp [h t ht]
  simp only [LogicalLine.ofTokens?, none]

theorem keptRows_of_statement (hl : LogicalLine.ofTokens? rows run = some line) :
    keptRows rows run = line.rowNumbers := by
  cases h : loneComment? run with
  | none => rw [keptRows, h, hl]
  | some t =>
      obtain ⟨u, rfl, kind, ends⟩ := loneComment?_eq_some h
      rw [ofTokens?_eq_none (by simp [Token.isContent, kind, ends, Token.Kind.isLayout])] at hl
      cases hl

namespace LogicalLine

private theorem foldl_max_mem (m : Nat) (ks : List Nat) :
    ks.foldl max m = m ∨ ks.foldl max m ∈ ks := by
  induction ks generalizing m with
  | nil => exact .inl rfl
  | cons k ks ih =>
      rw [List.foldl_cons]
      rcases ih (max m k) with h | h
      · rw [h, List.mem_cons]
        omega
      · exact .inr (List.mem_cons_of_mem _ h)

theorem exists_lastRow (h : ofTokens? rows run = some line) :
    line.lastRow = 0 ∨ ∃ t ∈ run, t.isContent ∧ t.stop.row = line.lastRow := by
  obtain ⟨first, rest, content, of⟩ := exists_of_ofTokens? h
  rcases foldl_max_mem 0 ((first :: rest).map fun t => t.stop.row) with h | h
  · exact .inl (of.lastRow.trans h)
  · rw [← of.lastRow, ← content] at h
    obtain ⟨t, ht, eq⟩ := List.mem_map.mp h
    obtain ⟨ht, content⟩ := List.mem_filter.mp ht
    exact .inr ⟨t, ht, content, eq⟩

theorem exists_firstRow (h : ofTokens? rows run = some line) :
    ∃ t ∈ run, t.isContent ∧ t.start.row = line.firstRow ∧ t.stop.row ≤ line.lastRow := by
  obtain ⟨first, rest, content, of⟩ := exists_of_ofTokens? h
  obtain ⟨ht, hc⟩ := List.mem_filter.mp (content ▸ List.mem_cons_self ..)
  refine ⟨first, ht, hc, of.firstRow.symm, ?_⟩
  rw [of.lastRow]
  exact le_foldl_max 0 (.inr (by simp))

theorem mem_rowNumbers : n ∈ line.rowNumbers ↔ line.firstRow ≤ n ∧ n ≤ line.lastRow := by
  rw [rowNumbers, List.mem_range'_1]
  omega

/-- The rows of a statement put together. -/
theorem flatten_extract (rows : Rows) (pos : 0 < line.firstRow) :
    (rows.extract (line.firstRow - 1) line.lastRow).toList.flatten =
      line.rowNumbers.flatMap rows.row := by
  obtain ⟨n, hn⟩ : ∃ n, line.firstRow = n + 1 := ⟨line.firstRow - 1, by omega⟩
  have size : line.lastRow + 1 - line.firstRow = line.lastRow - (line.firstRow - 1) := by omega
  rw [rowNumbers, size, hn, Rows.flatMap_row, Array.toList_extract, List.extract_eq_take_drop]
  rfl

/-- Only the rows up to the last one of the statement matter. -/
theorem written_congr {text : Text} {mended mended' : Array Text}
    (same : mended.toList.take line.lastRow = mended'.toList.take line.lastRow)
    (pos : 0 < line.firstRow) (le : line.firstRow ≤ line.lastRow) :
    line.written text n mended = line.written text n mended' := by
  have kept : (mended.extract (line.firstRow - 1) line.lastRow).toList =
      (mended'.extract (line.firstRow - 1) line.lastRow).toList := by
    rw [Array.toList_extract, Array.toList_extract, List.extract_eq_take_drop,
      List.extract_eq_take_drop, ← List.drop_take, ← List.drop_take, same]
  have first : mended[line.firstRow - 1]? = mended'[line.firstRow - 1]? := by
    rw [← Array.getElem?_toList, ← Array.getElem?_toList,
      ← List.getElem?_take_of_lt (show line.firstRow - 1 < line.lastRow by omega), same,
      List.getElem?_take_of_lt (by omega)]
  simp only [written, kept, first]

end LogicalLine

/-- A run keeps rows of its own. -/
theorem IsBlock.mem_keptRows (block : IsBlock rows a run b) (h : n ∈ keptRows rows run) :
    a ≤ n ∧ n < b := by
  have within (t : Token) (ht : t ∈ run) (hc : t.isContent) : t.IsWithin a b :=
    block.isWithin t ht (Token.isSolid_of_isContent hc)
  unfold keptRows at h
  split at h
  · next t lone =>
      obtain ⟨u, rfl, kind, -⟩ := loneComment?_eq_some lone
      obtain rfl := List.mem_singleton.mp h
      have := block.isWithin t (List.mem_cons_self ..) 
        (Token.isSolid_of_comment kind)
      exact ⟨this.1, Nat.lt_of_le_of_lt this.2.1 this.2.2⟩
  · next line _ hl =>
      obtain ⟨first, hf, cf, eq, -⟩ := LogicalLine.exists_firstRow hl
      obtain ⟨low, high⟩ := LogicalLine.mem_rowNumbers.mp h
      have start := (within first hf cf).1
      rcases LogicalLine.exists_lastRow hl with zero | ⟨last, hm, cm, eq'⟩
      · have := block.le
        have := (within first hf cf).2
        omega
      · have stop := (within last hm cm).2.2
        omega
  · cases h

theorem pairwise_keptRows (run : List Token) : (keptRows rows run).Pairwise (· < ·) := by
  unfold keptRows
  split
  · exact List.pairwise_singleton ..
  · exact List.pairwise_lt_range'
  · exact .nil

/-- The runs of a source keep its rows in order, and none twice. -/
theorem Spans.pairwise_keptRows {runs : List (List Token)} (h : Spans rows a runs b) :
    (runs.flatMap (keptRows rows)).Pairwise (· < ·) ∧
      ∀ n ∈ runs.flatMap (keptRows rows), a ≤ n := by
  induction h with
  | nil => simp
  | cons block rest ih =>
      obtain ⟨sorted, above⟩ := ih
      rw [List.flatMap_cons]
      refine ⟨List.pairwise_append.mpr ⟨StyleGuide.pairwise_keptRows _, sorted, ?_⟩, ?_⟩
      · intro n hn m hm
        exact Nat.lt_of_lt_of_le (block.mem_keptRows hn).2 (above m hm)
      · intro n hn
        rcases List.mem_append.mp hn with hn | hn
        · exact (block.mem_keptRows hn).1
        · exact Nat.le_trans block.le (above n hn)

/-- A row that one run keeps is a row of no other run. -/
theorem Spans.eq_of_mem_keptRows {runs : List (List Token)} {run' : List Token}
    (h : Spans rows a runs b) (hr : run ∈ runs) (hr' : run' ∈ runs)
    (kept : n ∈ keptRows rows run) (ht : t ∈ run') (solid : t.isSolid) (low : t.start.row ≤ n)
    (high : n ≤ t.stop.row) : run = run' := by
  obtain ⟨i', j', block', -, apart⟩ := h.exists_apart hr'
  rcases apart run hr with eq | ⟨i, j, block, apart⟩
  · exact eq
  · have := block.mem_keptRows kept
    obtain ⟨below, -, above⟩ := block'.isWithin t ht solid
    omega

end Kept

end StyleGuide
