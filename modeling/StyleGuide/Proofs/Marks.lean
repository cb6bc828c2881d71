import StyleGuide.Proofs.Masks

/-! # The marks of a logical line

A logical line has a mark for each of its content tokens. From one mark to the next the offset grows
by what is shown of the token and the gap behind it. On one row this is what the source has there,
so both offset and column grow alike; otherwise the row grows. An offset is resolved with the last
mark at or before it, and along the marks the places it is resolved to stand in order.
-/

namespace StyleGuide

/-- One mark stands in front of another, in the logical line as well as in the source. On one row
    the two are equally far apart in both. -/
structure Mark.Precedes (a b : Mark) : Prop where
  offset : a.offset < b.offset
  row : a.position.row ≤ b.position.row
  column : a.position.row = b.position.row →
    b.position.column = a.position.column + (b.offset - a.offset)

namespace Mark.Precedes

variable {a b c : Mark}

theorem trans (h : a.Precedes b) (h' : b.Precedes c) : a.Precedes c := by
  refine ⟨Nat.lt_trans h.offset h'.offset, Nat.le_trans h.row h'.row, fun same => ?_⟩
  have row := h.row
  have row' := h'.row
  have first := h.column (by omega)
  have second := h'.column (by omega)
  have := h.offset
  have := h'.offset
  omega

instance : Trans Mark.Precedes Mark.Precedes Mark.Precedes := ⟨trans⟩

theorem position_lt (h : a.Precedes b) : a.position < b.position := by
  rcases Nat.lt_or_eq_of_le h.row with below | same
  · exact .inl below
  · refine .inr ⟨same, ?_⟩
    have := h.column same
    have := h.offset
    omega

end Mark.Precedes

/-- No mark at or before an offset stands behind one that is not. -/
theorem Mark.takeWhile_eq_filter {marks : List Mark} (h : marks.Pairwise Mark.Precedes) (n : Nat) :
    marks.takeWhile (·.offset ≤ n) = marks.filter (·.offset ≤ n) := by
  induction h with
  | nil => rfl
  | @cons m rest behind _ ih =>
      by_cases le : m.offset ≤ n
      · simp only [List.takeWhile_cons, List.filter_cons, le, decide_true, if_true, ih]
      · have none : rest.filter (·.offset ≤ n) = [] := by
          refine List.filter_eq_nil_iff.mpr fun k hk => ?_
          have := (behind k hk).offset
          simp only [decide_eq_true_eq]
          omega
        simp only [List.takeWhile_cons, List.filter_cons, le, decide_false, none]
        rfl

namespace LogicalLine

variable {rows : Rows} {source : Text} {tokens run ts : List Token} {t u : Token} {l : LogicalLine}
  {p : Position}

/-- The mark of a token precedes that of its neighbour. -/
theorem precedes_next (set : t.IsSet rows) (before : rows.Before t.stop u.start)
    (shown : Text.byteLength t.shown = Text.byteLength t.text) (o : Nat) :
    Mark.Precedes ⟨o, t.start⟩
      ⟨o + Text.byteLength t.shown + Text.byteLength (gap rows t u), u.start⟩ := by
  have long := mt Text.byteLength_eq_zero.mp set.ne_nil
  refine ⟨?_, Nat.le_trans set.row_le before.row_le, fun same => ?_⟩
  · dsimp only
    omega
  · cases set with
    | acrossRows _ _ above =>
        have := before.row_le
        dsimp only at same
        omega
    | onRow start stop row _ =>
        cases before with
        | below above =>
            dsimp only at same
            omega
        | behind hp hq row' =>
            obtain rfl := hp.unique stop
            rw [gap, if_pos row', hp.slice_eq hq row']
            have first := start.2
            have second := hq.2
            simp only [Text.byteLength_append] at second
            dsimp only
            omega

/-- The marks of tokens in order precede one another. -/
theorem isChain_marksFrom (ordered : Ordered rows t.stop ts) (set : t.IsSet rows)
    (shown : ∀ u ∈ t :: ts, Text.byteLength u.shown = Text.byteLength u.text) (o : Nat) :
    (⟨o, t.start⟩ :: marksFrom (o + Text.byteLength t.shown) (pieces.go rows t ts)).IsChain
      Mark.Precedes := by
  induction ts generalizing t o with
  | nil => exact .singleton _
  | cons u ts ih =>
      cases ordered with
      | cons before set' rest =>
          have next := precedes_next set before (shown t (List.mem_cons_self ..)) o
          exact .cons_cons next (ih rest set' (fun v hv => shown v (List.mem_cons_of_mem _ hv)) _)

theorem map_position_marksFrom (ts : List Token) (t : Token) (o : Nat) :
    (marksFrom o (pieces.go rows t ts)).map Mark.position = ts.map Token.start := by
  induction ts generalizing t o with
  | nil => rfl
  | cons u ts ih => exact congrArg (u.start :: ·) (ih u _)

/-- Each content token has its mark, in order. -/
theorem map_position_marks (hl : ofTokens? rows run = some l) :
    l.marks.map Mark.position = (run.filter Token.isContent).map Token.start := by
  obtain ⟨first, rest, content, -⟩ := exists_of_ofTokens? hl
  rw [marks_of_ofTokens? hl content, content]
  exact congrArg (first.start :: ·) (map_position_marksFrom rest first _)

theorem pairwise_marks (read : tokenize source = .ok tokens) (sub : run <:+: tokens)
    (hl : ofTokens? (Rows.ofSource source) run = some l) : l.marks.Pairwise Mark.Precedes := by
  obtain ⟨first, rest, content, -⟩ := exists_of_ofTokens? hl
  obtain ⟨p, ordered⟩ := exists_ordered read sub
  rw [content] at ordered
  rw [marks_of_ofTokens? hl content]
  cases ordered with
  | cons _ set ordered =>
      refine (isChain_marksFrom ordered set (fun u hu => ?_) 0).pairwise
      rw [← content] at hu
      exact byteLength_shown_of_tokenize read (sub.subset (List.mem_filter.mp hu).1)

/-- The first mark is at the start of the text. -/
theorem exists_first_mark (hl : ofTokens? rows run = some l) :
    ∃ m rest, l.marks = m :: rest ∧ m.offset = 0 := by
  obtain ⟨first, rest, content, -⟩ := exists_of_ofTokens? hl
  exact ⟨_, _, marks_of_ofTokens? hl content, rfl⟩

/-- An offset is resolved with the last mark at or before it. -/
theorem exists_mark_of_resolve (hl : ofTokens? rows run = some l)
    (marks : l.marks.Pairwise Mark.Precedes) (n : Nat) :
    ∃ m ∈ l.marks, m.offset ≤ n ∧ (∀ k ∈ l.marks, k.offset ≤ n → k = m ∨ k.Precedes m) ∧
      ∀ rows' : Rows, l.resolve rows' n =
        ⟨m.position.row, min (m.position.column + (n - m.offset))
          (Text.byteLength (rows'.shown m.position.row))⟩ := by
  obtain ⟨first, rest, whole, zero⟩ := exists_first_mark hl
  -- the first mark is at or before any offset, so `resolve` never falls back on it
  have ne : l.marks.takeWhile (·.offset ≤ n) ≠ [] := by
    simp [whole, zero]
  have found := List.getLast?_eq_some_getLast ne
  generalize (l.marks.takeWhile (·.offset ≤ n)).getLast ne = m at found
  obtain ⟨before, eq⟩ := List.getLast?_eq_some_iff.mp found
  rw [Mark.takeWhile_eq_filter marks] at eq
  have mem : m ∈ l.marks.filter (·.offset ≤ n) := by rw [eq]; simp
  obtain ⟨hm, le⟩ := List.mem_filter.mp mem
  refine ⟨m, hm, by simpa using le, fun k hk le => ?_, fun rows' => by rw [resolve, found]; rfl⟩
  have sorted := marks.filter (·.offset ≤ n)
  have hk : k ∈ l.marks.filter (·.offset ≤ n) := List.mem_filter.mpr ⟨hk, by simpa using le⟩
  rw [eq] at sorted hk
  rcases List.mem_append.mp hk with hk | hk
  · exact .inr ((List.pairwise_append.mp sorted).2.2 k hk m (by simp))
  · exact .inl (by simpa using hk)

/-- Behind an offset no offset is resolved to a place in front. -/
theorem resolve_mono (hl : ofTokens? rows run = some l)
    (marks : l.marks.Pairwise Mark.Precedes) (rows' : Rows) {m n : Nat} (le : m ≤ n) :
    l.resolve rows' m ≤ l.resolve rows' n := by
  obtain ⟨a, ha, before, -, place⟩ := exists_mark_of_resolve hl marks m
  obtain ⟨b, -, before', last, place'⟩ := exists_mark_of_resolve hl marks n
  rw [place, place']
  rcases last a ha (Nat.le_trans before le) with rfl | precedes
  · exact .inr ⟨rfl, by dsimp only; omega⟩
  · rcases Nat.lt_or_eq_of_le precedes.row with below | same
    · exact .inl below
    · refine .inr ⟨same, ?_⟩
      have := precedes.column same
      have := precedes.offset
      rw [same]
      dsimp only
      omega

/-- An offset is resolved to a row of the statement, in front of its terminator. -/
theorem resolve_inside (read : tokenize source = .ok tokens) (sub : run <:+: tokens)
    (hl : ofTokens? (Rows.ofSource source) run = some l) (rows' : Rows) (n : Nat) :
    l.firstRow ≤ (l.resolve rows' n).row ∧ (l.resolve rows' n).row ≤ l.lastRow ∧
      (l.resolve rows' n).column ≤
        Text.byteLength (rows'.shown (l.resolve rows' n).row) := by
  obtain ⟨first, rest, content, of⟩ := exists_of_ofTokens? hl
  obtain ⟨p, ordered⟩ := exists_ordered read sub
  rw [content] at ordered
  obtain ⟨front, as, t, bs, content', -, -, -, place⟩ := exists_resolve_eq hl n
  have ht : t ∈ first :: rest := by rw [← content, content']; simp
  obtain ⟨low, high⟩ := of.rows_of_mem ordered ht
  rw [place]
  exact ⟨low, Nat.le_trans (ordered.isSet_of_mem ht).row_le high, Nat.min_le_right ..⟩

/-- The marks of a logical line are an index of its source. There is one for each content token, in
    order, and offsets and positions both increase. Any offset, also behind the end of the text, is
    resolved to a row of the statement and to no column beyond the row, and later offsets to later
    places. -/
theorem marks_index (read : tokenize source = .ok tokens) (sub : run <:+: tokens)
    (hl : ofTokens? (Rows.ofSource source) run = some l) :
    l.marks.map Mark.position = (run.filter Token.isContent).map Token.start ∧
      l.marks.Pairwise (fun a b => a.offset < b.offset ∧ a.position < b.position) ∧
      (∀ n, let p := l.resolve (Rows.ofSource source) n
        l.firstRow ≤ p.row ∧ p.row ≤ l.lastRow ∧
          p.column ≤ Text.byteLength ((Rows.ofSource source).shown p.row)) ∧
      ∀ m n, m ≤ n →
        l.resolve (Rows.ofSource source) m ≤ l.resolve (Rows.ofSource source) n := by
  have marks := pairwise_marks read sub hl
  exact ⟨map_position_marks hl, marks.imp fun h => ⟨h.offset, h.position_lt⟩,
    resolve_inside read sub hl _, fun m n le => resolve_mono hl marks _ le⟩

/-- An offset in the body of a literal on two rows is resolved to the end of the first one, an
    offset behind the end of the text to the end of the last row. -/
theorem marks_index_of_joined_rows :
    let source := "x = f('''a\nbcdef''',  # c\n  1)\n".toList
    let rows := Rows.ofSource source
    ∃ tokens l, tokenize source = .ok tokens ∧ ofTokens? rows tokens = some l ∧
      l.marks.map Mark.offset = [0, 2, 4, 5, 6, 19, 21, 22] ∧
      l.marks.map Mark.position = (tokens.filter Token.isContent).map Token.start ∧
      l.resolve rows 15 = ⟨1, 10⟩ ∧ l.resolve rows 99 = ⟨3, 4⟩ ∧
      l.resolve rows 15 ≤ l.resolve rows 99 := by
  intro source rows
  obtain ⟨tokens, read, l, hl, offsets, inner, last⟩ : ∃ tokens ∈ (tokenize source).toOption,
      ∃ l ∈ ofTokens? rows tokens, l.marks.map Mark.offset = [0, 2, 4, 5, 6, 19, 21, 22] ∧
        l.resolve rows 15 = ⟨1, 10⟩ ∧ l.resolve rows 99 = ⟨3, 4⟩ := by
    decide +kernel
  have read := eq_ok_of_toOption read
  obtain ⟨positions, -, -, monotone⟩ := marks_index read (List.infix_refl tokens) hl
  exact ⟨tokens, l, read, hl, offsets, positions, inner, last, monotone 15 99 (by decide)⟩

end LogicalLine

end StyleGuide
