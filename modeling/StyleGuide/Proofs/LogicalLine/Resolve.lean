import StyleGuide.Proofs.LogicalLine.Strands

/-! # Offsets and places

An offset in a logical line is resolved on the row on which the last token starts that starts at
or before the offset. A logical line sees no rows but those of its tokens.
-/

namespace StyleGuide.LogicalLine

variable {rows rows' : Rows} {tokens ts : List Token} {l : LogicalLine}

theorem join_append (ps qs : List Piece) : join (ps ++ qs) = join ps ++ join qs :=
  List.flatMap_append

theorem join_cons (p : Piece) (ps : List Piece) : join (p :: ps) = p.gap ++ p.shown ++ join ps :=
  List.flatMap_cons

theorem marksFrom_append (o : Nat) (ps qs : List Piece) :
    marksFrom o (ps ++ qs) = marksFrom o ps ++ marksFrom (o + Text.byteLength (join ps)) qs := by
  induction ps generalizing o with
  | nil => rfl
  | cons p ps ih =>
      have next : o + Text.byteLength p.gap + Text.byteLength p.shown +
          Text.byteLength (join ps) = o + Text.byteLength (join (p :: ps)) := by
        simp [join_cons, Nat.add_assoc]
      rw [List.cons_append, marksFrom, marksFrom, ih, next]
      rfl

/-- The marks at or before an offset are those of the first pieces. -/
theorem exists_takeWhile_marksFrom (o n : Nat) (ps : List Piece) : ∃ pre post, ps = pre ++ post ∧
    (marksFrom o ps).takeWhile (·.offset ≤ n) = marksFrom o pre ∧
    (∀ q ∈ post.head?, n < o + Text.byteLength (join pre ++ q.gap)) ∧
    ∀ init q, pre = init ++ [q] → o + Text.byteLength (join init ++ q.gap) ≤ n := by
  induction ps generalizing o with
  | nil => exact ⟨[], [], rfl, rfl, nofun, by simp⟩
  | cons p ps ih =>
      by_cases le : o + Text.byteLength p.gap ≤ n
      · obtain ⟨pre, post, rfl, marks, next, last⟩ :=
          ih (o + Text.byteLength p.gap + Text.byteLength p.shown)
        refine ⟨p :: pre, post, rfl, ?_, fun q hq => ?_, fun init q whole => ?_⟩
        · simp only [marksFrom]
          rw [List.takeWhile_cons_of_pos (by simpa using le), marks]
        · have := next q hq
          simp only [join_cons, Text.byteLength_append] at this ⊢
          omega
        · cases init with
          | nil =>
              obtain ⟨rfl, -⟩ := List.cons.inj whole
              simpa [join] using le
          | cons r init =>
              obtain ⟨rfl, inner⟩ := List.cons.inj whole
              have := last init q inner
              simp only [join_cons, Text.byteLength_append] at this ⊢
              omega
      · refine ⟨[], p :: ps, rfl, ?_, ?_, by simp⟩
        · simp only [marksFrom]
          rw [List.takeWhile_cons_of_neg (by simpa using le)]
        · simpa [join] using le

theorem marks_of_ofTokens? {first : Token} {rest : List Token} (hl : ofTokens? rows tokens = some l)
    (content : tokens.filter Token.isContent = first :: rest) :
    l.marks = marksFrom 0 (pieces rows (first :: rest)) := by
  simp only [ofTokens?, content, Option.some.injEq] at hl
  rw [← hl]

theorem start_of_ofTokens? {first : Token} {rest : List Token} (hl : ofTokens? rows tokens = some l)
    (content : tokens.filter Token.isContent = first :: rest) : l.start = first.start := by
  rw [start, marks_of_ofTokens? hl content]
  rfl

/-- Each piece is one of a token, and the pieces behind it are those of the tokens behind that. -/
theorem exists_of_pieces_eq {pre post : List Piece} {p : Piece}
    (h : pieces rows ts = pre ++ p :: post) :
    ∃ as t bs, ts = as ++ t :: bs ∧ p.shown = t.shown ∧ p.start = t.start ∧
      post = pieces.go rows t bs := by
  have behind : ∀ (before : Token) (us : List Token) (pre : List Piece),
      pieces.go rows before us = pre ++ p :: post →
        ∃ as t bs, us = as ++ t :: bs ∧ p.shown = t.shown ∧ p.start = t.start ∧
          post = pieces.go rows t bs := by
    intro before us
    induction us generalizing before with
    | nil => simp [pieces.go]
    | cons u us ih =>
        rintro (_ | ⟨q, pre⟩) eq
        · obtain ⟨rfl, rfl⟩ := List.cons.inj eq
          exact ⟨[], u, us, rfl, rfl, rfl, rfl⟩
        · obtain ⟨as, t, bs, rfl, rest⟩ := ih u pre (List.cons.inj eq).2
          exact ⟨u :: as, t, bs, rfl, rest⟩
  cases ts with
  | nil => simp [pieces] at h
  | cons first rest =>
      cases pre with
      | nil =>
          obtain ⟨rfl, rfl⟩ := List.cons.inj h
          exact ⟨[], first, rest, rfl, rfl, rfl, rfl⟩
      | cons q pre =>
          obtain ⟨as, t, bs, rfl, found⟩ := behind first rest pre (List.cons.inj h).2
          exact ⟨first :: as, t, bs, rfl, found⟩

/-- An offset is resolved with the last piece that starts at or before it. -/
theorem exists_resolve_eq (hl : ofTokens? rows tokens = some l) (n : Nat) :
    ∃ front as t bs, tokens.filter Token.isContent = as ++ t :: bs ∧
      join (pieces rows (tokens.filter Token.isContent)) =
        front ++ t.shown ++ join (pieces.go rows t bs) ∧
      Text.byteLength front ≤ n ∧
      (∀ u ∈ bs.head?, n < Text.byteLength (front ++ t.shown ++ gap rows t u)) ∧
      ∀ rows' : Rows, l.resolve rows' n =
        ⟨t.start.row, min (t.start.column + (n - Text.byteLength front))
          (Text.byteLength (rows'.shown t.start.row))⟩ := by
  obtain ⟨first, rest, content, -⟩ := exists_of_ofTokens? hl
  have marks := marks_of_ofTokens? hl content
  obtain ⟨pre, post, whole, found, next, last⟩ :=
    exists_takeWhile_marksFrom 0 n (pieces rows (first :: rest))
  -- the first piece starts at the offset zero
  have ne : pre ≠ [] := by
    rintro rfl
    rw [List.nil_append] at whole
    have := next ⟨[], first.shown, first.start⟩ (by rw [← whole]; rfl)
    simp [join] at this
  obtain ⟨init, p, rfl⟩ := (List.eq_nil_or_concat pre).resolve_left ne
  rw [List.concat_eq_append] at whole found next last
  rw [List.append_assoc, List.singleton_append] at whole
  obtain ⟨as, t, bs, tokens_eq, shown, start, behind⟩ := exists_of_pieces_eq whole
  refine ⟨join init ++ p.gap, as, t, bs, content.trans tokens_eq, ?_, ?_, fun u hu => ?_, ?_⟩
  · rw [content, whole, join_append, join_cons, shown, behind]
    simp
  · simpa using last init p rfl
  · cases bs with
    | nil => cases hu
    | cons v bs =>
        obtain rfl : v = u := by simpa using hu
        have := next ⟨gap rows t v, v.shown, v.start⟩ (by rw [behind]; rfl)
        simpa [join_append, join_cons, join, shown, Nat.add_assoc] using this
  · have mark : ((l.marks.takeWhile (·.offset ≤ n)).getLast? <|> l.marks.head?) =
        some ⟨Text.byteLength (join init ++ p.gap), t.start⟩ := by
      rw [marks, found, marksFrom_append, marksFrom, marksFrom, List.getLast?_concat, ← start]
      simp
    intro rows'
    rw [resolve, mark]

/-! ## The rows of a statement -/

/-- Two sources have the same rows where tokens begin and end. -/
def SameAt (rows rows' : Rows) (ts : List Token) : Prop :=
  ∀ t ∈ ts, rows.row t.start.row = rows'.row t.start.row ∧
    rows.row t.stop.row = rows'.row t.stop.row

theorem SameAt.of_subset {us : List Token} (same : SameAt rows rows' ts) (sub : us ⊆ ts) :
    SameAt rows rows' us :=
  fun t ht => same t (sub ht)

theorem pieces_congr (same : SameAt rows rows' ts) : pieces rows ts = pieces rows' ts := by
  have behind : ∀ (before : Token) (us : List Token), SameAt rows rows' (before :: us) →
      pieces.go rows before us = pieces.go rows' before us := by
    intro before us
    induction us generalizing before with
    | nil => exact fun _ => rfl
    | cons u us ih =>
        intro same
        rw [pieces.go, pieces.go, ih u (same.of_subset (List.subset_cons_self ..)), gap, gap,
          (same before (List.mem_cons_self ..)).2]
  cases ts with
  | nil => rfl
  | cons t ts => rw [pieces, pieces, behind t ts same]

theorem commentBehind_congr {before : Option Token} (same : SameAt rows rows' ts) :
    commentBehind rows before ts = commentBehind rows' before ts := by
  induction ts generalizing before with
  | nil => rfl
  | cons t ts ih =>
      have tail := same.of_subset (List.subset_cons_self t ts)
      simp only [commentBehind, ih tail, (same t (List.mem_cons_self ..)).1]

/-- A logical line sees no rows but those of its tokens. -/
theorem ofTokens?_congr (same : SameAt rows rows' ts) : ofTokens? rows ts = ofTokens? rows' ts := by
  have content := pieces_congr (same.of_subset (List.filter_subset_self (p := Token.isContent) ts))
  rw [ofTokens?, ofTokens?, commentBehind_congr same]
  split
  · rfl
  · next eq =>
      rw [eq] at content
      simp only [content]

/-- An offset is resolved on the row of a token. -/
theorem exists_row_resolve (hl : ofTokens? rows tokens = some l) (n : Nat) :
    ∃ t ∈ tokens, ∀ rows' : Rows, (l.resolve rows' n).row = t.start.row := by
  obtain ⟨front, as, t, bs, content, -, -, -, place⟩ := exists_resolve_eq hl n
  have ht : t ∈ tokens.filter Token.isContent := by rw [content]; simp
  exact ⟨t, (List.mem_filter.mp ht).1, fun rows' => by rw [place]⟩

theorem resolve_congr (hl : ofTokens? rows tokens = some l) (same : SameAt rows rows' tokens)
    (n : Nat) : l.resolve rows n = l.resolve rows' n := by
  obtain ⟨front, as, t, bs, content, -, -, -, place⟩ := exists_resolve_eq hl n
  have ht : t ∈ tokens.filter Token.isContent := by rw [content]; simp
  rw [place, place, Rows.shown, Rows.shown, (same t (List.mem_filter.mp ht).1).1]

end StyleGuide.LogicalLine
