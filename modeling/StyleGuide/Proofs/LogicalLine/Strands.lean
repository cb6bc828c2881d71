import StyleGuide.Proofs.LogicalLine.Weave
import StyleGuide.Proofs.TokenStream.Place

/-! # A statement as a weave

The content of a statement is a weave, whose masked form is the logical line. If the statement
stands on one row, the written form is the part of the row from its first token to its last.
-/

namespace StyleGuide

/-- A weave with a token in front, behind the text `gap`. -/
def Token.onto (t : Token) (gap : Text) (w : Weave) : Weave :=
  if t.kind = .string then .strand gap t.text w else w.prepend (gap ++ t.text)

namespace Token

variable {t : Token} {gap : Text} {w : Weave}

theorem masked_onto : (t.onto gap w).masked = gap ++ t.shown ++ w.masked := by
  rw [onto, shown]
  split
  · rfl
  · rw [Weave.masked_prepend]

theorem written_onto : (t.onto gap w).written = gap ++ t.text ++ w.written := by
  rw [onto]
  split
  · rfl
  · rw [Weave.written_prepend]

theorem quotes_onto (hg : gap.countP Lexeme.isQuote = 0)
    (ht : t.kind ≠ .string → t.text.countP Lexeme.isQuote = 0) (hw : ∀ k ∈ w.quotes, k = 0) :
    ∀ k ∈ (t.onto gap w).quotes, k = 0 := by
  rw [onto]
  split
  · simpa [Weave.quotes, hg] using hw
  · next h => rwa [Weave.quotes_prepend (by rw [List.countP_append, hg, ht h])]

theorem literals_onto :
    (t.onto gap w).literals = (if t.kind = .string then [t.text] else []) ++ w.literals := by
  rw [onto]
  split
  · rfl
  · rw [Weave.literals_prepend, List.nil_append]

end Token

namespace LogicalLine

/-- What a logical line says about the content of its statement. -/
structure IsOf (l : LogicalLine) (rows : Rows) (first : Token) (rest : List Token) : Prop where
  text : l.text = Text.trimEnd (join (pieces rows (first :: rest)))
  literals : l.literals = ((first :: rest).filter fun t => t.kind = .string).map Token.text
  firstRow : l.firstRow = first.start.row
  lastRow : l.lastRow = ((first :: rest).map fun t => t.stop.row).foldl max 0

theorem exists_of_ofTokens? {rows : Rows} {tokens : List Token} {l : LogicalLine}
    (h : ofTokens? rows tokens = some l) :
    ∃ first rest, tokens.filter Token.isContent = first :: rest ∧ l.IsOf rows first rest := by
  simp only [ofTokens?] at h
  split at h
  · cases h
  · next first rest content =>
      obtain rfl := Option.some.inj h
      exact ⟨first, rest, content, rfl, rfl, rfl, rfl⟩

/-- The weave of the content tokens behind the token `before`. -/
def weaveBehind (rows : Rows) (before : Token) : List Token → Weave
  | [] => .plain []
  | t :: rest => t.onto (gap rows before t) (weaveBehind rows t rest)

/-- The weave of the content tokens of a statement. -/
def weave (rows : Rows) : List Token → Weave
  | [] => .plain []
  | t :: rest => t.onto [] (weaveBehind rows t rest)

theorem masked_weaveBehind (rows : Rows) (before : Token) (ts : List Token) :
    (weaveBehind rows before ts).masked = join (pieces.go rows before ts) := by
  induction ts generalizing before with
  | nil => rfl
  | cons t ts ih => rw [weaveBehind, Token.masked_onto, ih, pieces.go, join, join, List.flatMap_cons]

theorem masked_weave (rows : Rows) (ts : List Token) :
    (weave rows ts).masked = join (pieces rows ts) := by
  cases ts with
  | nil => rfl
  | cons t ts =>
      rw [weave, Token.masked_onto, masked_weaveBehind, pieces, join, join, List.flatMap_cons]

theorem literals_weaveBehind (rows : Rows) (before : Token) (ts : List Token) :
    (weaveBehind rows before ts).literals =
      (ts.filter fun t => t.kind = .string).map Token.text := by
  induction ts generalizing before with
  | nil => rfl
  | cons t ts ih =>
      rw [weaveBehind, Token.literals_onto, ih]
      by_cases h : t.kind = .string <;> simp [h]

theorem literals_weave (rows : Rows) (ts : List Token) :
    (weave rows ts).literals = (ts.filter fun t => t.kind = .string).map Token.text := by
  cases ts with
  | nil => rfl
  | cons t ts =>
      rw [weave, Token.literals_onto, literals_weaveBehind]
      by_cases h : t.kind = .string <;> simp [h]

section OneRow

variable {rows : Rows} {n : Nat} {p : Position} {t : Token} {ts : List Token} {before : Text}

/-- All tokens stand on row `n`. -/
def OnRow (n : Nat) (ts : List Token) : Prop := ∀ t ∈ ts, t.start.row = n ∧ t.stop.row = n

theorem le_foldl_max {k : Nat} {ks : List Nat} (m : Nat) (h : k ≤ m ∨ k ∈ ks) :
    k ≤ ks.foldl max m := by
  induction ks generalizing m with
  | nil => exact h.elim id nofun
  | cons j js ih =>
      refine ih _ ?_
      rw [List.mem_cons] at h
      obtain h | rfl | h := h
      · exact .inl (Nat.le_trans h (Nat.le_max_left ..))
      · exact .inl (Nat.le_max_right ..)
      · exact .inr h

/-- The content of a statement stands on its rows. -/
theorem IsOf.rows_of_mem {l : LogicalLine} (of : l.IsOf rows t ts)
    (ordered : Ordered rows p (t :: ts)) {u : Token} (hu : u ∈ t :: ts) :
    l.firstRow ≤ u.start.row ∧ u.stop.row ≤ l.lastRow := by
  refine ⟨?_, ?_⟩
  · rw [of.firstRow]
    cases ordered with
    | cons _ set rest =>
        rcases List.mem_cons.mp hu with rfl | hu
        · exact Nat.le_refl _
        · exact Nat.le_trans set.row_le (rest.row_le hu)
  · rw [of.lastRow]
    exact le_foldl_max 0 (.inr (List.mem_map.mpr ⟨u, hu, rfl⟩))

/-- The content of a statement on one row stands on that row. -/
theorem onRow_of_isSingleRow {l : LogicalLine} (of : l.IsOf rows t ts) (single : l.isSingleRow)
    (ordered : Ordered rows p (t :: ts)) : OnRow l.firstRow (t :: ts) := by
  have same : l.firstRow = l.lastRow := by simpa [isSingleRow] using single
  intro u hu
  obtain ⟨first, last⟩ := of.rows_of_mem ordered hu
  have := (ordered.isSet_of_mem hu).row_le
  omega

/-- The last position of a statement. -/
def stopOf (t : Token) (ts : List Token) : Position := ((t :: ts).getLast (by simp)).stop

theorem holds_weaveBehind (ordered : Ordered rows t.stop ts) (on : OnRow n (t :: ts))
    (h : rows.Holds before t.stop) :
    rows.Holds (before ++ (weaveBehind rows t ts).written) (stopOf t ts) := by
  induction ts generalizing t before with
  | nil => simpa [weaveBehind, Weave.written, stopOf] using h
  | cons u us ih =>
      cases ordered with
      | cons between set rest =>
          have ht := on t (by simp)
          have hu := on u (by simp)
          cases between with
          | below below => omega
          | behind hp hq row =>
              obtain rfl := hp.unique h
              rename_i part
              have gap_eq : gap rows t u = part := by
                rw [gap, if_pos row]
                exact h.slice_eq hq row
              cases set with
              | acrossRows _ _ across => omega
              | onRow start stop =>
                  obtain rfl := start.unique hq
                  have := ih rest (fun v hv => on v (List.mem_cons_of_mem _ hv)) stop
                  rw [weaveBehind, Token.written_onto, gap_eq]
                  simpa [stopOf] using this

/-- On one row the written form is what the row holds there. -/
theorem slice_eq_written (ordered : Ordered rows p (t :: ts)) (on : OnRow n (t :: ts)) :
    Text.slice t.start.column (stopOf t ts).column (rows.row t.start.row) =
      (weave rows (t :: ts)).written := by
  cases ordered with
  | cons _ set rest =>
      have ht := on t (by simp)
      cases set with
      | acrossRows _ _ across => omega
      | onRow start stop =>
          have holds := holds_weaveBehind rest on stop
          rw [List.append_assoc] at holds
          have last : (stopOf t ts).row = n := (on _ (List.getLast_mem _)).2
          rw [start.slice_eq holds (by omega), weave, Token.written_onto, List.nil_append]

theorem isLiteral_of_mem_literals_weave (ordered : Ordered rows p ts) (on : OnRow n ts) :
    ∀ l ∈ (weave rows ts).literals, IsLiteral l := by
  intro l hl
  rw [literals_weave] at hl
  obtain ⟨u, hu, rfl⟩ := List.mem_map.mp hl
  obtain ⟨hu, string⟩ := List.mem_filter.mp hu
  have row := on u hu
  cases ordered.isSet_of_mem hu with
  | acrossRows _ _ across => omega
  | onRow _ _ _ spelled => exact spelled.literal (by simpa using string)

theorem countP_text_eq_zero (set : t.IsSet rows) (row : t.start.row = t.stop.row)
    (content : t.isContent) (other : t.kind ≠ .string) : t.text.countP Lexeme.isQuote = 0 := by
  cases set with
  | acrossRows _ _ across => omega
  | onRow _ _ _ spelled => exact List.countP_eq_zero.mpr (spelled.plain content other)

theorem quotes_weaveBehind {q : Position} (laid : Laid rows t.stop ts q) (on : OnRow n (t :: ts))
    (content : ∀ u ∈ ts, u.isContent) : ∀ k ∈ (weaveBehind rows t ts).quotes, k = 0 := by
  induction ts generalizing t with
  | nil => simp [weaveBehind, Weave.quotes]
  | cons u us ih =>
      have ht := on t (by simp)
      have hu := on u (by simp)
      cases laid with
      | cons apart set rest =>
          refine Token.quotes_onto ?_
            (countP_text_eq_zero set (hu.1.trans hu.2.symm) (content u (by simp)))
            (ih rest (fun v hv => on v (List.mem_cons_of_mem _ hv))
              fun v hv => content v (List.mem_cons_of_mem _ hv))
          cases apart with
          | below below => omega
          | behind hp hq row hg =>
              rw [gap, if_pos row, hp.slice_eq hq row]
              refine List.countP_eq_zero.mpr fun c hc quote => ?_
              have := hg c hc
              simp only [Lexeme.isQuote, Bool.or_eq_true, beq_iff_eq] at quote
              obtain rfl | rfl := quote <;> exact absurd this (by decide)

/-- Where there are only gaps between the tokens, no quote mark stands outside the literals. -/
theorem quotes_weave {q : Position} (laid : Laid rows p ts q) (on : OnRow n ts)
    (content : ∀ t ∈ ts, t.isContent) : ∀ k ∈ (weave rows ts).quotes, k = 0 := by
  cases laid with
  | nil => simp [weave, Weave.quotes]
  | cons apart set rest =>
      rename_i t ts
      have ht := on t (by simp)
      exact Token.quotes_onto rfl
        (countP_text_eq_zero set (ht.1.trans ht.2.symm) (content t (by simp)))
        (quotes_weaveBehind rest on fun u hu => content u (List.mem_cons_of_mem _ hu))

/-- A statement on one row as a weave. -/
theorem exists_weave {l : LogicalLine} {run : List Token} {q : Position}
    (hl : ofTokens? rows run = some l) (single : l.isSingleRow)
    (laid : Laid rows p (run.filter Token.isSolid) q) :
    ∃ w : Weave, w.literals = l.literals ∧ w.masked = l.text ∧
      (∃ first last, (run.filter Token.isContent).head? = some first ∧
        (run.filter Token.isContent).getLast? = some last ∧
        w.written = Text.trimEnd
          (Text.slice first.start.column last.stop.column (rows.row l.firstRow))) ∧
      (∀ literal ∈ w.literals, IsLiteral literal) ∧ (CommentsLast run → w.IsClear) := by
  obtain ⟨first, rest, content, of⟩ := exists_of_ofTokens? hl
  have solid := (Laid.filter_isSolid_isContent run).trans content
  have ordered := content ▸ laid.ordered_content
  have on := onRow_of_isSingleRow of single ordered
  have literal := isLiteral_of_mem_literals_weave ordered on
  refine ⟨(weave rows (first :: rest)).trimEnd, ?_, ?_, ?_, ?_, fun last => ?_⟩
  · rw [Weave.literals_trimEnd, literals_weave, of.literals]
  · rw [Weave.masked_trimEnd literal, masked_weave, of.text]
  · rw [content]
    refine ⟨first, (first :: rest).getLast (by simp), rfl, List.getLast?_eq_some_getLast _, ?_⟩
    rw [Weave.written_trimEnd literal, ← slice_eq_written ordered on, of.firstRow]
    rfl
  · rwa [Weave.literals_trimEnd]
  · rw [Weave.isClear_trimEnd]
    obtain ⟨_, laid⟩ := laid.filter_isContent (fun t ht => (List.mem_filter.mp ht).2)
      (last.sublist List.filter_sublist)
    rw [solid] at laid
    refine Weave.isClear_of_quotes literal (quotes_weave laid on fun t ht => ?_)
    exact (List.mem_filter.mp (content ▸ ht)).2

end OneRow

end LogicalLine

end StyleGuide
