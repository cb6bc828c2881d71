import StyleGuide.Proofs.LogicalLine.Resolve
import StyleGuide.Proofs.Rule.Place
import StyleGuide.Proofs.TokenStream.Alike

/-! # Logical lines of sources that are alike outside of literals

A logical line shows of a literal nothing but its mask. So statements of two sources that are alike
outside of literals have the same logical line and the same indentation, and an offset in it is
resolved on the same row.
-/

namespace StyleGuide

/-- A mask ends in the quote mark in which its literal ends. -/
theorem getLast?_mask {text : Text} (h : IsLiteral text) :
    (mask text).getLast? = text.getLast? := by
  obtain ⟨hl, hq, single⟩ := h
  rw [mask_append hq hl single, List.getLast?_append_of_ne_nil _ (Delimiter.text_ne_nil _),
    List.getLast?_append_of_ne_nil _ (Delimiter.text_ne_nil _)]

theorem Token.Twin.getLast?_eq {rows rows' : Rows} {t u : Token} (h : t.Twin rows rows' u) :
    t.text.getLast? = u.text.getLast? := by
  by_cases string : t.kind = .string
  · obtain ⟨literal, literal'⟩ := h.isLiteral string
    have shown := h.shown
    rw [Token.shown, Token.shown, if_pos string, if_pos (h.kind ▸ string)] at shown
    rw [← getLast?_mask literal, ← getLast?_mask literal', shown]
  · rw [h.text_eq string]

/-- A text and a longer one start with the same gap if the shorter one has all of it. -/
theorem Text.takeWhile_eq_of_prefix {f : Char → Bool} {s t : Text} (h : s <+: t)
    (gap : t.takeWhile f <+: s) : s.takeWhile f = t.takeWhile f := by
  obtain ⟨more, hs⟩ := gap
  obtain ⟨behind, ht⟩ := h
  have whole : s.takeWhile f = t.takeWhile f ++ more.takeWhile f := by
    conv_lhs => rw [← hs]
    exact List.takeWhile_append_of_pos fun c hc => List.mem_takeWhile_imp hc
  have stops : more.takeWhile f = [] := by
    have again : t.takeWhile f = t.takeWhile f ++ (more ++ behind).takeWhile f := by
      conv_lhs => rw [← ht, ← hs, List.append_assoc]
      exact List.takeWhile_append_of_pos fun c hc => List.mem_takeWhile_imp hc
    have none : (more ++ behind).takeWhile f = [] := List.self_eq_append_right.mp again
    cases more with
    | nil => rfl
    | cons c more =>
        rw [List.cons_append, List.takeWhile_cons] at none
        rw [List.takeWhile_cons]
        split at none
        · cases none
        · next hc => rw [if_neg hc]
  rw [whole, stops, List.append_nil]

/-- The indentation in front of a position does not depend on what is behind it on the row. -/
theorem indentLevel_takeBytes_shown {rows : Rows} {x : Text} {q : Position} (h : rows.Holds x q)
    (tabSize : Nat) : indentLevel tabSize (Text.takeBytes q.column (rows.shown q.row)) =
      indentLevel tabSize x := by
  have shown : rows.shown q.row <+: rows.row q.row := Text.dropEndWhile_prefix _ _
  rcases List.prefix_or_prefix_of_prefix h.1 shown with ⟨behind, eq⟩ | inner
  · rw [← eq, ← h.2, Text.takeBytes_byteLength_append]
  · obtain ⟨more, eq⟩ := inner
    have le : Text.byteLength (rows.shown q.row) ≤ q.column := by
      rw [← h.2, ← eq, Text.byteLength_append]
      exact Nat.le_add_right _ _
    have gap : x.takeWhile (fun c => c == ' ' || c == '\t') <+: rows.shown q.row := by
      refine Text.prefix_withoutTerminator_of_forall ((List.takeWhile_prefix _).trans h.1) ?_
      intro c hc
      simpa using List.mem_takeWhile_imp hc
    rw [Text.takeBytes_eq_self le, indentLevel, indentLevel,
      Text.takeWhile_eq_of_prefix ⟨more, eq⟩ gap]

namespace LogicalLine

/-- Two logical lines that differ in nothing but the bodies of literals. -/
structure Alike (l l' : LogicalLine) : Prop where
  text : l.text = l'.text
  marks : l.marks = l'.marks
  firstRow : l.firstRow = l'.firstRow

variable {rows rows' : Rows} {p : Position} {t u t' u' : Token} {ts us run run' : List Token}

theorem gap_eq_of_shared (shared : rows.Shared rows' t.stop u.start) (h : t.Twin rows rows' t')
    (h' : u.Twin rows rows' u') : gap rows t u = gap rows' t' u' := by
  rw [gap, gap, ← h.stop, ← h'.start, ← h.getLast?_eq, ← h'.shown]
  split
  · next row =>
      cases shared with
      | below lt => omega
      | behind _ hp hq hp' hq' => rw [hp.slice_eq hq row, hp'.slice_eq hq' row]
  · rfl

theorem pieces_eq_of_aligned (h : Aligned rows rows' p ts us) :
    pieces rows ts = pieces rows' us := by
  have behind : ∀ {q : Position} {t t' : Token} {ts us : List Token}, t.Twin rows rows' t' →
      q = t.stop → Aligned rows rows' q ts us → pieces.go rows t ts = pieces.go rows' t' us := by
    intro q t t' ts us twin stop aligned
    induction aligned generalizing t t' with
    | nil => rfl
    | cons shared next _ _ _ ih =>
        rw [pieces.go, pieces.go, ih next rfl, gap_eq_of_shared (stop ▸ shared) twin next,
          next.shown, next.start]
  cases h with
  | nil => rfl
  | cons _ twin _ _ rest => rw [pieces, pieces, behind twin rfl rest, twin.shown, twin.start]

/-- Statements with the same content outside of literals have logical lines that are alike. -/
theorem ofTokens?_rel (h : Aligned rows rows' p (run.filter Token.isContent)
    (run'.filter Token.isContent)) :
    Option.Rel Alike (ofTokens? rows run) (ofTokens? rows' run') := by
  have same := pieces_eq_of_aligned h
  rw [ofTokens?, ofTokens?]
  generalize run.filter Token.isContent = ts at h same
  generalize run'.filter Token.isContent = us at h same
  cases h with
  | nil => exact .none
  | cons _ twin =>
      simp only [same]
      exact .some ⟨rfl, rfl, by rw [twin.start]⟩

/-- Alike logical lines resolve offsets on the same row. -/
theorem Alike.row_resolve {l l' : LogicalLine} (h : l.Alike l') (n : Nat) :
    (l.resolve rows n).row = (l'.resolve rows' n).row := by
  rw [resolve, resolve, h.marks, h.firstRow]
  split <;> rfl

theorem Alike.start_eq {l l' : LogicalLine} (h : l.Alike l') : l.start = l'.start := by
  rw [start, start, h.marks]

/-- Statements that begin behind a gap that is the same in both sources are indented alike. -/
theorem indentLevel_eq_of_aligned {l : LogicalLine} (hl : ofTokens? rows run = some l)
    (h : Aligned rows rows' p (run.filter Token.isContent) (run'.filter Token.isContent))
    (above : p.row < l.start.row) (tabSize : Nat) :
    indentLevel tabSize (Text.takeBytes l.start.column (rows.shown l.start.row)) =
      indentLevel tabSize (Text.takeBytes l.start.column (rows'.shown l.start.row)) := by
  obtain ⟨first, rest, content, -⟩ := exists_of_ofTokens? hl
  rw [start_of_ofTokens? hl content] at above ⊢
  rw [content] at h
  generalize run'.filter Token.isContent = us at h
  cases h with
  | cons shared =>
      cases shared with
      | below _ hq hq' => rw [indentLevel_takeBytes_shown hq, indentLevel_takeBytes_shown hq']
      | behind row => omega

end LogicalLine

end StyleGuide
