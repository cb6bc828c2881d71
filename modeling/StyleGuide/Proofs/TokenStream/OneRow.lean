import StyleGuide.Proofs.Text.Rows
import StyleGuide.Proofs.TokenStream.Place

/-! # A source of one row

What a source of one row says is what its lexemes say: the gap at its start and the marks at its end
add no content.
-/

namespace StyleGuide

open Lexeme

variable {line s : Text} {r : RowTokens} {tokens : List Token}

/-- The gap at the start of a row may be passed before the row is scanned. -/
theorem scanRow_dropWhile (row : Nat) (line : Text) (depth : Nat) (s : Text) :
    scanRow row line depth (Text.byteLength (s.takeWhile isGap)) (s.dropWhile isGap) =
      scanRow row line depth 0 s := by
  have first {gap text behind : Text} {k : Lexeme} (hg : ∀ c ∈ gap, isGap c)
      (taken : k.Takes text behind) :
      scanRow row line depth (Text.byteLength ((gap ++ text ++ behind).takeWhile isGap))
        ((gap ++ text ++ behind).dropWhile isGap) =
          scanRow row line depth 0 (gap ++ text ++ behind) := by
    have tail : (gap ++ text ++ behind).dropWhile isGap = [] ++ text ++ behind :=
      taken.dropWhile_append hg
    rw [taken.takeWhile_append hg, tail, scanRow, scanRow, RowItem.list_append (by simp) taken,
      RowItem.list_append hg taken]
    simp [RowItem.tokens, RowItem.token, RowItem.kind, RowItem.depthAfter]
  have itemized := itemized_list s
  generalize RowItem.list s = items at itemized
  cases itemized with
  | nil hg =>
      have none : s.dropWhile isGap = [] := List.dropWhile_eq_nil_iff.mpr hg
      rw [none, scanRow, scanRow, RowItem.list_of_gap hg, RowItem.list_of_gap (by simp)]
      rfl
  | last hg taken => exact first hg taken
  | cons hg taken => exact first hg taken

namespace ScanState

/-- The widths of the blocks that the first row of a source opens. -/
def firstIndents (line : Text) : List Nat :=
  if 0 < indentWidth (line.takeWhile isGap) then [indentWidth (line.takeWhile isGap)] else []

/-- The marks in front of the tokens of a first row. -/
def firstMarks (line : Text) : List Token :=
  (firstIndents line).map fun _ => initial.indentToken line

/-- The state behind a first row that starts a statement. -/
def firstState (line : Text) (r : RowTokens) : ScanState :=
  { initial with indents := firstIndents line }.advance (firstMarks line) r

/-- The tokens of a source of one row that starts a statement. -/
def firstTokens (line : Text) (r : RowTokens) : List Token :=
  (firstState line r).tokens.toList ++ (firstState line r).endMarks [line]

theorem filter_endMarks {p : Token → Bool} (solid : ∀ t, p t → t.isSolid) (s : ScanState)
    (rows : List Text) : (s.endMarks rows).filter p = [] := by
  rw [List.filter_eq_nil_iff]
  intro m hm held
  exact absurd (solid m held) (Bool.eq_false_iff.mp (not_isSolid_of_mem_endMarks hm))

/-- The marks around a row are no part of what it says. -/
theorem filter_firstTokens {p : Token → Bool} (solid : ∀ t, p t → t.isSolid) (line : Text)
    (r : RowTokens) : (firstTokens line r).filter p = r.tokens.filter p := by
  have marks : (firstMarks line).filter p = [] := by
    rw [List.filter_eq_nil_iff, firstMarks, List.forall_mem_map]
    exact fun _ _ held => nomatch solid _ held
  rw [firstTokens, List.filter_append, filter_endMarks solid, firstState, toList_tokens_advance,
    List.filter_append, List.filter_append, marks]
  exact List.append_nil _

/-- What reading the first row of a source comes to. -/
inductive FeedsFirst (line : Text) : ScanState → Prop where
  | nothing (gaps : ∀ c ∈ line, isGap c) : FeedsFirst line initial
  | between {r : RowTokens} (between : IsBetween initial line r) :
      FeedsFirst line (initial.advance [] r)
  | opened {r : RowTokens} (opens : initial.betweenStatements? line = none)
      (scan : scanRow 1 line 0 0 line = .ok r) : FeedsFirst line (firstState line r)

theorem feedsFirst_of_feeds {t : ScanState} (h : Feeds initial line t) : FeedsFirst line t := by
  cases h with
  | literalEnd he | literalMore he => cases he
  | continued he =>
      rcases he with he | ⟨-, he⟩
      · cases he
      · exact absurd rfl he
  | nothing _ _ between => exact .nothing (isGap_of_betweenStatements? between)
  | between _ _ between => exact .between (isBetween_of_betweenStatements? between)
  | indented _ _ opens deeper scan =>
      rw [scanRow_dropWhile] at scan
      have first := FeedsFirst.opened opens scan
      have indents : firstIndents line = [indentWidth (line.takeWhile isGap)] := if_pos deeper
      rwa [firstState, firstMarks, indents] at first
  | aligned _ _ opens none _ width scan =>
      rw [scanRow_dropWhile] at scan
      obtain ⟨rfl, rfl⟩ := List.append_eq_nil_iff.mp none.symm
      have first := FeedsFirst.opened opens scan
      have indents : firstIndents line = [] := if_neg (by rw [← width]; decide)
      rwa [firstState, firstMarks, indents] at first

end ScanState

/-- A source of one row is read by reading that row. -/
theorem exists_feedsFirst_of_tokenize (rows : Text.rows s = [line])
    (read : tokenize s = .ok tokens) :
    ∃ state, ScanState.FeedsFirst line state ∧ state.rowEnd = .plain ∧ state.depth = 0 ∧
      tokens = state.tokens.toList ++ state.endMarks [line] := by
  obtain ⟨state, fed, finished⟩ := exists_of_tokenize read
  rw [rows] at fed finished
  cases fed with
  | cons fed rest =>
      cases rest
      exact ⟨state, ScanState.feedsFirst_of_feeds fed, finished⟩

/-- A source of one row has the content of that row, unless the row lies between statements. -/
theorem content_of_tokenize_row (rows : Text.rows s = [line]) (read : tokenize s = .ok tokens) :
    (tokens.filter Token.isContent = [] ∧
      ∃ c ∈ (line.dropWhile isGap).head?, c = '#' ∨ c = '\n' ∨ c = '\r') ∨
    ∃ r, scanRow 1 line 0 0 line = .ok r ∧ r.rowEnd = .plain ∧ r.depth = 0 ∧
      tokens.filter Token.isContent = r.tokens.filter Token.isContent := by
  obtain ⟨state, fed, ending, depth, rfl⟩ := exists_feedsFirst_of_tokenize rows read
  have solid : ∀ t : Token, t.isContent → t.isSolid := fun _ => Token.isSolid_of_isContent
  have marks (state : ScanState) : (state.tokens.toList ++ state.endMarks [line]).filter
      Token.isContent = state.tokens.toList.filter Token.isContent := by
    rw [List.filter_append, ScanState.filter_endMarks solid, List.append_nil]
  cases fed with
  | nothing gaps =>
      right
      exact ⟨⟨[], 0, .plain⟩, by rw [scanRow, RowItem.list_of_gap gaps]; rfl, rfl, rfl, marks _⟩
  | between between =>
      left
      cases between with
      | @comment gap rest comment ending hg hl hc he =>
          refine ⟨marks _, '#', ?_, .inl rfl⟩
          rw [hl, List.append_assoc, ← he, List.dropWhile_append_of_pos hg]
          rfl
      | @blank gap rest c hg hl hc =>
          refine ⟨marks _, c, ?_, .inr hc.symm⟩
          rw [hl, List.dropWhile_append_of_pos hg, List.dropWhile_cons_of_neg]
          · rfl
          · rcases hc with rfl | rfl <;> decide
  | opened _ scan =>
      right
      exact ⟨_, scan, ending, depth, ScanState.filter_firstTokens solid line _⟩

/-- A source of one row with content starts a statement with that row. -/
theorem exists_firstTokens_of_tokenize (rows : Text.rows s = [line])
    (read : tokenize s = .ok tokens) (content : ∃ t ∈ tokens, t.isContent) :
    ∃ r, ScanState.initial.betweenStatements? line = none ∧ scanRow 1 line 0 0 line = .ok r ∧
      r.rowEnd = .plain ∧ r.depth = 0 ∧ tokens = ScanState.firstTokens line r := by
  obtain ⟨state, fed, ending, depth, rfl⟩ := exists_feedsFirst_of_tokenize rows read
  obtain ⟨t, ht, content⟩ := content
  rcases List.mem_append.mp ht with ht | ht
  · cases fed with
    | nothing => cases ht
    | between between =>
        cases between with
        | comment | blank =>
            rw [ScanState.toList_tokens_advance] at ht
            rcases ht with _ | ⟨_, _ | ⟨_, ⟨⟩⟩⟩ <;> cases content
    | opened opens scan => exact ⟨_, opens, scan, ending, depth, rfl⟩
  · have := ScanState.not_isSolid_of_mem_endMarks ht
    rw [Token.isSolid_of_isContent content] at this
    cases this

/-- A first row that starts a statement is read if its lexemes can be scanned. -/
theorem openStatement_of_scanRow (scan : scanRow 1 line 0 0 line = .ok r) :
    ScanState.initial.openStatement line = .ok (ScanState.firstState line r) := by
  rw [← scanRow_dropWhile] at scan
  have scan : scanRow ScanState.initial.row line ScanState.initial.depth
    (Text.byteLength (line.takeWhile isGap)) (line.dropWhile isGap) = .ok r := scan
  simp only [ScanState.openStatement, scan, ScanState.firstState, ScanState.firstMarks,
    ScanState.firstIndents]
  split
  · next deeper =>
      rw [if_pos (show 0 < indentWidth (line.takeWhile isGap) from deeper)]
      rfl
  · next shallow =>
      have shallow : ¬0 < indentWidth (line.takeWhile isGap) := shallow
      have zero : indentWidth (line.takeWhile isGap) = 0 := Nat.eq_zero_of_not_pos shallow
      rw [if_neg shallow, if_pos (by rw [zero]; rfl), zero]
      rfl

/-- A source of one row is read if its row is and leaves nothing open. -/
theorem tokenize_of_feed {state : ScanState} (rows : Text.rows s = [line])
    (fed : ScanState.initial.feed line = .ok state) (plain : state.rowEnd = .plain)
    (closed : state.depth = 0) :
    tokenize s = .ok (state.tokens.toList ++ state.endMarks [line]) := by
  have finished : state.finish [line] = .ok (state.tokens.toList ++ state.endMarks [line]) := by
    simp only [ScanState.finish, plain, closed, if_true]
  rw [tokenize, rows, List.foldlM_cons, fed]
  exact finished

/-- A source of one row that starts a statement is read if its lexemes can be scanned. -/
theorem tokenize_of_scanRow (rows : Text.rows s = [line])
    (opens : ScanState.initial.betweenStatements? line = none)
    (scan : scanRow 1 line 0 0 line = .ok r) (plain : r.rowEnd = .plain) (closed : r.depth = 0) :
    tokenize s = .ok (ScanState.firstTokens line r) := by
  have fed : ScanState.initial.feed line = .ok (ScanState.firstState line r) := by
    rw [ScanState.feed, show ScanState.initial.rowEnd = .plain from rfl]
    dsimp only
    rw [if_pos (show ScanState.initial.depth = 0 from rfl), opens]
    exact openStatement_of_scanRow scan
  exact tokenize_of_feed rows fed plain closed

/-- A first row is read if its lexemes can be scanned. -/
theorem exists_feed_of_scanRow (scan : scanRow 1 line 0 0 line = .ok r) (ending : r.rowEnd = .plain)
    (depth : r.depth = 0) :
    ∃ state, ScanState.initial.feed line = .ok state ∧ state.rowEnd = .plain ∧ state.depth = 0 := by
  unfold ScanState.feed
  split
  · next he => cases he
  · next he => cases he
  · rw [if_pos (show ScanState.initial.depth = 0 from rfl)]
    split
    · next between =>
        refine ⟨_, rfl, ?_⟩
        cases ScanState.isBetween_of_betweenStatements? between with
        | comment | blank => exact ⟨rfl, rfl⟩
    · exact ⟨_, rfl, rfl, rfl⟩
    · exact ⟨_, openStatement_of_scanRow scan, ending, depth⟩

/-- A text of one row is read if its lexemes can be scanned. -/
theorem exists_tokenize_of_scanRow (one : '\n' ∉ s) (scan : scanRow 1 s 0 0 s = .ok r)
    (ending : r.rowEnd = .plain) (depth : r.depth = 0) : ∃ tokens, tokenize s = .ok tokens := by
  by_cases ne : s = []
  · subst ne
    exact ⟨_, rfl⟩
  obtain ⟨state, fed, plain, closed⟩ := exists_feed_of_scanRow scan ending depth
  exact ⟨_, tokenize_of_feed (Text.rows_of_not_mem ne one) fed plain closed⟩

end StyleGuide
