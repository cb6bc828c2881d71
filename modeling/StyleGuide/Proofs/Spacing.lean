import StyleGuide.Proofs.Rule.OperatorGaps

/-! # Spaces at operators

The fix for missing spaces at operators puts spaces between tokens and does nothing else. The text
that it gives is read as the same tokens, and no space is missing there.
-/

namespace StyleGuide

open Lexeme

section FirstRow

variable {line line' : Text} {r r' : RowTokens}

namespace ScanState

theorem lacksNewline_concat (s : Text) : lacksNewline (s ++ ['\n']) = false := by
  simp [lacksNewline]

/-- What the marks behind a source say: the last row ends a statement, and the open blocks end. -/
theorem map_content_endMarks (s : ScanState) (rows : List Text) :
    (s.endMarks rows).map Token.content =
      (if lacksNewline (rows.getLast?.getD []) then [(.newline, [])] else []) ++
        s.indents.map (fun _ => (.dedent, [])) ++ [(.endMarker, [])] := by
  simp only [endMarks, List.map_append, List.map_map]
  split <;> rfl

theorem firstIndents_eq (gap : line'.takeWhile isGap = line.takeWhile isGap) :
    firstIndents line' = firstIndents line := by
  rw [firstIndents, gap, firstIndents]

theorem map_content_firstMarks (gap : line'.takeWhile isGap = line.takeWhile isGap) :
    (firstMarks line').map Token.content = (firstMarks line).map Token.content := by
  simp only [firstMarks, firstIndents_eq gap, List.map_map]
  exact congrArg (fun gap => (firstIndents line).map fun _ => (Token.Kind.indent, gap)) gap

theorem map_content_endMarks_firstState (gap : line'.takeWhile isGap = line.takeWhile isGap)
    (ending : lacksNewline line' = lacksNewline line) :
    ((firstState line' r').endMarks [line']).map Token.content =
      ((firstState line r).endMarks [line]).map Token.content := by
  have indents : (firstState line' r').indents = (firstState line r).indents := firstIndents_eq gap
  rw [map_content_endMarks, map_content_endMarks, indents, List.getLast?_singleton,
    List.getLast?_singleton, Option.getD_some, Option.getD_some, ending]

/-- What a source of one row says depends on the tokens of the row, on the gap at its start and on
    its end. -/
theorem map_content_firstTokens (gap : line'.takeWhile isGap = line.takeWhile isGap)
    (ending : lacksNewline line' = lacksNewline line)
    (same : r'.tokens.map Token.content = r.tokens.map Token.content) :
    (firstTokens line' r').map Token.content = (firstTokens line r).map Token.content := by
  have behind : ((firstState line' r').endMarks [line']).map Token.content =
      ((firstState line r).endMarks [line]).map Token.content :=
    map_content_endMarks_firstState gap ending
  rw [firstTokens, firstTokens, List.map_append, behind, List.map_append]
  simp only [firstState, toList_tokens_advance, List.map_append, map_content_firstMarks gap, same]

end ScanState

end FirstRow

namespace MissingOperatorSpace

variable {ctx : StatementContext} {tokens : List Token} {text line : Text} {items : List RowItem}
  {r : RowTokens} {p : Position} {columns : List Nat} {n : Nat}

/-- The text `new` is `text` with spaces where one part of a statement ends and the next begins. -/
def SpacesBetween (tokens : List Token) (text new : Text) : Prop :=
  ∃ columns, new = insertSpaces columns 0 text ∧ ∀ n ∈ columns,
    ∃ t u, [t, u] <:+: tokens.filter isSpaced ∧ t.stop = ⟨1, n⟩ ∧ u.start = ⟨1, n⟩

/-- The columns where the fix puts spaces. -/
def missing (tokens : List Token) : List Nat :=
  ((gaps tokens).filter (·.row = 1)).map Position.column

theorem exists_infix_of_mem_missing (h : n ∈ missing tokens) :
    ∃ t u, [t, u] <:+: tokens.filter isSpaced ∧ t.stop = ⟨1, n⟩ ∧ u.start = ⟨1, n⟩ := by
  obtain ⟨p, hp, rfl⟩ := List.mem_map.mp h
  obtain ⟨hp, row⟩ := List.mem_filter.mp hp
  have place : p = ⟨1, p.column⟩ := congrArg (Position.mk · p.column) (of_decide_eq_true row)
  rw [← place]
  exact exists_infix_of_mem_gaps hp

/-- A token that rules for spaces look at is no layout mark. -/
theorem isSolid_of_isSpaced {t : Token} (h : isSpaced t) : t.isSolid :=
  Token.isSolid_of_isContent (Bool.and_eq_true_iff.mp h).1

theorem filter_isSpaced_firstTokens (line : Text) (r : RowTokens) :
    (ScanState.firstTokens line r).filter isSpaced = r.tokens.filter isSpaced :=
  ScanState.filter_firstTokens (fun _ => isSolid_of_isSpaced) line r

/-- Missing spaces are missing at seams. -/
theorem atSeams_missing (reads : ReadsRow 1 line 0 0 line items r) :
    AtSeams (missing (ScanState.firstTokens line r)) false 0 items := by
  intro n hn
  obtain ⟨t, u, sub, stop, start⟩ := exists_infix_of_mem_missing hn
  rw [filter_isSpaced_firstTokens] at sub
  have seam : IsSeam t.stop.column false 0 items :=
    isSeam_of_infix reads sub (by rw [start, stop])
  rw [stop] at seam
  exact .inr seam

/-- In a source of one row, no space is missing on another row. -/
theorem mem_missing_of_mem_gaps (reads : ReadsRow 1 line 0 0 line items r)
    (h : p ∈ gaps (ScanState.firstTokens line r)) :
    p.column ∈ missing (ScanState.firstTokens line r) := by
  obtain ⟨t, u, sub, rfl, -⟩ := exists_infix_of_mem_gaps h
  rw [filter_isSpaced_firstTokens] at sub
  have ht : t ∈ r.tokens := (List.mem_filter.mp (sub.subset (List.mem_cons_self ..))).1
  exact List.mem_map_of_mem (List.mem_filter.mpr ⟨h, decide_eq_true (reads.row_eq ht)⟩)

/-- Spaces at the seams of a row move its tokens and leave what the source says. -/
theorem tokenize_of_atSeams (one : '\n' ∉ text)
    (opens : ScanState.initial.betweenStatements? (text ++ ['\n']) = none)
    (reads : ReadsRow 1 (text ++ ['\n']) 0 0 (text ++ ['\n']) items r) (plain : r.rowEnd = .plain)
    (closed : r.depth = 0) (seams : AtSeams columns false 0 items) :
    let line' := insertSpaces columns 0 text ++ ['\n']
    let tokens' :=
      ScanState.firstTokens line' { r with tokens := r.tokens.map (moved columns line') }
    tokenize line' = .ok tokens' ∧
      tokens'.map Token.content =
        (ScanState.firstTokens (text ++ ['\n']) r).map Token.content := by
  intro line' tokens'
  have whole : insertSpaces columns 0 (text ++ ['\n']) = line' := by
    rw [insertSpaces_concat, spaceAt_eq_nil]
    intro mem
    rcases seams _ mem with before | seam
    · cases before
    · have inside := seam.lt_add reads.itemized
      rw [Text.byteLength_append, ← Nat.add_assoc] at inside
      exact Nat.lt_irrefl _ inside
  have reads' := readsRow_spread reads seams line'
  obtain ⟨gap, head⟩ := start_insertSpaces reads.itemized seams
  rw [whole] at reads' gap head
  have one' : '\n' ∉ insertSpaces columns 0 text := fun mem =>
    ((spread_insertSpaces ..).eq_or_mem mem).elim (by decide) one
  have opens' : ScanState.initial.betweenStatements? line' = none := by
    rw [ScanState.betweenStatements?_eq_none_iff] at opens ⊢
    rwa [head]
  have ending : ScanState.lacksNewline line' = ScanState.lacksNewline (text ++ ['\n']) := by
    rw [ScanState.lacksNewline_concat, ScanState.lacksNewline_concat]
  refine ⟨tokenize_of_scanRow (Text.rows_append one' []) opens' reads'.scanRow_eq plain closed,
    ScanState.map_content_firstTokens gap ending ?_⟩
  rw [List.map_map]
  rfl

/-- A source of one row that has moved by its missing spaces lacks no space. -/
theorem gaps_moved (reads : ReadsRow 1 line 0 0 line items r) (line' : Text) :
    let columns := missing (ScanState.firstTokens line r)
    gaps (ScanState.firstTokens line'
      { r with tokens := r.tokens.map (moved columns line') }) = [] := by
  intro columns
  have follows : ((ScanState.firstTokens line r).filter isSpaced).Pairwise Follows := by
    rw [filter_isSpaced_firstTokens]
    exact (pairwise_follows reads).filter _
  apply gaps_eq_nil_of_moved line' follows fun p => mem_missing_of_mem_gaps reads
  rw [filter_isSpaced_firstTokens, filter_isSpaced_firstTokens, List.filter_map]
  rfl

/-- The fix for missing spaces at operators puts spaces between tokens, keeps what the tokens say,
    and leaves no space missing. -/
theorem fix_leaves_no_gap (one : '\n' ∉ ctx.text)
    (read : tokenize (ctx.text ++ ['\n']) = .ok tokens) :
    ∃ new tokens', fix ctx = some ⟨"whitespace added around operator.", .line new⟩ ∧
      SpacesBetween tokens ctx.text new ∧ tokenize (new ++ ['\n']) = .ok tokens' ∧
      tokens'.map Token.content = tokens.map Token.content ∧ gaps tokens' = [] := by
  have fixed : fix ctx = some ⟨"whitespace added around operator.",
      .line (insertSpaces (missing tokens) 0 ctx.text)⟩ := by
    rw [fix, read]
    rfl
  have between : SpacesBetween tokens ctx.text (insertSpaces (missing tokens) 0 ctx.text) :=
    ⟨missing tokens, rfl, fun _ => exists_infix_of_mem_missing⟩
  suffices ∃ tokens', tokenize (insertSpaces (missing tokens) 0 ctx.text ++ ['\n']) = .ok tokens' ∧
      tokens'.map Token.content = tokens.map Token.content ∧ gaps tokens' = [] by
    obtain ⟨tokens', read', content, none⟩ := this
    exact ⟨_, tokens', fixed, between, read', content, none⟩
  by_cases content : ∃ t ∈ tokens, t.isContent
  · obtain ⟨r, opens, scan, plain, closed, rfl⟩ :=
      exists_firstTokens_of_tokenize (Text.rows_append one []) read content
    have reads := ReadsRow.of_scanRow scan plain
    obtain ⟨read', content⟩ :=
      tokenize_of_atSeams one opens reads plain closed (atSeams_missing reads)
    exact ⟨_, read', content, gaps_moved reads _⟩
  · have parts : tokens.filter isSpaced = [] := by
      rw [List.filter_eq_nil_iff]
      exact fun t ht part => content ⟨t, ht, (Bool.and_eq_true_iff.mp part).1⟩
    have none : gaps tokens = [] := by rw [gaps, parts]
    have same : insertSpaces (missing tokens) 0 ctx.text = ctx.text := by
      rw [missing, none]
      exact insertSpaces_eq_self (List.forall_mem_nil _)
    exact ⟨tokens, by rw [same, read], rfl, none⟩

/-- The assignment, the product and the comparison get spaces; the keyword argument, the sign of its
    value and the comment stay as they are. -/
theorem fix_leaves_no_gap_call :
    let ctx : StatementContext :=
      ⟨"x=f(a,b=-1)*2<=y  # c=d".toList, [], none, 1, 0, 0, [], 0, 0⟩
    let new := "x = f(a,b=-1) * 2 <= y  # c=d".toList
    ∃ tokens tokens', '\n' ∉ ctx.text ∧ tokenize (ctx.text ++ ['\n']) = .ok tokens ∧
      fix ctx = some ⟨"whitespace added around operator.", .line new⟩ ∧
      SpacesBetween tokens ctx.text new ∧ tokenize (new ++ ['\n']) = .ok tokens' ∧
      tokens'.map Token.content = tokens.map Token.content ∧ gaps tokens' = [] := by
  intro ctx new
  have one : '\n' ∉ ctx.text := by decide
  obtain ⟨tokens, read⟩ : ∃ tokens, (tokenize (ctx.text ++ ['\n'])).toOption = some tokens :=
    Option.isSome_iff_exists.mp (by decide +kernel)
  have read := eq_ok_of_toOption read
  obtain ⟨_, tokens', fixed, more⟩ := fix_leaves_no_gap one read
  have filled : fix ctx = some ⟨"whitespace added around operator.", .line new⟩ := by decide +kernel
  cases filled.symm.trans fixed
  exact ⟨tokens, tokens', one, read, filled, more⟩

end MissingOperatorSpace

end StyleGuide
