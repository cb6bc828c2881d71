import StyleGuide.Proofs.TokenStream.Runs

/-! # The bracket depth behind each token

The tokenizer counts open brackets while it reads a row. Its count behind each token is written
down here, and it is the one that goes on from token to token.
-/

namespace StyleGuide

namespace RowItem

/-- The tokens that `tokens` reads, each with the bracket depth it goes on with behind it. -/
def trace (row : Nat) (line : Text) (depth column : Nat) : List RowItem → List (Token × Nat)
  | [] => []
  | item :: more =>
    let t := item.token row line column
    match item.lexeme with
    | .joint | .openLiteral _ => []
    | .terminator => [({ t with kind := if depth = 0 then .newline else .rowBreak }, depth)]
    | _ =>
      match item.depthAfter depth with
      | .error _ => []
      | .ok depth => (t, depth) :: trace row line depth t.stop.column more

end RowItem

namespace ScanState

/-- The marks of blocks in front of a statement. -/
def blockMarks (s : ScanState) (line : Text) : List Token :=
  let width := indentWidth (line.takeWhile Lexeme.isGap)
  if s.indent < width then [s.indentToken line]
  else (s.indents.takeWhile (width < ·)).map fun _ => s.dedentToken line

/-- The tokens that reading a row adds, each with the bracket depth behind it. -/
def trace (s : ScanState) (line : Text) : List (Token × Nat) :=
  let still (marks : List Token) := marks.map fun t => (t, s.depth)
  let scan (column : Nat) (rest : Text) :=
    RowItem.trace s.row line s.depth column (RowItem.list rest)
  match s.rowEnd with
  | .inLiteral literal =>
    match literal.delimiter.closing? line with
    | some n => still [s.closingToken literal (line.take n)] ++
        scan (Text.byteLength (line.take n)) (line.drop n)
    | none => []
  | .joined => scan 0 line
  | .plain =>
    if s.depth = 0 then
      match s.betweenStatements? line with
      | some r => still (r.elim [] RowTokens.tokens)
      | none => still (s.blockMarks line) ++
          scan (Text.byteLength (line.takeWhile Lexeme.isGap)) (line.dropWhile Lexeme.isGap)
    else scan 0 line

/-- The tokens that reading rows and then the end of the source adds, each with the bracket depth
    behind it. -/
def traceAll (lines : List Text) (s : ScanState) : List Text → List (Token × Nat)
  | [] => (s.endMarks lines).map fun t => (t, s.depth)
  | line :: more =>
    match s.feed line with
    | .ok t => s.trace line ++ traceAll lines t more
    | .error _ => []

end ScanState

/-- The tokens of a source, each with the bracket depth that the tokenizer goes on with. -/
def traceOf (source : Text) : List (Token × Nat) :=
  ScanState.initial.traceAll (Text.rows source) (Text.rows source)

/-- From a bracket depth to another, each token has the depth behind it that it makes of the one
    in front of it. -/
inductive Counts : Nat → List (Token × Nat) → Nat → Prop where
  | nil {d : Nat} : Counts d [] d
  | cons {d e : Nat} {t : Token} {more : List (Token × Nat)}
      (rest : Counts (t.depthBehind d) more e) : Counts d ((t, t.depthBehind d) :: more) e

namespace Counts

variable {d e f : Nat} {l m : List (Token × Nat)}

theorem append (h : Counts d l e) (more : Counts e m f) : Counts d (l ++ m) f := by
  induction h with
  | nil => exact more
  | cons _ ih => exact .cons (ih more)

/-- Tokens other than operators leave the depth as it is. -/
theorem still {marks : List Token} (h : ∀ t ∈ marks, t.kind ≠ .operator) (d : Nat) :
    Counts d (marks.map fun t => (t, d)) d := by
  induction marks with
  | nil => exact .nil
  | cons t marks ih =>
      have same := Runs.depthBehind_of_kind (h t (by simp)) d
      have rest : Counts (t.depthBehind d) (marks.map fun t => (t, d)) d := by
        rw [same]
        exact ih fun u hu => h u (by simp [hu])
      have := Counts.cons rest
      rwa [same] at this

/-- What stands behind a token is the count so far. -/
theorem eq_of_append_cons {t : Token} {n : Nat} (h : Counts d (l ++ (t, n) :: m) e) :
    n = (l.map Prod.fst ++ [t]).foldl (fun d t => t.depthBehind d) d := by
  induction l generalizing d with
  | nil =>
      cases h
      rfl
  | cons u l ih =>
      cases h with
      | cons rest => exact ih rest

end Counts

section Row

variable {row depth column : Nat} {line rest : Text} {items : List RowItem} {r : RowTokens}

theorem RowItem.trace_cons {item : RowItem} {d : Nat} (ends : item.lexeme.endsRow = false)
    (ok : item.depthAfter depth = .ok d) : trace row line depth column (item :: items) =
      (item.token row line column, d) ::
        trace row line d (item.token row line column).stop.column items := by
  obtain ⟨gap, k, text⟩ := item
  cases k with
  | joint | openLiteral | terminator => cases ends
  | literal | comment | number | operator | word | stray => simp only [trace, ok]

/-- The tokens of a row are those of its trace, which ends at the depth behind the row. -/
theorem trace_of_tokens (hi : Itemized rest items)
    (h : RowItem.tokens row line depth column items = .ok r) :
    (RowItem.trace row line depth column items).map Prod.fst = r.tokens ∧
      Counts depth (RowItem.trace row line depth column items) r.depth := by
  induction hi generalizing column depth r with
  | nil =>
      obtain rfl := Except.ok.inj h
      exact ⟨rfl, .nil⟩
  | last _ _ ends =>
      cases RowItem.leads_of_tokens h with
      | joint hk | openLiteral hk =>
          obtain rfl := hk
          exact ⟨rfl, .nil⟩
      | terminator hk =>
          obtain rfl := hk
          refine ⟨rfl, ?_⟩
          apply Counts.still (List.forall_mem_singleton.mpr ?_)
          simp only
          split <;> nofun
      | token ends' =>
          rw [ends] at ends'
          cases ends'
  | cons _ taken ends _ ih =>
      cases RowItem.leads_of_tokens h with
      | joint hk | openLiteral hk | terminator hk =>
          simp only at hk
          rw [hk] at ends
          cases ends
      | token _ ok rest =>
          obtain ⟨tokens, counts⟩ := ih rest
          rw [RowItem.trace_cons ends ok, List.map_cons, tokens]
          rw [← RowItem.depthBehind_token taken ok] at counts ⊢
          exact ⟨rfl, .cons counts⟩

end Row

namespace ScanState

variable {s t : ScanState} {line : Text} {lines : List Text}

/-- A row that opens no block closes the blocks that are further in. -/
theorem takeWhile_indents {width : Nat} {shut kept : List Nat} (indents : s.indents = shut ++ kept)
    (inner : ∀ w ∈ shut, width < w) (aligned : kept.headD 0 = width) :
    ¬s.indent < width ∧ s.indents.takeWhile (width < ·) = shut := by
  constructor
  · rw [indent, indents]
    cases shut with
    | nil => exact Nat.not_lt_of_le (Nat.le_of_eq aligned.symm)
    | cons w shut => exact Nat.not_lt_of_lt (inner w (by simp))
  · have none : kept.takeWhile (width < ·) = [] := by
      cases kept with
      | nil => rfl
      | cons w kept =>
          obtain rfl : w = width := aligned
          simp
    rw [indents, List.takeWhile_append_of_pos (by simpa using inner), none, List.append_nil]

theorem trace_of_feeds (h : Feeds s line t) :
    t.tokens.toList = s.tokens.toList ++ (s.trace line).map Prod.fst ∧
      Counts s.depth (s.trace line) t.depth := by
  have first (l : List Token) : (l.map fun t => (t, s.depth)).map Prod.fst = l := by
    rw [List.map_map]
    exact List.map_id l
  cases h with
  | nothing he hd between => simp [trace, he, hd, between, Counts.nil]
  | between he hd between =>
      rename_i r
      have other : ∀ t ∈ r.tokens, t.kind ≠ .operator := by
        cases isBetween_of_betweenStatements? between <;> simp
      have same : r.depth = s.depth := by
        cases isBetween_of_betweenStatements? between <;> rfl
      have eq : s.trace line = r.tokens.map fun t => (t, s.depth) := by
        simp [trace, he, hd, between]
      rw [eq, first, toList_tokens_advance, List.append_nil]
      exact ⟨rfl, same.symm ▸ Counts.still other s.depth⟩
  | continued he scan =>
      obtain ⟨tokens, counts⟩ := trace_of_tokens (itemized_list line) scan
      have eq : s.trace line = RowItem.trace s.row line s.depth 0 (RowItem.list line) := by
        rcases he with he | ⟨he, hd⟩ <;> simp [trace, *]
      rw [eq, tokens, toList_tokens_advance, List.append_nil]
      exact ⟨rfl, counts⟩
  | indented he hd between deeper scan =>
      obtain ⟨tokens, counts⟩ := trace_of_tokens (itemized_list _) scan
      have other : ∀ t ∈ [s.indentToken line], t.kind ≠ .operator := by simp [indentToken]
      rw [trace, he]
      simp only [hd, if_true, between, blockMarks, deeper]
      rw [List.map_append, ← hd, first, tokens, toList_tokens_advance, List.append_assoc]
      exact ⟨rfl, (Counts.still other _).append counts⟩
  | aligned he hd between indents inner width scan =>
      obtain ⟨tokens, counts⟩ := trace_of_tokens (itemized_list _) scan
      rename_i r shut kept
      obtain ⟨even, shuts⟩ := takeWhile_indents indents inner width
      have other : ∀ t ∈ shut.map fun _ => s.dedentToken line, t.kind ≠ .operator := by
        simp [dedentToken]
      rw [trace, he]
      simp only [hd, if_true, between, blockMarks, even, if_false, shuts]
      rw [List.map_append, ← hd, first, tokens, toList_tokens_advance, List.append_assoc]
      exact ⟨rfl, (Counts.still other _).append counts⟩
  | literalMore he hn more => simp [trace, he, hn, advance, Counts.nil]
  | literalEnd he hn scan =>
      rename_i literal n r
      obtain ⟨tokens, counts⟩ := trace_of_tokens (itemized_list _) scan
      have other : ∀ t ∈ [s.closingToken literal (line.take n)], t.kind ≠ .operator := by
        simp [closingToken]
      rw [trace, he]
      simp only [hn]
      rw [List.map_append, first, tokens, toList_tokens_advance, List.append_assoc]
      exact ⟨rfl, (Counts.still other _).append counts⟩

theorem endMarks_kind {rows : List Text} : ∀ t ∈ s.endMarks rows, t.kind ≠ .operator := by
  intro t ht
  simp only [endMarks, List.mem_append, List.mem_map, List.mem_singleton] at ht
  rcases ht with (ht | ⟨_, -, rfl⟩) | rfl
  · split at ht
    · rw [List.mem_singleton.mp ht]
      simp
    · cases ht
  · simp
  · simp

theorem traceAll_of_foldlM {more : List Text} (rows : List Text) (h : more.foldlM feed s = .ok t) :
    s.tokens.toList ++ (s.traceAll rows more).map Prod.fst = t.tokens.toList ++ t.endMarks rows ∧
      Counts s.depth (s.traceAll rows more) t.depth := by
  induction more generalizing s with
  | nil =>
      obtain rfl := Except.ok.inj h
      refine ⟨?_, Counts.still endMarks_kind _⟩
      rw [traceAll, List.map_map]
      exact congrArg _ (List.map_id _)
  | cons line more ih =>
      rw [List.foldlM_cons] at h
      obtain ⟨u, fed, rest⟩ := exists_of_bind_eq_ok h
      obtain ⟨tokens, counts⟩ := trace_of_feeds (feeds_of_feed fed)
      obtain ⟨tokens', counts'⟩ := ih rest
      simp only [traceAll, fed]
      rw [List.map_append, ← List.append_assoc, ← tokens]
      exact ⟨tokens', counts.append counts'⟩

end ScanState

/-- The trace of a source holds its tokens, with a count that goes on from each to the next. -/
theorem traceOf_of_tokenize {source : Text} {tokens : List Token}
    (h : tokenize source = .ok tokens) :
    (traceOf source).map Prod.fst = tokens ∧ Counts 0 (traceOf source) 0 := by
  obtain ⟨s, read, finished⟩ := ScanState.exists_of_bind_eq_ok h
  obtain ⟨-, closed, rfl⟩ := ScanState.finish_eq_ok finished
  have all := ScanState.traceAll_of_foldlM (Text.rows source) read
  rwa [closed] at all

end StyleGuide
