import StyleGuide.Proofs.Text.Trim
import StyleGuide.TokenStream

/-! # What reading a row does

A row is read in one of seven ways, and each says all that changes. A source is read if all its
rows are and the last of them leaves nothing open.
-/

namespace StyleGuide

theorem eq_ok_of_toOption {ε α : Type} {x : Except ε α} {a : α} (h : x.toOption = some a) :
    x = .ok a := by
  cases x with
  | error e => cases h
  | ok b => exact congrArg _ (Option.some.inj h)

theorem Lexeme.isBlank_of_isGap {c : Char} (h : isGap c) : Text.isBlank c := by
  simp only [isGap, Bool.or_eq_true, beq_iff_eq] at h
  obtain (rfl | rfl) | rfl := h <;> rfl

namespace ScanState

@[simp] theorem toList_tokens_advance (s : ScanState) (first : List Token) (r : RowTokens) :
    (s.advance first r).tokens.toList = s.tokens.toList ++ first ++ r.tokens := by
  simp [advance]

/-- The string token that ends on a row. -/
def closingToken (s : ScanState) (literal : OpenLiteral) (text : Text) : Token :=
  ⟨.string, literal.text ++ text, literal.start, ⟨s.row, Text.byteLength text⟩, literal.line⟩

/-- The token of the gap that opens a block. -/
def indentToken (s : ScanState) (line : Text) : Token :=
  let gap := line.takeWhile Lexeme.isGap
  ⟨.indent, gap, ⟨s.row, 0⟩, ⟨s.row, Text.byteLength gap⟩, line⟩

/-- The token that closes a block. -/
def dedentToken (s : ScanState) (line : Text) : Token :=
  let column := Text.byteLength (line.takeWhile Lexeme.isGap)
  ⟨.dedent, [], ⟨s.row, column⟩, ⟨s.row, column⟩, line⟩

/-- What reading the row `line` in the state `s` comes to. -/
inductive Feeds (s : ScanState) (line : Text) : ScanState → Prop where
  | literalEnd {literal : OpenLiteral} {n : Nat} {r : RowTokens}
      (he : s.rowEnd = .inLiteral literal) (hn : literal.delimiter.closing? line = some n)
      (scan : scanRow s.row line s.depth (Text.byteLength (line.take n)) (line.drop n) = .ok r) :
      Feeds s line (s.advance [s.closingToken literal (line.take n)] r)
  | literalMore {literal : OpenLiteral} (he : s.rowEnd = .inLiteral literal)
      (hn : literal.delimiter.closing? line = none)
      (more : literal.delimiter.isTriple || Lexeme.endsInBackslash line) :
      Feeds s line (s.advance []
        ⟨[], s.depth, .inLiteral { literal with text := literal.text ++ line }⟩)
  | continued {r : RowTokens} (he : s.rowEnd = .joined ∨ s.rowEnd = .plain ∧ s.depth ≠ 0)
      (scan : scanRow s.row line s.depth 0 line = .ok r) : Feeds s line (s.advance [] r)
  | nothing (he : s.rowEnd = .plain) (hd : s.depth = 0)
      (between : s.betweenStatements? line = some none) : Feeds s line s
  | between {r : RowTokens} (he : s.rowEnd = .plain) (hd : s.depth = 0)
      (between : s.betweenStatements? line = some (some r)) : Feeds s line (s.advance [] r)
  | indented {r : RowTokens} (he : s.rowEnd = .plain) (hd : s.depth = 0)
      (between : s.betweenStatements? line = none)
      (deeper : s.indent < indentWidth (line.takeWhile Lexeme.isGap))
      (scan : scanRow s.row line s.depth (Text.byteLength (line.takeWhile Lexeme.isGap))
        (line.dropWhile Lexeme.isGap) = .ok r) :
      Feeds s line ({ s with
        indents := indentWidth (line.takeWhile Lexeme.isGap) :: s.indents }.advance
          [s.indentToken line] r)
  | aligned {r : RowTokens} {closed kept : List Nat} (he : s.rowEnd = .plain) (hd : s.depth = 0)
      (between : s.betweenStatements? line = none)
      (indents : s.indents = closed ++ kept)
      (inner : ∀ w ∈ closed, indentWidth (line.takeWhile Lexeme.isGap) < w)
      (width : kept.headD 0 = indentWidth (line.takeWhile Lexeme.isGap))
      (scan : scanRow s.row line s.depth (Text.byteLength (line.takeWhile Lexeme.isGap))
        (line.dropWhile Lexeme.isGap) = .ok r) :
      Feeds s line ({ s with indents := kept }.advance (closed.map fun _ => s.dedentToken line) r)

theorem exists_of_bind_eq_ok {α β : Type} {x : Except SyntaxError α}
    {f : α → Except SyntaxError β} {b : β} (h : (x >>= f) = .ok b) :
    ∃ a, x = .ok a ∧ f a = .ok b := by
  cases x with
  | error e => cases h
  | ok a => exact ⟨a, rfl, h⟩

theorem feeds_of_openStatement {s t : ScanState} {line : Text} (he : s.rowEnd = .plain)
    (hd : s.depth = 0) (between : s.betweenStatements? line = none)
    (h : s.openStatement line = .ok t) : Feeds s line t := by
  simp only [openStatement] at h
  split at h
  · next deeper =>
      obtain ⟨r, scan, eq⟩ := exists_of_bind_eq_ok h
      obtain rfl := Except.ok.inj eq
      exact .indented he hd between deeper scan
  · split at h
    · next width =>
        obtain ⟨r, scan, eq⟩ := exists_of_bind_eq_ok h
        obtain rfl := Except.ok.inj eq
        refine .aligned he hd between List.takeWhile_append_dropWhile.symm ?_ width scan
        intro w hw
        simpa using List.mem_takeWhile_imp hw
    · cases h

theorem feeds_of_feed {s t : ScanState} {line : Text} (h : s.feed line = .ok t) :
    Feeds s line t := by
  simp only [feed] at h
  split at h
  · next literal he =>
      split at h
      · next n hn =>
          obtain ⟨r, scan, eq⟩ := exists_of_bind_eq_ok h
          obtain rfl := Except.ok.inj eq
          exact .literalEnd he hn scan
      · next hn =>
          split at h
          · next more =>
              obtain rfl := Except.ok.inj h
              exact .literalMore he hn more
          · cases h
  · next he =>
      obtain ⟨r, scan, eq⟩ := exists_of_bind_eq_ok h
      obtain rfl := Except.ok.inj eq
      exact .continued (.inl he) scan
  · next he =>
      split at h
      · next hd =>
          split at h
          · next r between =>
              obtain rfl := Except.ok.inj h
              exact .between he hd between
          · next between =>
              obtain rfl := Except.ok.inj h
              exact .nothing he hd between
          · next between => exact feeds_of_openStatement he hd between h
      · next hd =>
          obtain ⟨r, scan, eq⟩ := exists_of_bind_eq_ok h
          obtain rfl := Except.ok.inj eq
          exact .continued (.inr ⟨he, hd⟩) scan

theorem isGap_of_betweenStatements? {s : ScanState} {line : Text}
    (h : s.betweenStatements? line = some none) : ∀ c ∈ line, Lexeme.isGap c := by
  simp only [betweenStatements?] at h
  split at h
  · next hl => simpa [List.dropWhile_eq_nil_iff] using hl
  · cases h
  · split at h <;> cases h

/-- A row starts a statement if it holds more than white space and a comment. -/
theorem betweenStatements?_eq_none_iff {s : ScanState} {line : Text} :
    s.betweenStatements? line = none ↔
      ∃ c ∈ (line.dropWhile Lexeme.isGap).head?, c ≠ '#' ∧ c ≠ '\r' ∧ c ≠ '\n' := by
  simp only [betweenStatements?]
  split
  · next hl => simp [hl]
  · next hl => simp [hl]
  · next c rest comment hl =>
      have comment : c ≠ '#' := comment
      simp [hl, comment]

/-- The rows of white space or a comment that hold tokens. -/
inductive IsBetween (s : ScanState) (line : Text) : RowTokens → Prop where
  | comment {gap rest comment ending : Text} (hg : ∀ c ∈ gap, Lexeme.isGap c)
      (hl : line = gap ++ comment ++ ending) (hc : comment = Text.withoutTerminator ('#' :: rest))
      (he : '#' :: rest = comment ++ ending) :
      IsBetween s line ⟨[⟨.comment, comment, ⟨s.row, Text.byteLength gap⟩,
          ⟨s.row, Text.byteLength gap + Text.byteLength comment⟩, line⟩,
        ⟨.rowBreak, ending, ⟨s.row, Text.byteLength gap + Text.byteLength comment⟩,
          ⟨s.row, Text.byteLength gap + Text.byteLength comment + Text.byteLength ending⟩, line⟩],
        s.depth, .plain⟩
  | blank {gap rest : Text} {c : Char} (hg : ∀ c ∈ gap, Lexeme.isGap c)
      (hl : line = gap ++ c :: rest) (hc : c = '\r' ∨ c = '\n') :
      IsBetween s line ⟨[⟨.rowBreak, c :: rest, ⟨s.row, Text.byteLength gap⟩,
        ⟨s.row, Text.byteLength gap + Text.byteLength (c :: rest)⟩, line⟩], s.depth, .plain⟩

theorem isBetween_of_betweenStatements? {s : ScanState} {line : Text} {r : RowTokens}
    (h : s.betweenStatements? line = some (some r)) : IsBetween s line r := by
  have gap : ∀ c ∈ line.takeWhile Lexeme.isGap, Lexeme.isGap c :=
    fun c hc => List.mem_takeWhile_imp hc
  have whole := List.takeWhile_append_dropWhile (p := Lexeme.isGap) (l := line)
  simp only [betweenStatements?] at h
  split at h
  · cases h
  · next rest hl =>
      simp only [Option.some.injEq] at h
      obtain rfl := h
      rw [hl] at whole
      have parts : '#' :: rest = Text.withoutTerminator ('#' :: rest) ++
          ('#' :: rest).drop (Text.withoutTerminator ('#' :: rest)).length := by
        exact (List.prefix_iff_eq_append.mp (Text.dropEndWhile_prefix _ _)).symm
      exact .comment gap (by rw [List.append_assoc, ← parts, whole]) rfl parts
  · next c rest _ hl =>
      split at h
      · next hc =>
          simp only [Option.some.injEq] at h
          obtain rfl := h
          rw [hl] at whole
          exact .blank gap whole.symm (by simpa using hc)
      · cases h

theorem row_of_feeds {s t : ScanState} {line : Text} (h : Feeds s line t) (hn : '\n' ∈ line) :
    t.row = s.row + 1 := by
  cases h with
  | nothing _ _ between =>
      have := isGap_of_betweenStatements? between '\n' hn
      exact absurd this (by decide)
  | literalEnd | literalMore | continued | between | indented | aligned => rfl

theorem row_or_gaps_of_feeds {s t : ScanState} {line : Text} (h : Feeds s line t) :
    t.row = s.row + 1 ∨ t = s ∧ ∀ c ∈ line, Lexeme.isGap c := by
  cases h with
  | nothing _ _ between => exact .inr ⟨rfl, isGap_of_betweenStatements? between⟩
  | literalEnd | literalMore | continued | between | indented | aligned => exact .inl rfl

/-- What reading rows in order comes to. -/
inductive FeedsAll : ScanState → List Text → ScanState → Prop where
  | nil {s : ScanState} : FeedsAll s [] s
  | cons {s t u : ScanState} {line : Text} {rows : List Text} (fed : Feeds s line t)
      (rest : FeedsAll t rows u) : FeedsAll s (line :: rows) u

theorem feedsAll_of_foldlM {rows : List Text} {s t : ScanState}
    (h : rows.foldlM feed s = .ok t) : FeedsAll s rows t := by
  induction rows generalizing s with
  | nil =>
      obtain rfl := Except.ok.inj h
      exact .nil
  | cons line rows ih =>
      rw [List.foldlM_cons] at h
      obtain ⟨u, fed, rest⟩ := exists_of_bind_eq_ok h
      exact .cons (feeds_of_feed fed) (ih rest)

theorem finish_eq_ok {s : ScanState} {rows : List Text} {tokens : List Token}
    (h : s.finish rows = .ok tokens) :
    s.rowEnd = .plain ∧ s.depth = 0 ∧ tokens = s.tokens.toList ++ s.endMarks rows := by
  simp only [finish] at h
  split at h
  · cases h
  · cases h
  · next he =>
      split at h
      · next hd => exact ⟨he, hd, (Except.ok.inj h).symm⟩
      · cases h

end ScanState

theorem exists_of_tokenize {source : Text} {tokens : List Token}
    (h : tokenize source = .ok tokens) :
    ∃ s, ScanState.FeedsAll .initial (Text.rows source) s ∧ s.rowEnd = .plain ∧ s.depth = 0 ∧
      tokens = s.tokens.toList ++ s.endMarks (Text.rows source) := by
  obtain ⟨s, fed, finished⟩ := ScanState.exists_of_bind_eq_ok h
  exact ⟨s, ScanState.feedsAll_of_foldlM fed, ScanState.finish_eq_ok finished⟩

end StyleGuide
