import StyleGuide.Proofs.TokenStream.Blocks

/-! # Reading on behind a row

Rows that come later add tokens and change none of those read before. Where nothing is open behind
a newline, all tokens stand on the rows read so far, the last of these rows has one, and every run
has ended.
-/

namespace StyleGuide

namespace Text

theorem areRows_append {lines more : List Text} (ended : ∀ line ∈ lines, line.getLast? = some '\n')
    (h : AreRows lines) (rest : AreRows more) : AreRows (lines ++ more) := by
  induction h with
  | nil => exact rest
  | last _ h => exact absurd (List.mem_of_getLast? (ended _ (by simp))) h
  | cons h _ ih => exact .cons h (ih fun line hl => ended line (List.mem_cons_of_mem _ hl))

theorem getLast?_of_mem_rows {s : Text} (h : s = [] ∨ s.getLast? = some '\n') :
    ∀ line ∈ rows s, line.getLast? = some '\n' := by
  have shape := areRows_rows s
  have whole := flatten_rows s
  generalize rows s = lines at shape whole
  induction shape generalizing s with
  | nil => nofun
  | last ne free =>
      obtain rfl : _ = s := by simpa using whole
      have last := h.resolve_left ne
      exact absurd (List.mem_of_getLast? last) free
  | cons free rest ih =>
      rename_i body more
      intro line hl
      rcases List.mem_cons.mp hl with rfl | hl
      · simp
      · refine ih (s := more.flatten) ?_ rfl line hl
        cases hm : more.flatten with
        | nil => exact .inl rfl
        | cons c t =>
            rw [List.flatten_cons, hm] at whole
            subst whole
            simpa using h

/-- The rows of a text behind a newline come behind the rows in front of it. -/
theorem rows_append_of_getLast? {s : Text} (h : s = [] ∨ s.getLast? = some '\n') (t : Text) :
    rows (s ++ t) = rows s ++ rows t := by
  have shape := areRows_append (getLast?_of_mem_rows h) (areRows_rows s) (areRows_rows t)
  have := rows_flatten shape
  rwa [List.flatten_append, flatten_rows, flatten_rows] at this

end Text

namespace ScanState

variable {rows : Rows} {s t : ScanState} {line : Text} {lines : List Text}

/-- Reading a row adds tokens. -/
theorem tokens_prefix_of_feeds (h : Feeds s line t) : s.tokens.toList <+: t.tokens.toList := by
  cases h with
  | nothing => exact List.prefix_rfl
  | literalEnd | literalMore | continued | between | indented | aligned =>
      rw [toList_tokens_advance, List.append_assoc]
      exact List.prefix_append _ _

theorem tokens_prefix_of_feedsAll (h : FeedsAll s lines t) :
    s.tokens.toList <+: t.tokens.toList := by
  induction h with
  | nil => exact List.prefix_rfl
  | cons fed _ ih => exact (tokens_prefix_of_feeds fed).trans ih

/-- What has been read lies on the rows read so far. -/
structure IsRead (s : ScanState) : Prop where
  tokens : ∀ t ∈ s.tokens.toList, t.start.row < s.row ∧ t.stop.row < s.row
  literal : ∀ l, s.rowEnd = .inLiteral l → l.start.row < s.row

/-- The last row has a token, unless something is open behind it. -/
def IsReached (s : ScanState) (row : Nat) : Prop :=
  s.rowEnd = .plain → s.depth = 0 → ∃ t ∈ s.tokens.toList, t.stop.row = row

section Advance

variable {marks : List Token} {indents : List Nat} {r : RowTokens} {ended joins : Prop} {d : Nat}

theorem isRead_advance (h : s.IsRead) (hm : ∀ m ∈ marks, m.start.row ≤ s.row ∧ m.stop.row = s.row)
    (on : ∀ t ∈ r.tokens, t.IsOn s.row)
    (literal : ∀ l, r.rowEnd = .inLiteral l → l.start.row = s.row) :
    ({ s with indents := indents }.advance marks r).IsRead := by
  constructor
  · intro t ht
    rw [toList_tokens_advance, List.append_assoc] at ht
    simp only [advance]
    rcases List.mem_append.mp ht with ht | ht
    · have := h.tokens t ht
      omega
    · rcases List.mem_append.mp ht with ht | ht
      · have := hm t ht
        omega
      · obtain ⟨start, stop⟩ := on t ht
        omega
  · intro l hl
    exact Nat.lt_succ_of_le (Nat.le_of_eq (literal l hl))

theorem isRead_scan (h : s.IsRead) (hm : ∀ m ∈ marks, m.start.row ≤ s.row ∧ m.stop.row = s.row)
    (scan : Scanned s.row ended joins d r) :
    ({ s with indents := indents }.advance marks r).IsRead :=
  isRead_advance h hm scan.isOn fun _ hl => (scan.start_of_inLiteral hl).1

/-- A row that ends in a newline and leaves nothing open ends in a token. -/
theorem isReached_scan (he : ended) (scan : Scanned s.row ended joins d r) :
    ({ s with indents := indents }.advance marks r).IsReached s.row := by
  intro plain zero
  rcases scan.foldl_step ⟨[], d, []⟩ rfl with ⟨-, goes⟩ | ⟨-, -, -, t, last, -⟩
  · exact absurd zero (goes he plain)
  · have ht := List.mem_of_getLast? last
    refine ⟨t, ?_, (scan.isOn t ht).2⟩
    rw [toList_tokens_advance]
    exact List.mem_append_right _ ht

end Advance

theorem scanned_of_newline {rest : Text} {items : List RowItem} {row column depth : Nat}
    {line : Text} {r : RowTokens} (hi : Itemized rest items) (newline : rest.getLast? = some '\n')
    (h : RowItem.tokens row line depth column items = .ok r) : Scanned row True True depth r :=
  scanned_tokens hi (fun _ => newline) (fun _ => trivial) h

theorem isRead_of_feeds (h : Feeds s line t) (newline : line.getLast? = some '\n')
    (quoted : ∀ l, s.rowEnd = .inLiteral l → Lexeme.isQuote l.delimiter.mark) (read : s.IsRead) :
    t.IsRead ∧ t.IsReached s.row := by
  cases h with
  | nothing _ _ between =>
      have := isGap_of_betweenStatements? between '\n' (List.mem_of_getLast? newline)
      exact absurd this (by decide)
  | literalEnd he hn scan =>
      have scanned := scanned_of_newline (itemized_list _)
        (getLast?_drop_of_closing? (quoted _ he) hn newline) scan
      refine ⟨isRead_scan read ?_ scanned, isReached_scan trivial scanned⟩
      simpa [closingToken] using Nat.le_of_lt (read.literal _ he)
  | literalMore he hn more =>
      have above := read.literal _ he
      refine ⟨⟨fun u hu => ?_, fun l hl => ?_⟩, fun plain => by cases plain⟩
      · have := read.tokens u (by simpa using hu)
        simp only [advance]
        omega
      · obtain rfl := RowEnd.inLiteral.inj hl
        exact Nat.lt_succ_of_lt above
  | continued he scan =>
      have scanned := scanned_of_newline (itemized_list line) newline scan
      exact ⟨isRead_scan read (by simp) scanned, isReached_scan trivial scanned⟩
  | between he hd between =>
      cases isBetween_of_betweenStatements? between with
      | comment =>
          refine ⟨isRead_advance read (by simp) (by simp [Token.IsOn]) (by simp), fun _ _ => ?_⟩
          rw [toList_tokens_advance]
          exact ⟨_, List.mem_append_right _ (.tail _ (.head _)), rfl⟩
      | blank =>
          refine ⟨isRead_advance read (by simp) (by simp [Token.IsOn]) (by simp), fun _ _ => ?_⟩
          rw [toList_tokens_advance]
          exact ⟨_, List.mem_append_right _ (.head _), rfl⟩
  | indented he hd between deeper scan =>
      have scanned := scanned_of_newline (itemized_list _) (getLast?_dropWhile_isGap newline) scan
      exact ⟨isRead_scan read (by simp [indentToken]) scanned, isReached_scan trivial scanned⟩
  | aligned he hd between indents inner width scan =>
      have scanned := scanned_of_newline (itemized_list _) (getLast?_dropWhile_isGap newline) scan
      exact ⟨isRead_scan read (by simp [dedentToken]) scanned, isReached_scan trivial scanned⟩

/-- Behind rows that end in newlines everything read is settled, unless something is open. -/
structure IsSettled (rows : Rows) (s : ScanState) : Prop where
  stands : s.Stands rows
  ready : s.IsReady rows
  read : s.IsRead
  reached : s.row ≠ 1 → s.IsReached (s.row - 1)

theorem isSettled_initial (rows : Rows) : initial.IsSettled rows :=
  ⟨(stands_initial rows).1, (stands_initial rows).2, ⟨by simp [initial], nofun⟩, absurd rfl⟩

theorem isSettled_of_feedsAll {done : List Text} {source : Text} (h : FeedsAll s lines t)
    (ended : ∀ line ∈ lines, line.getLast? = some '\n') {more : List Text}
    (split : Text.rows source = done ++ (lines ++ more)) (hrow : s.row = done.length + 1)
    (settled : s.IsSettled (Rows.ofSource source)) :
    t.IsSettled (Rows.ofSource source) ∧ t.row = done.length + lines.length + 1 := by
  induction h generalizing done with
  | nil => exact ⟨settled, hrow⟩
  | cons fed rest ih =>
      rename_i s u _ line lines
      have newline := ended line (by simp)
      have here := Rows.row_ofSource split
      rw [← hrow] at here
      obtain ⟨stands, ready⟩ := stands_of_feeds fed here settled.stands settled.ready
      have quoted : ∀ l, s.rowEnd = .inLiteral l → Lexeme.isQuote l.delimiter.mark := by
        intro l hl
        rcases settled.stands.place with between | ⟨a, -, within⟩
        · rw [between.plain] at hl
          cases hl
        · exact (within.literal l hl).2.2
      obtain ⟨read, reached⟩ := isRead_of_feeds fed newline quoted settled.read
      have next := row_of_feeds fed (List.mem_of_getLast? newline)
      have settled' : u.IsSettled (Rows.ofSource source) :=
        ⟨stands, ready newline, read, fun _ => by rwa [next]⟩
      have split' : Text.rows source = (done ++ [line]) ++ (lines ++ more) := by
        simpa using split
      obtain ⟨final, row⟩ := ih (fun l hl => ended l (List.mem_cons_of_mem _ hl)) split'
        (by simp [next, hrow]) settled'
      refine ⟨final, row.trans ?_⟩
      simp only [List.length_append, List.length_cons, List.length_nil]
      omega

end ScanState

end StyleGuide
