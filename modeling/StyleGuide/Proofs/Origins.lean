import StyleGuide.Proofs.LogicalLine.Origin

/-! # Offsets lead back to the bytes they stand for

Each byte of a logical line that is neither hidden by a mask nor a space in the place of a row break
stands in the source at the place that it has been taken from. The offset of the byte is resolved to
this place on the row on which the token of the byte starts, as far as the row goes in front of its
terminator. Only a literal over several rows has bytes of its own or behind it on another row, and
these are resolved to the wrong one.
-/

namespace StyleGuide.LogicalLine

variable {source : Text} {tokens run : List Token} {l : LogicalLine} {t u : Token} {k n : Nat}
  {o : Origin} {p : Position}

/-- A byte `b`, `k` bytes behind the start of the token `t`, has been taken from `p`. -/
structure IsTaken (rows : Rows) (t : Token) (k : Nat) (b : UInt8) (p : Position) : Prop where
  byte : (Text.bytes (rows.row p.row))[p.column]? = some b
  column : p.row = t.start.row → p.column = t.start.column + k
  below : p.row ≠ t.start.row → t.kind = .string ∧ t.start.row < t.stop.row

/-- A token on one row is a part of the row, and a literal over several rows starts in front of the
    terminator of its first. -/
theorem not_mem_newline_of_isSet {done more : List Text} {line before behind : Text}
    (read : tokenize source = .ok tokens) (ht : t ∈ tokens) (set : t.IsSet (Rows.ofSource source))
    (ne : t.text ≠ []) (split : Text.rows source = done ++ line :: more)
    (whole : before ++ behind = line)
    (start : t.start = ⟨done.length + 1, Text.byteLength before⟩) :
    '\n' ∉ before ∧ (t.start.row = t.stop.row → '\n' ∉ t.text.dropLast) := by
  have row := Rows.row_ofSource split
  cases set with
  | @onRow front held held' same =>
      have here : front ++ t.text <+: line := by
        have := held'.1
        rwa [← same, start, row] at this
      have eq : front = before := by
        refine Text.eq_of_prefix_of_byteLength_eq ((List.prefix_append _ _).trans here)
          ⟨behind, whole⟩ ?_
        rw [held.2, start]
      obtain ⟨after, rest⟩ := here
      obtain ⟨init, last, text⟩ := (List.eq_nil_or_concat t.text).resolve_left ne
      rw [List.concat_eq_append] at text
      have around : (front ++ init) ++ last :: after = line := by
        rw [← rest, text]
        simp
      have free := not_mem_newline_of_row split around
      rw [eq, List.mem_append, not_or] at free
      exact ⟨free.1, fun _ => by simpa [text] using free.2⟩
  | acrossRows string _ below =>
      have edged := edged_of_tokenize read t ht (Token.isKnown_of_string string)
      have inside := edged.start
      rw [start] at inside
      exact ⟨not_mem_newline_of_inside split whole inside, fun same => by omega⟩

/-- The bytes of a token that are not hidden have been taken from its place. -/
theorem isTaken_of_shownOrigins (read : tokenize source = .ok tokens) (ht : t ∈ tokens)
    (solid : t.isSolid) (set : t.IsSet (Rows.ofSource source))
    (h : (shownOrigins t)[k]? = some o) (hp : o.place = some p) :
    o.token = t ∧ IsTaken (Rows.ofSource source) t k o.byte p := by
  obtain ⟨token, byte, place⟩ := of_getElem?_shownOrigins h hp
  obtain ⟨done, line, more, before, behind, split, whole, part, start⟩ :=
    exists_row_of_isCut (isCut_of_isSolid read ht solid)
  have ne : t.text ≠ [] := by
    intro none
    rw [none] at place
    cases place
  have inner := not_mem_newline_of_isSet read ht set ne split whole start
  rw [start] at place
  refine ⟨token, ?_, ?_, fun other => ?_⟩
  · rw [getElem?_row_of_places split whole inner.1 part place, byte]
  · rw [start]
    exact (Position.column_of_places place).2
  · cases set with
    | onRow _ _ same =>
        have on := Position.row_of_places (inner.2 same) place
        rw [start] at other
        exact absurd on other
    | acrossRows string _ below => exact ⟨string, below⟩

/-- The bytes behind a token on its row have been taken from there. -/
theorem isTaken_of_gapOrigins (set : t.IsSet (Rows.ofSource source))
    (before : (Rows.ofSource source).Before t.stop u.start)
    (length : Text.byteLength t.shown = Text.byteLength t.text)
    (h : (gapOrigins (Rows.ofSource source) t u)[k]? = some o) (hp : o.place = some p) :
    o.token = t ∧
      IsTaken (Rows.ofSource source) t (Text.byteLength t.shown + k) o.byte p := by
  obtain ⟨token, same, byte, rfl⟩ := of_getElem?_gapOrigins h hp
  refine ⟨token, ?_, fun on => ?_, fun other => ?_⟩
  · cases before with
    | below h => omega
    | behind held held' row =>
        rw [gap, if_pos row, held.slice_eq held' row] at byte
        obtain ⟨after, whole⟩ := held'.1
        rw [← row] at whole
        rw [← whole, ← held.2, List.append_assoc, Text.getElem?_bytes_append,
          Text.getElem?_bytes_of_lt, byte]
        rw [← Text.length_bytes]
        exact (List.getElem?_eq_some_iff.mp byte).1
  · cases set with
    | onRow held held' row =>
        simp only
        rw [← held'.2, Text.byteLength_append, held.2, length]
        omega
    | acrossRows _ _ below => exact absurd on.symm (Nat.ne_of_lt below)
  · cases set with
    | onRow _ _ row => exact absurd row.symm other
    | acrossRows string _ below => exact ⟨string, below⟩

/-- The bytes from the start of a token on, up to the start of the next, have been taken from where
    they are looked for. -/
theorem isTaken_of_origins {ts : List Token} (read : tokenize source = .ok tokens) (ht : t ∈ tokens)
    (solid : t.isSolid) (set : t.IsSet (Rows.ofSource source))
    (length : Text.byteLength t.shown = Text.byteLength t.text)
    (next : ∀ u ∈ ts.head?, (Rows.ofSource source).Before t.stop u.start ∧
      k < Text.byteLength t.shown + Text.byteLength (gap (Rows.ofSource source) t u))
    (h : (shownOrigins t ++ origins.go (Rows.ofSource source) t ts)[k]? = some o)
    (hp : o.place = some p) : o.token = t ∧ IsTaken (Rows.ofSource source) t k o.byte p := by
  have width : (shownOrigins t).length = Text.byteLength t.shown := by
    rw [← Text.length_bytes, ← byte_shownOrigins length, List.length_map]
  by_cases short : k < Text.byteLength t.shown
  · rw [List.getElem?_append_left (by omega)] at h
    exact isTaken_of_shownOrigins read ht solid set h hp
  · rw [List.getElem?_append_right (by omega), width] at h
    obtain ⟨j, rfl⟩ := Nat.exists_eq_add_of_le (Nat.le_of_not_lt short)
    rw [Nat.add_sub_cancel_left] at h
    cases ts with
    | nil => cases h
    | cons u ts =>
        obtain ⟨before, near⟩ := next u rfl
        have within : j < (gapOrigins (Rows.ofSource source) t u).length := by
          rw [← List.length_map (f := Origin.byte), byte_gapOrigins, Text.length_bytes]
          exact Nat.lt_of_add_lt_add_left near
        rw [origins.go, List.append_assoc, List.getElem?_append_left within] at h
        exact isTaken_of_gapOrigins set before length h hp

/-- Each byte at the start of what the tokens come to has an origin. -/
theorem exists_origin_of_lt {rows : Rows} {ts : List Token} {text : Text}
    (length : ∀ t ∈ ts, Text.byteLength t.shown = Text.byteLength t.text)
    (part : text <+: join (pieces rows ts)) (lt : n < Text.byteLength text) :
    ∃ o, (origins rows ts)[n]? = some o ∧ (Text.bytes text)[n]? = some o.byte := by
  have found := List.getElem?_eq_getElem (l := Text.bytes text) (by simpa using lt)
  obtain ⟨w, hw⟩ := part
  have bytes : ((origins rows ts).map Origin.byte)[n]? =
      (Text.bytes (join (pieces rows ts)))[n]? := by rw [byte_origins length]
  simp only [← hw, Text.getElem?_bytes_of_lt lt, found, List.getElem?_map] at bytes
  obtain ⟨o, ho, byte⟩ := Option.map_eq_some_iff.mp bytes
  exact ⟨o, ho, by rw [found, byte]⟩

/-- Each byte of a logical line that has been taken from the source stands at its place there. Its
    offset is resolved to this place exactly if the place is on the row on which the token of the
    byte starts and not beyond the end of that row. Only a literal over several rows can have its
    own bytes, or those behind it, on another row. -/
theorem resolve_eq_place_iff (read : tokenize source = .ok tokens) (sub : run <:+: tokens)
    (hl : ofTokens? (Rows.ofSource source) run = some l) (lt : n < Text.byteLength l.text) :
    let rows := Rows.ofSource source
    ∃ o, (origins rows (run.filter Token.isContent))[n]? = some o ∧
      (Text.bytes l.text)[n]? = some o.byte ∧
      ∀ p ∈ o.place, (Text.bytes (rows.row p.row))[p.column]? = some o.byte ∧
        (l.resolve rows n = p ↔
          p.row = o.token.start.row ∧ p.column ≤ Text.byteLength (rows.shown p.row)) ∧
        (p.row ≠ o.token.start.row →
          o.token.kind = .string ∧ o.token.start.row < o.token.stop.row) := by
  intro rows
  obtain ⟨front, as, t, bs, content, text, le, next, place⟩ := exists_resolve_eq hl n
  have mem {u : Token} (hu : u ∈ as ++ t :: bs) : u ∈ tokens ∧ u.isContent := by
    rw [← content] at hu
    exact ⟨sub.subset (List.mem_filter.mp hu).1, (List.mem_filter.mp hu).2⟩
  have length : ∀ u ∈ as ++ t :: bs, Text.byteLength u.shown = Text.byteLength u.text := by
    intro u hu
    apply byteLength_shown
    intro string
    exact (edged_of_tokenize read u (mem hu).1 (Token.isKnown_of_string string)).literal string
  obtain ⟨q, ordered⟩ := exists_ordered read sub
  have trimmed := text_of_ofTokens? hl
  rw [content] at text ordered trimmed ⊢
  have part : l.text <+: join (pieces rows (as ++ t :: bs)) :=
    trimmed ▸ Text.dropEndWhile_prefix _ _
  obtain ⟨o, ho, byte⟩ := exists_origin_of_lt length part lt
  refine ⟨o, ho, byte, fun p hp => ?_⟩
  obtain ⟨os, parts, ahead⟩ := exists_origins_append length text
  obtain ⟨k, rfl⟩ := Nat.exists_eq_add_of_le le
  have ht : t ∈ as ++ t :: bs := by simp
  have set := ordered.isSet_of_mem ht
  have near : ∀ u ∈ bs.head?, rows.Before t.stop u.start ∧
      k < Text.byteLength t.shown + Text.byteLength (gap rows t u) := by
    intro u hu
    obtain ⟨bs, rfl⟩ := List.head?_eq_some_iff.mp hu
    have pair : [t, u].Sublist (as ++ t :: u :: bs) :=
      ((List.nil_sublist bs).cons_cons u |>.cons_cons t).trans (List.sublist_append_right as _)
    have reach : _ < Text.byteLength (front ++ t.shown ++ gap rows t u) := next u rfl
    simp only [Text.byteLength_append] at reach
    exact ⟨ordered.before_of_sublist pair, by omega⟩
  rw [parts, ← ahead, List.getElem?_append_right (by omega), Nat.add_sub_cancel_left] at ho
  obtain ⟨rfl, taken⟩ := isTaken_of_origins read (mem ht).1
    (Token.isSolid_of_isContent (mem ht).2) set (length t ht) near ho hp
  refine ⟨taken.byte, ?_, taken.below⟩
  rw [place rows, Nat.add_sub_cancel_left]
  constructor
  · rintro rfl
    exact ⟨rfl, Nat.min_le_right _ _⟩
  · rintro ⟨row, inside⟩
    have column := taken.column row
    rw [row] at inside
    rw [← column, Nat.min_eq_left inside, ← row]

/-- Behind a mask and a row break, a name on the second row is found there. -/
theorem resolve_eq_place_of_masked :
    let source := "s = 'é' + [a,\n  b]\n".toList
    let rows := Rows.ofSource source
    ∃ tokens l, tokenize source = .ok tokens ∧ ofTokens? rows tokens = some l ∧
      l.text = "s = 'xx' + [a, b]".toList ∧ l.resolve rows 15 = ⟨2, 2⟩ ∧
      (Text.bytes (rows.row 2))[2]? = (Text.bytes l.text)[15]? := by
  intro source rows
  have built : ∃ tokens ∈ (tokenize source).toOption, ∃ l ∈ ofTokens? rows tokens,
      l.text = "s = 'xx' + [a, b]".toList ∧
        ((origins rows (tokens.filter Token.isContent))[15]?.map fun o =>
          (o.token.start.row, o.place)) = some (2, some ⟨2, 2⟩) ∧
        Text.byteLength (rows.shown 2) = 4 := by
    decide +kernel
  obtain ⟨tokens, read, l, hl, text, origin, width⟩ := built
  obtain ⟨o, ho, byte, found⟩ := resolve_eq_place_iff (n := 15) (eq_ok_of_toOption read)
    List.infix_rfl hl (by rw [text]; decide)
  rw [ho, Option.map_some, Option.some.injEq, Prod.mk.injEq] at origin
  obtain ⟨here, iff, -⟩ := found ⟨2, 2⟩ origin.2
  refine ⟨tokens, l, eq_ok_of_toOption read, hl, text, iff.mpr ⟨origin.1.symm, ?_⟩, ?_⟩
  · exact Nat.le_of_ble_eq_true (by rw [width]; rfl)
  · exact here.trans byte.symm

/-- The space behind a literal that ends on the second row is looked for on the first. -/
theorem resolve_ne_place_behind_rows :
    let source := "x = \"\"\"a\nb\"\"\" + 1\n".toList
    let rows := Rows.ofSource source
    ∃ tokens ∈ (tokenize source).toOption, ∃ l ∈ ofTokens? rows tokens,
      l.text = "x = \"\"\"xxx\"\"\" + 1".toList ∧
        (origins rows (tokens.filter Token.isContent))[13]?.map (fun o => (o.byte, o.place)) =
          some (32, some ⟨2, 4⟩) ∧
        l.resolve rows 13 = ⟨1, 8⟩ := by
  decide +kernel

end StyleGuide.LogicalLine
