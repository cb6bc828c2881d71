import StyleGuide.Proofs.Lexeme.Unended
import StyleGuide.Proofs.TokenStream.Cover

/-! # The edges of tokens

Words, numbers, operators, literals and comments begin and end in front of the terminators of their
rows, and each literal, on however many rows it stands, has the shape of one.
-/

namespace StyleGuide

/-- A position between two characters of its row or at its end, in front of the terminator. -/
def Rows.Inside (rows : Rows) (p : Position) : Prop :=
  ∃ before, before <+: rows.shown p.row ∧ Text.byteLength before = p.column

theorem Rows.inside_of_prefix {rows : Rows} {before part : Text} {n : Nat}
    (h : before ++ part <+: rows.row n) (last : ∀ c ∈ part.getLast?, c ≠ '\n' ∧ c ≠ '\r')
    (ne : part ≠ []) : rows.Inside ⟨n, Text.byteLength (before ++ part)⟩ := by
  refine ⟨_, Text.prefix_withoutTerminator h fun c hc => last c ?_, rfl⟩
  rwa [List.getLast?_append_of_ne_nil _ ne] at hc

theorem Rows.inside_of_head {rows : Rows} {before part : Text} {n : Nat}
    (h : before ++ part <+: rows.row n) (head : ∀ c ∈ part.head?, c ≠ '\n' ∧ c ≠ '\r')
    (ne : part ≠ []) : rows.Inside ⟨n, Text.byteLength before⟩ := by
  obtain ⟨c, rest, rfl⟩ := List.exists_cons_of_ne_nil ne
  have start : before ++ [c] <+: rows.row n :=
    ((List.prefix_append_right_inj before).mpr ⟨rest, rfl⟩).trans h
  have inner := Text.prefix_withoutTerminator start fun d hd => head d (by simpa using hd)
  exact ⟨before, (List.prefix_append _ _).trans inner, rfl⟩

/-- A row holds the last character of a part in front of the end of the part. -/
theorem Rows.Holds.exists_last {rows : Rows} {before part : Text} {p : Position}
    (h : rows.Holds (before ++ part) p) (ne : part ≠ []) :
    ∃ x c, part.getLast? = some c ∧ rows.Holds (x ++ [c]) p := by
  obtain ⟨s, c, rfl⟩ := (List.eq_nil_or_concat part).resolve_left ne
  rw [List.concat_eq_append, ← List.append_assoc] at h
  exact ⟨before ++ s, c, by simp, h⟩

namespace Lexeme

/-- The lexemes of a kind that is known begin and end in no terminator. -/
theorem Takes.edges {k : Lexeme} {text behind : Text} (taken : k.Takes text behind)
    (he : k.endsRow = false) (known : k ≠ .stray) :
    (∀ c ∈ text.head?, c ≠ '\n' ∧ c ≠ '\r') ∧ ∀ c ∈ text.getLast?, c ≠ '\n' ∧ c ≠ '\r' := by
  obtain ⟨c, more, n, rfl, read, starts⟩ := taken.starts
  rw [List.cons_append] at read
  have free {p : Char → Bool} (hn : p '\n' = false) (hr : p '\r' = false)
      (all : ∀ d ∈ (c :: (more ++ behind)).take n, p d) :
      (∀ d ∈ (c :: more).head?, d ≠ '\n' ∧ d ≠ '\r') ∧
        ∀ d ∈ (c :: more).getLast?, d ≠ '\n' ∧ d ≠ '\r' := by
    have each : ∀ d ∈ c :: more, d ≠ '\n' ∧ d ≠ '\r' := by
      intro d hd
      have := all d (by rwa [read])
      constructor <;> rintro rfl <;> simp_all
    exact ⟨fun d hd => each d (List.mem_of_mem_head? hd),
      fun d hd => each d (List.mem_of_getLast? hd)⟩
  have within {p : Char → Bool} (hn : p '\n' = false) (hr : p '\r' = false)
      (length : n = ((c :: (more ++ behind)).takeWhile p).length) :=
    free hn hr fun d hd => by
      rw [length, ← List.prefix_iff_eq_take.mp (List.takeWhile_prefix p)] at hd
      exact List.mem_takeWhile_imp hd
  cases starts with
  | terminator | joint | openLiteral => cases he
  | stray => exact absurd rfl known
  | comment => exact within (p := fun d => d != '\r' && d != '\n') (by decide) (by decide) rfl
  | number hn => exact free (by decide) (by decide) (reads_number? hn).1.2
  | operator hn => exact free (by decide) (by decide) (reads_operator? hn).1.2
  | word => exact within (by decide) (by decide) rfl
  | literal hn =>
      obtain ⟨literal, -⟩ := isLiteral_of_literal? hn
      rw [read] at literal
      obtain ⟨head, s, d, eq, hd⟩ := literal.edges
      refine ⟨head, fun e he => ?_⟩
      rw [eq, List.getLast?_concat] at he
      obtain rfl := Option.some.inj he
      exact ne_newline_of_isQuote hd

end Lexeme

namespace Token

/-- A token with a place of its own and of a kind that is known. -/
def isKnown (t : Token) : Bool := t.isSolid && t.kind != .stray

theorem isKnown_of_comment {t : Token} (kind : t.kind = .comment) : t.isKnown := by
  simp [isKnown, isSolid, kind, Kind.isLayout]

theorem isKnown_of_string {t : Token} (kind : t.kind = .string) : t.isKnown := by
  simp [isKnown, isSolid, kind, Kind.isLayout]

/-- Where a token begins and ends on its rows. -/
structure IsEdged (rows : Rows) (t : Token) : Prop where
  line : t.line = rows.row t.start.row
  start : rows.Inside t.start
  stop : rows.Inside t.stop
  literal : t.kind = .string → IsLiteral t.text
  last : ∃ before c, t.text.getLast? = some c ∧ rows.Holds (before ++ [c]) t.stop

end Token

/-- Where an open literal begins. -/
structure OpenLiteral.IsEdged (rows : Rows) (l : OpenLiteral) : Prop where
  line : l.line = rows.row l.start.row
  start : rows.Inside l.start
  unended : IsUnended l.delimiter l.text

/-- The known tokens of a row, and the literal that is open at its end, are edged. -/
structure EdgedOn (rows : Rows) (r : RowTokens) : Prop where
  tokens : ∀ t ∈ r.tokens, t.isKnown → t.IsEdged rows
  literal : ∀ l, r.rowEnd = .inLiteral l → l.IsEdged rows

section Row

variable {rows : Rows} {row column depth : Nat} {line before rest : Text} {items : List RowItem}
  {r : RowTokens}

theorem RowItem.kind_ne_stray {item : RowItem} (h : item.kind ≠ .stray) :
    item.lexeme ≠ .stray := by
  intro stray
  exact h (by rw [kind, stray])

theorem edgedOn_tokens (hrow : rows.row row = line) (hi : Itemized rest items)
    (whole : before ++ rest = line) (hc : Text.byteLength before = column)
    (h : RowItem.tokens row line depth column items = .ok r) : EdgedOn rows r := by
  induction hi generalizing before column depth r with
  | nil hg =>
      obtain rfl := Except.ok.inj h
      exact ⟨nofun, nofun⟩
  | last hg taken he =>
      rename_i gap text behind k
      have start : before ++ gap ++ text <+: rows.row row :=
        ⟨behind, by rw [hrow, ← whole]; simp⟩
      cases RowItem.leads_of_tokens h with
      | joint => exact ⟨nofun, nofun⟩
      | openLiteral hk =>
          rename_i q
          refine ⟨nofun, fun l hl => ?_⟩
          obtain rfl := RowEnd.inLiteral.inj hl
          obtain ⟨c, more, n, rfl, read, starts⟩ := taken.starts
          obtain rfl : k = .openLiteral q := hk
          have unended : IsUnended q (c :: more) := by
            cases starts with
            | openLiteral hq =>
                rw [List.cons_append, List.take_succ_cons, List.take_length] at read
                obtain rfl : behind = [] := by simpa using read
                simpa using isUnended_of_literal? hq
          refine ⟨hrow.symm, ?_, unended⟩
          have := Rows.inside_of_head start unended.head (by simp)
          rwa [Text.byteLength_append, hc] at this
      | terminator =>
          refine ⟨fun t ht known => ?_, nofun⟩
          rw [List.mem_singleton.mp ht] at known
          simp only [Token.isKnown, Token.isSolid] at known
          split at known <;> cases known
      | token he' =>
          rw [he] at he'
          cases he'
  | cons hg taken he _ ih =>
      rename_i gap text behind k items _
      cases RowItem.leads_of_tokens h with
      | joint hk | openLiteral hk | terminator hk =>
          simp only at hk
          rw [hk] at he
          cases he
      | token _ ok rest =>
          have parts : before ++ gap ++ text ++ behind = line := by simpa using whole
          have start : before ++ gap ++ text <+: rows.row row := ⟨behind, by rw [hrow, parts]⟩
          obtain ⟨tokens, literal⟩ := ih parts (by simp [hc, RowItem.token, Nat.add_assoc]) rest
          refine ⟨fun t ht known => ?_, literal⟩
          rcases List.mem_cons.mp ht with rfl | ht
          · have kind : k ≠ .stray := by
              simp only [Token.isKnown, Bool.and_eq_true, bne_iff_ne] at known
              exact RowItem.kind_ne_stray known.2
            obtain ⟨head, last⟩ := taken.edges he kind
            have spelled : (RowItem.token ⟨gap, k, text⟩ row line column).IsSpelled :=
              RowItem.isSpelled taken ok he
            refine ⟨hrow.symm, ?_, ?_, spelled.literal, ?_⟩
            · have := Rows.inside_of_head start head taken.ne_nil
              rwa [Text.byteLength_append, hc] at this
            · have := Rows.inside_of_prefix start last taken.ne_nil
              rwa [Text.byteLength_append, Text.byteLength_append, hc] at this
            · refine Rows.Holds.exists_last ⟨start, ?_⟩ taken.ne_nil
              rw [Text.byteLength_append, Text.byteLength_append, hc]
              rfl
          · exact tokens t ht known

theorem edgedOn_between {s : ScanState} (hrow : rows.row s.row = line)
    (h : s.IsBetween line r) : EdgedOn rows r := by
  cases h with
  | comment hg hl hc he =>
      rename_i gap rest comment ending
      refine ⟨fun t ht known => ?_, nofun⟩
      simp only [List.mem_cons, List.not_mem_nil, or_false] at ht
      rcases ht with rfl | rfl
      · have start : gap ++ comment <+: rows.row s.row := ⟨ending, by rw [hrow, hl]⟩
        have marked := Text.dropEndWhile_append (s := []) (c := '#')
          (p := fun c => c == '\n' || c == '\r') (by decide) rest
        have first : comment = '#' :: Text.withoutTerminator rest := hc.trans marked
        have ne : comment ≠ [] := by simp [first]
        refine ⟨hrow.symm, ?_, ?_, nofun, ?_⟩
        · exact Rows.inside_of_head start (by simp [first]) ne
        · have last := Text.ne_newline_of_getLast?_withoutTerminator ('#' :: rest)
          rw [← hc] at last
          have := Rows.inside_of_prefix start last ne
          rwa [Text.byteLength_append] at this
        · exact Rows.Holds.exists_last ⟨start, Text.byteLength_append _ _⟩ ne
      · cases known
  | blank hg hl hc =>
      refine ⟨fun t ht known => ?_, nofun⟩
      rw [List.mem_singleton.mp ht] at known
      cases known

end Row

/-! ## Sources -/

namespace ScanState

variable {rows : Rows} {s t : ScanState} {line : Text}

/-- What has been read is edged. -/
structure IsEdged (rows : Rows) (s : ScanState) : Prop where
  tokens : ∀ t ∈ s.tokens.toList, t.isKnown → t.IsEdged rows
  literal : ∀ l, s.rowEnd = .inLiteral l → l.IsEdged rows

theorem isEdged_advance {marks : List Token} {r : RowTokens} {indents : List Nat}
    (h : s.IsEdged rows) (hm : ∀ m ∈ marks, m.isKnown → m.IsEdged rows) (hr : EdgedOn rows r) :
    ({ s with indents := indents }.advance marks r).IsEdged rows := by
  refine ⟨fun t ht known => ?_, hr.literal⟩
  rw [toList_tokens_advance, List.append_assoc] at ht
  rcases List.mem_append.mp ht with ht | ht
  · exact h.tokens t ht known
  · rcases List.mem_append.mp ht with ht | ht
    · exact hm t ht known
    · exact hr.tokens t ht known

theorem isEdged_of_feeds (h : Feeds s line t) (hrow : rows.row s.row = line)
    (newline : EndsAtNewline line) (edged : s.IsEdged rows) : t.IsEdged rows := by
  have gap := List.takeWhile_append_dropWhile (p := Lexeme.isGap) (l := line)
  cases h with
  | nothing => exact edged
  | literalEnd he hn scan =>
      rename_i literal n r
      obtain ⟨line_eq, start, unended⟩ := edged.literal literal he
      have closed := unended.isLiteral hn
      have row := edgedOn_tokens hrow (itemized_list _) (List.take_append_drop n line) rfl scan
      refine isEdged_advance edged (fun m hm _ => ?_) row
      rw [List.mem_singleton.mp hm]
      obtain ⟨body, behind, rfl, rfl, -⟩ := Delimiter.exists_of_closing? hn
      obtain ⟨marks, hm⟩ := literal.delimiter.text_eq_append
      have stop : body ++ literal.delimiter.text <+: rows.row s.row := ⟨behind, hrow.symm⟩
      have ne := literal.delimiter.text_ne_nil
      refine ⟨line_eq, start, ?_, fun _ => closed, ?_⟩
      · have := Rows.inside_of_prefix stop (fun c hc => ?_) ne
        · simp only [closingToken]
          rwa [List.take_left]
        · rw [hm, List.getLast?_concat] at hc
          obtain rfl := Option.some.inj hc
          exact ne_newline_of_isQuote unended.isQuote
      · simp only [closingToken]
        rw [List.take_left, ← List.append_assoc, List.getLast?_append_of_ne_nil _ ne]
        exact Rows.Holds.exists_last (p := ⟨s.row, _⟩) ⟨stop, rfl⟩ ne
  | literalMore he hn more =>
      rename_i literal
      obtain ⟨line_eq, start, unended⟩ := edged.literal literal he
      refine ⟨fun u hu => edged.tokens u (by simpa using hu), fun l hl => ?_⟩
      obtain rfl := RowEnd.inLiteral.inj hl
      exact ⟨line_eq, start, unended.append hn more newline⟩
  | continued he scan =>
      exact isEdged_advance edged (List.forall_mem_nil _)
        (edgedOn_tokens hrow (itemized_list line) (List.nil_append line) rfl scan)
  | between he hd between =>
      exact isEdged_advance edged (List.forall_mem_nil _)
        (edgedOn_between hrow (isBetween_of_betweenStatements? between))
  | indented he hd between deeper scan =>
      refine isEdged_advance edged (fun m hm known => ?_)
        (edgedOn_tokens hrow (itemized_list _) gap rfl scan)
      rw [List.mem_singleton.mp hm] at known
      cases known
  | aligned he hd between indents inner width scan =>
      refine isEdged_advance edged (fun m hm known => ?_)
        (edgedOn_tokens hrow (itemized_list _) gap rfl scan)
      obtain ⟨w, -, rfl⟩ := List.mem_map.mp hm
      cases known

theorem isEdged_of_feedsAll {lines done : List Text} {source : Text} (h : FeedsAll s lines t)
    (shape : AreRows lines) (split : Text.rows source = done ++ lines)
    (hrow : lines ≠ [] → s.row = done.length + 1) (edged : s.IsEdged (Rows.ofSource source)) :
    t.IsEdged (Rows.ofSource source) := by
  induction h generalizing done with
  | nil => exact edged
  | cons fed rest ih =>
      rename_i s u _ line lines
      have row := Rows.row_ofSource split
      rw [← hrow (by simp)] at row
      have here := isEdged_of_feeds fed row (endsAtNewline_of_areRows shape) edged
      have split' : Text.rows source = (done ++ [line]) ++ lines := by simpa using split
      cases shape with
      | last => exact ih .nil split' (by simp) here
      | cons hn shape =>
          refine ih shape split' (fun _ => ?_) here
          rw [row_of_feeds fed (by simp), hrow (by simp), List.length_append]
          rfl

end ScanState

/-- The known tokens of a source are edged on its rows. -/
theorem edged_of_tokenize {source : Text} {tokens : List Token}
    (h : tokenize source = .ok tokens) :
    ∀ t ∈ tokens, t.isKnown → t.IsEdged (Rows.ofSource source) := by
  obtain ⟨s, fed, -, -, rfl⟩ := exists_of_tokenize h
  have edged := ScanState.isEdged_of_feedsAll fed (Text.areRows_rows source)
    (List.nil_append _).symm (fun _ => rfl) ⟨by simp [ScanState.initial], nofun⟩
  intro t ht known
  rcases List.mem_append.mp ht with ht | ht
  · exact edged.tokens t ht known
  · have := ScanState.not_isSolid_of_mem_endMarks ht
    simp [Token.isKnown, this] at known

/-- No token ends at the start of a row. -/
theorem column_pos_of_tokenize {source : Text} {tokens : List Token} {t : Token}
    (read : tokenize source = .ok tokens) (ht : t ∈ tokens) (solid : t.isSolid) :
    0 < t.stop.column := by
  obtain ⟨_, laid⟩ := laid_of_tokenize read
  cases laid.isSet_of_mem (List.mem_filter.mpr ⟨ht, solid⟩) with
  | onRow _ stop _ spelled =>
      obtain ⟨c, rest, text⟩ := List.exists_cons_of_ne_nil spelled.ne_nil
      rw [← stop.2, text, Text.byteLength_append, Text.byteLength_cons]
      have := c.utf8Size_pos
      omega
  | acrossRows string =>
      obtain ⟨before, c, -, holds⟩ :=
        (edged_of_tokenize read t ht (Token.isKnown_of_string string)).last
      rw [← holds.2, Text.byteLength_append, Text.byteLength_cons]
      have := c.utf8Size_pos
      omega

end StyleGuide
