import StyleGuide.Proofs.LogicalLine.Resolve
import StyleGuide.Proofs.Rule.Place
import StyleGuide.Proofs.TokenStream.Edge

/-! # Offsets inside rows

An offset in a logical line at which a rule may point is resolved to a place in an existing row,
between two characters and in front of the terminator. Up to the offset, the logical line shows as
many bytes behind the start of a token as the source has there: a mask is as long as its literal,
and the gap behind a token is that of the source unless a row ends in it.
-/

namespace StyleGuide

/-- A place that a report may show: in an existing row, in front of its terminator. -/
structure Rows.Shows (rows : Rows) (p : Position) : Prop where
  first : 1 ≤ p.row
  last : p.row ≤ rows.size
  inside : rows.Inside p

namespace Text

variable {source before part y : Text} {p q : Position}

theorem upTo_of_holds (h : (Rows.ofSource source).Holds before p) :
    source.upTo p = ((rows source).take (p.row - 1)).flatten ++ before := by
  rw [upTo, h.takeBytes_eq]

theorem upTo_append (hp : (Rows.ofSource source).Holds before p)
    (hq : (Rows.ofSource source).Holds (before ++ part) q) (row : p.row = q.row) :
    source.upTo q = source.upTo p ++ part := by
  rw [upTo_of_holds hp, upTo_of_holds hq, row, List.append_assoc]

/-- A source has its rows one behind the other. -/
theorem exists_append_row (h : source.HasPlace p) :
    ∃ below, source =
      ((rows source).take (p.row - 1)).flatten ++ ((Rows.ofSource source).row p.row ++ below) := by
  obtain ⟨pos, le, -⟩ := h
  obtain ⟨k, hk⟩ := Nat.exists_eq_add_of_lt pos
  rw [Nat.zero_add] at hk
  have lt : k < (rows source).length := by omega
  refine ⟨((rows source).drop (k + 1)).flatten, ?_⟩
  have row : (Rows.ofSource source).row p.row = (rows source)[k] := by
    rw [hk, row_ofSource, List.getElem?_eq_getElem lt]
    rfl
  rw [row, hk, Nat.add_sub_cancel, ← List.flatten_cons, ← List.drop_eq_getElem_cons lt,
    ← List.flatten_append, List.take_append_drop, flatten_rows]

theorem upTo_prefix (h : source.HasPlace p) : source.upTo p <+: source := by
  obtain ⟨below, whole⟩ := exists_append_row h
  obtain ⟨-, -, before, held⟩ := h
  obtain ⟨behind, row⟩ := held.1
  rw [upTo_of_holds held]
  refine ⟨behind ++ below, ?_⟩
  conv_rhs => rw [whole, ← row]
  simp

/-- As many bytes behind a place as the source has there lead to a place again, or beyond the end
    of the row. -/
theorem inside_min (h : source.HasPlace p) (hy : source.upTo p ++ y <+: source) :
    (Rows.ofSource source).Inside ⟨p.row, min (p.column + byteLength y)
      (byteLength ((Rows.ofSource source).shown p.row))⟩ := by
  obtain ⟨below, whole⟩ := exists_append_row h
  obtain ⟨-, -, before, held⟩ := h
  have start : before ++ y <+: (Rows.ofSource source).row p.row ++ below := by
    rw [upTo_of_holds held, List.append_assoc] at hy
    conv at hy => rhs; rw [whole]
    exact (List.prefix_append_right_inj _).mp hy
  have shown : (Rows.ofSource source).shown p.row <+: (Rows.ofSource source).row p.row ++ below :=
    (Text.dropEndWhile_prefix _ _).trans (List.prefix_append _ _)
  rw [← held.2, ← byteLength_append]
  rcases Nat.le_total (byteLength (before ++ y))
      (byteLength ((Rows.ofSource source).shown p.row)) with le | le
  · obtain ⟨r, hr⟩ := start
    obtain ⟨s, hs⟩ := shown
    obtain ⟨more, eq⟩ := exists_append_of_byteLength_le (hr.trans hs.symm) le
    exact ⟨before ++ y, ⟨more, eq.symm⟩, (Nat.min_eq_left le).symm⟩
  · exact ⟨_, List.prefix_rfl, (Nat.min_eq_right le).symm⟩

end Text

/-- What is no layout is a part of the source. -/
theorem isCut_of_isSolid {source : Text} {tokens : List Token} {t : Token}
    (read : tokenize source = .ok tokens) (ht : t ∈ tokens) (solid : t.isSolid) :
    t.IsCut source := by
  refine (isMark_or_isCut_of_tokenize read ht).resolve_left fun mark => ?_
  obtain ⟨-, kind | kind | kind⟩ := mark <;>
    simp [Token.isSolid, kind, Token.Kind.isLayout] at solid

/-! ## Masks -/

theorem byteLength_replicate_maskFiller (n : Nat) :
    Text.byteLength (List.replicate n maskFiller) = n := by
  induction n with
  | zero => rfl
  | succ n ih =>
      have one : maskFiller.utf8Size = 1 := rfl
      rw [List.replicate_succ, Text.byteLength_cons, ih, one, Nat.add_comm]

/-- A mask is as long as its literal. -/
theorem byteLength_mask {text : Text} (h : IsLiteral text) :
    Text.byteLength (mask text) = Text.byteLength text := by
  obtain ⟨hl, hq, single⟩ := h
  rw [mask_append hq hl single]
  simp [byteLength_replicate_maskFiller]

theorem byteLength_shown {t : Token} (h : t.kind = .string → IsLiteral t.text) :
    Text.byteLength t.shown = Text.byteLength t.text := by
  rw [Token.shown]
  split
  · next string => exact byteLength_mask (h string)
  · rfl

/-- Between two fillers of a body no place is exposed. -/
theorem not_isExposed {x g b rest : Text} {c : Char} (hg : ∀ d ∈ g, d = maskFiller) (ne : g ≠ [])
    (hb : ∀ d ∈ b, d = maskFiller) (ne' : b ≠ []) (hc : Lexeme.isQuote c) :
    ¬IsExposed (x ++ g) (b ++ c :: rest) := by
  obtain ⟨d, b, rfl⟩ := List.exists_cons_of_ne_nil ne'
  intro exposed
  cases exposed with
  | behind h =>
      rw [List.getLast?_append_of_ne_nil _ ne, List.getLast?_eq_some_getLast ne] at h
      exact h _ rfl (hg _ (List.getLast_mem ne))
  | front h => exact h d rfl (hb d (by simp))
  | name h =>
      obtain ⟨-, h⟩ := List.cons.inj h
      cases b with
      | nil =>
          obtain ⟨rfl, -⟩ := List.cons.inj h
          exact absurd hc (by decide)
      | cons e b =>
          obtain ⟨rfl, -⟩ := List.cons.inj h
          exact absurd (hb '=' (by simp)) (by decide)

/-- Up to an exposed place a mask has the length of a part of its literal. -/
theorem exists_prefix_of_mask {text x a b rest : Text} (h : IsLiteral text)
    (whole : mask text ++ rest = a ++ b)
    (le : Text.byteLength a ≤ Text.byteLength (mask text)) (exposed : IsExposed (x ++ a) b) :
    ∃ y, y <+: text ∧ Text.byteLength y = Text.byteLength a := by
  obtain ⟨hl, hq, single⟩ := h
  rename_i letters body q
  have filler : ∀ d ∈ List.replicate (Text.byteLength body) maskFiller, d = maskFiller :=
    fun d hd => (List.mem_replicate.mp hd).2
  have length := byteLength_replicate_maskFiller (Text.byteLength body)
  obtain ⟨marks, hm⟩ := q.exists_cons
  rw [mask_append hq hl single] at whole le
  generalize List.replicate (Text.byteLength body) maskFiller = fillers at whole le filler length
  have parts : letters ++ q.text ++ (fillers ++ (q.text ++ rest)) = a ++ b := by
    simpa using whole
  rcases List.append_eq_append_iff.mp parts with ⟨g, rfl, inner⟩ | ⟨g, eq, -⟩
  · rcases List.append_eq_append_iff.mp inner with ⟨g', rfl, last⟩ | ⟨g', rfl, rfl⟩
    · have short : Text.byteLength g' ≤ Text.byteLength q.text := by
        simp only [Text.byteLength_append] at le
        omega
      obtain ⟨behind, close⟩ := Text.exists_append_of_byteLength_le last.symm short
      refine ⟨letters ++ q.text ++ body ++ g', ⟨behind, ?_⟩, ?_⟩
      · conv_rhs => rw [close]
        simp [close]
      · simp only [Text.byteLength_append]
        omega
    · by_cases none : g = []
      · subst none
        exact ⟨letters ++ q.text, ⟨body ++ q.text, by simp⟩, by simp⟩
      · by_cases none' : g' = []
        · subst none'
          rw [List.append_nil] at length
          exact ⟨letters ++ q.text ++ body, List.prefix_append _ _, by simp [length]⟩
        · rw [← List.append_assoc, hm, List.cons_append] at exposed
          exact absurd exposed (not_isExposed (fun d hd => filler d (by simp [hd])) none
            (fun d hd => filler d (by simp [hd])) none' hq)
  · exact ⟨a, by rw [List.append_assoc, eq]; simp, rfl⟩

namespace LogicalLine

variable {rows : Rows} {source a b : Text} {tokens run : List Token} {l : LogicalLine}

theorem text_of_ofTokens? (hl : ofTokens? rows run = some l) :
    l.text = Text.trimEnd (join (pieces rows (run.filter Token.isContent))) := by
  obtain ⟨first, rest, content, of⟩ := exists_of_ofTokens? hl
  rw [of.text, content]

/-- Content stands in order. -/
theorem exists_ordered (read : tokenize source = .ok tokens) (sub : run <:+: tokens) :
    ∃ p, Ordered (Rows.ofSource source) p (run.filter Token.isContent) := by
  obtain ⟨q, laid⟩ := laid_of_tokenize read
  obtain ⟨p, r, part⟩ := laid.exists_of_infix (sub.filter Token.isSolid)
  exact ⟨p, part.ordered_content⟩

/-- Trimming keeps a literal and what stands in front of it. -/
theorem trimEnd_append_shown {t : Token} {front behind : Text} (string : t.kind = .string)
    (h : IsLiteral t.text) :
    Text.trimEnd (front ++ t.shown ++ behind) = front ++ t.shown ++ Text.trimEnd behind := by
  obtain ⟨m, c, hm, -, hc⟩ := exists_mask_eq h
  rw [Token.shown, if_pos string, hm, ← List.append_assoc]
  exact Text.dropEndWhile_append (fun hb => not_isFirm_of_isBlank hb (isFirm_of_isQuote hc)) _

/-- Up to an exposed place in what is shown of a token, its text has a part of the same length. -/
theorem exists_prefix_text {t : Token} {front behind : Text}
    (literal : t.kind = .string → IsLiteral t.text)
    (trimmed : front ++ a ++ b = Text.trimEnd (front ++ t.shown ++ behind))
    (le : Text.byteLength a ≤ Text.byteLength t.shown) (exposed : IsExposed (front ++ a) b) :
    ∃ y, y <+: t.text ∧ Text.byteLength y = Text.byteLength a := by
  by_cases string : t.kind = .string
  · rw [trimEnd_append_shown string (literal string), List.append_assoc, List.append_assoc,
      List.append_cancel_left_eq, Token.shown, if_pos string] at trimmed
    rw [Token.shown, if_pos string] at le
    exact exists_prefix_of_mask (literal string) trimmed.symm le exposed
  · obtain ⟨w, hw⟩ := Text.dropEndWhile_prefix Text.isBlank (front ++ t.shown ++ behind)
    rw [← Text.trimEnd, ← trimmed, List.append_assoc, List.append_assoc, List.append_assoc,
      List.append_cancel_left_eq] at hw
    obtain ⟨more, eq⟩ := Text.exists_append_of_byteLength_le hw le
    rw [Token.shown, if_neg string] at eq
    exact ⟨a, ⟨more, eq.symm⟩, rfl⟩

/-- A row break becomes one space at most. -/
theorem byteLength_gap_le {t u : Token} (below : t.stop.row < u.start.row) :
    Text.byteLength (gap rows t u) ≤ 1 := by
  rw [gap, if_neg (Nat.ne_of_lt below)]
  dsimp only
  split
  · exact Nat.le_refl 1
  · exact Nat.zero_le 1

/-- The gap in front of a token is that of the source, unless a row ends in it. -/
theorem upTo_append_gap {t u : Token} {g : Text} (hu : source.HasPlace u.start)
    (before : (Rows.ofSource source).Before t.stop u.start)
    (hg : g <+: gap (Rows.ofSource source) t u) (ne : g ≠ [])
    (short : Text.byteLength g < Text.byteLength (gap (Rows.ofSource source) t u)) :
    source.upTo t.stop ++ g <+: source := by
  cases before with
  | below h =>
      have le : Text.byteLength (gap (Rows.ofSource source) t u) ≤ 1 := byteLength_gap_le h
      exact absurd (Text.byteLength_eq_zero.mp (by omega)) ne
  | behind hp hq row =>
      rw [gap, if_pos row, hp.slice_eq hq row] at hg
      refine List.IsPrefix.trans ?_ (Text.upTo_prefix hu)
      rw [Text.upTo_append hp hq row]
      exact (List.prefix_append_right_inj _).mpr hg

/-- An exposed offset of a logical line means a place in the source that a report may show. -/
theorem shows_resolve (read : tokenize source = .ok tokens) (sub : run <:+: tokens)
    (hl : ofTokens? (Rows.ofSource source) run = some l) (whole : l.text = a ++ b)
    (exposed : IsExposed a b) :
    (Rows.ofSource source).Shows (l.resolve (Rows.ofSource source) (Text.byteLength a)) := by
  obtain ⟨front, as, t, bs, content, text, le, next, place⟩ :=
    exists_resolve_eq hl (Text.byteLength a)
  have mem {u : Token} (hu : u ∈ as ++ t :: bs) : u ∈ tokens ∧ u.isContent := by
    rw [← content] at hu
    exact ⟨sub.subset (List.mem_filter.mp hu).1, (List.mem_filter.mp hu).2⟩
  have cut {u : Token} (hu : u ∈ as ++ t :: bs) : u.IsCut source :=
    isCut_of_isSolid read (mem hu).1 (Token.isSolid_of_isContent (mem hu).2)
  have ht : t ∈ as ++ t :: bs := by simp
  have literal : t.kind = .string → IsLiteral t.text := fun string =>
    (edged_of_tokenize read t (mem ht).1 (Token.isKnown_of_string string)).literal string
  have trimmed := text_of_ofTokens? hl
  rw [text, whole] at trimmed
  obtain ⟨w, hw⟩ := Text.dropEndWhile_prefix Text.isBlank
    (front ++ t.shown ++ join (pieces.go (Rows.ofSource source) t bs))
  rw [← Text.trimEnd, ← trimmed, List.append_assoc, List.append_assoc] at hw
  obtain ⟨a, rfl⟩ := Text.exists_append_of_byteLength_le hw.symm le
  rw [List.append_assoc, List.append_cancel_left_eq] at hw
  have written := (cut ht).text
  -- the source has as many bytes behind the start of the token
  obtain ⟨y, hy, length⟩ : ∃ y, source.upTo t.start ++ y <+: source ∧
      Text.byteLength y = Text.byteLength a := by
    by_cases short : Text.byteLength a ≤ Text.byteLength t.shown
    · obtain ⟨y, hy, length⟩ := exists_prefix_text literal trimmed short exposed
      refine ⟨y, List.IsPrefix.trans ?_ (written ▸ Text.upTo_prefix (cut ht).stop), length⟩
      exact (List.prefix_append_right_inj _).mpr hy
    · obtain ⟨g, rfl⟩ := Text.exists_append_of_byteLength_le hw.symm (by omega)
      rw [List.append_assoc, List.append_cancel_left_eq] at hw
      have ne : g ≠ [] := by
        rintro rfl
        simp at short
      cases bs with
      | nil => exact absurd (List.append_eq_nil_iff.mp hw).1 ne
      | cons u bs =>
          have near := next u rfl
          simp only [Text.byteLength_append] at near
          rw [pieces.go, join_cons, List.append_assoc] at hw
          dsimp only at hw
          obtain ⟨more, eq⟩ := Text.exists_append_of_byteLength_le hw (by omega)
          obtain ⟨p, ordered⟩ := exists_ordered read sub
          rw [content] at ordered
          have before := ordered.before_of_sublist
            (((List.nil_sublist bs).cons_cons u |>.cons_cons t).trans
              (List.sublist_append_right as _))
          refine ⟨t.text ++ g, ?_, ?_⟩
          · rw [← List.append_assoc, written]
            exact upTo_append_gap (cut (by simp)).start before ⟨more, eq.symm⟩ ne (by omega)
          · rw [Text.byteLength_append, Text.byteLength_append, byteLength_shown literal]
  rw [place]
  obtain ⟨pos, last, -⟩ := (cut ht).start
  refine ⟨pos, ?_, ?_⟩
  · simpa [Rows.ofSource] using last
  · rw [Text.byteLength_append, Nat.add_sub_cancel_left, ← length]
    exact Text.inside_min (cut ht).start hy

end LogicalLine

end StyleGuide
