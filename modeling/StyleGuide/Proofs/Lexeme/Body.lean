import Mathlib.Algebra.Ring.Parity
import StyleGuide.Proofs.Lexeme.Sign
import StyleGuide.Proofs.Lexeme.Unended
import StyleGuide.Proofs.TokenStream.Cover

/-! # The body of a string literal

In the body of a literal a backslash hides the character behind it, unless it is hidden itself. The
delimiter of the literal starts at no place of the body that is not hidden. With that, the parts of
a literal can be told from its text.
-/

namespace StyleGuide

namespace Text

variable {s t : Text} {c : Char}

/-- Whether the text hides the character behind it. -/
def hides (s : Text) : Bool := s.foldl (fun hidden c => !hidden && c == '\\') false

/-- A newline behind the text is hidden by itself, or together with a carriage return. -/
def HidesNewline (s : Text) : Prop := s.hides ∨ ∃ front, s = front ++ ['\r'] ∧ front.hides

/-- The number of backslashes directly in front of a newline that follows the text, where a
    carriage return belongs to the newline. -/
def slashes (s : Text) : Nat :=
  let row := if s.getLast? = some '\r' then s.dropLast else s
  (row.reverse.takeWhile (· == '\\')).length

theorem hides_concat (s : Text) (c : Char) : (s ++ [c]).hides = (!s.hides && c == '\\') := by
  simp [hides]

theorem hides_append (h : s.hides = false) (t : Text) : (s ++ t).hides = t.hides := by
  rw [hides, List.foldl_append, ← hides, h, hides]

theorem hides_pair (c : Char) (s : Text) : hides ('\\' :: c :: s) = s.hides :=
  hides_append (s := ['\\', c]) (by simp [hides]) s

theorem hides_cons (hc : c ≠ '\\') (s : Text) : hides (c :: s) = s.hides :=
  hides_append (s := [c]) (by simp [hides, hc]) s

theorem hides_of_getLast? (h : s.getLast? = some c) (hc : c ≠ '\\') : s.hides = false := by
  obtain ⟨front, rfl⟩ := List.getLast?_eq_some_iff.mp h
  simp [hides_concat, hc]

/-- The last of an odd number of backslashes hides what follows. -/
theorem hides_iff_odd : s.hides ↔ Odd (s.reverse.takeWhile (· == '\\')).length := by
  induction s using List.reverseRecOn with
  | nil => simp [hides]
  | append_singleton s c ih =>
      rw [hides_concat, List.reverse_append, List.reverse_singleton, List.singleton_append,
        List.takeWhile_cons]
      by_cases hc : c = '\\'
      · subst hc
        simp [Nat.odd_add_one, ← ih]
      · simp [hc]

theorem hidesNewline_iff_odd : s.HidesNewline ↔ Odd s.slashes := by
  unfold slashes
  by_cases cr : s.getLast? = some '\r'
  · have never := hides_of_getLast? cr (by decide)
    obtain ⟨front, rfl⟩ := List.getLast?_eq_some_iff.mp cr
    rw [if_pos cr, List.dropLast_concat, ← hides_iff_odd]
    refine ⟨?_, fun h => .inr ⟨front, rfl, h⟩⟩
    rintro (h | ⟨front', eq, h⟩)
    · rw [never] at h
      cases h
    · rwa [(List.append_inj' eq rfl).1]
  · rw [if_neg cr, ← hides_iff_odd]
    refine ⟨?_, .inl⟩
    rintro (h | ⟨front, rfl, -⟩)
    · exact h
    · simp at cr

/-- A hidden newline has a backslash in front. -/
theorem endsInBackslash_of_hidesNewline (h : s.HidesNewline) :
    Lexeme.endsInBackslash (s ++ ['\n']) := by
  have last {front : Text} (h : front.hides) : ∃ s, front = s ++ ['\\'] := by
    rcases List.eq_nil_or_concat front with rfl | ⟨s, c, rfl⟩
    · cases h
    · rw [List.concat_eq_append] at h ⊢
      rw [hides_concat, Bool.and_eq_true, beq_iff_eq] at h
      exact ⟨s, by rw [h.2]⟩
  simp only [Lexeme.endsInBackslash, Bool.or_eq_true, List.isSuffixOf_iff_suffix]
  rcases h with h | ⟨front, rfl, h⟩ <;> obtain ⟨s, rfl⟩ := last h
  · exact .inl ⟨s, by simp⟩
  · exact .inr ⟨s, by simp⟩

theorem hidesNewline_pair (c : Char) (h : s.HidesNewline) : HidesNewline ('\\' :: c :: s) := by
  rcases h with h | ⟨front, rfl, h⟩
  · exact .inl (by rwa [hides_pair])
  · exact .inr ⟨'\\' :: c :: front, rfl, by rwa [hides_pair]⟩

theorem hidesNewline_cons (hc : c ≠ '\\') (h : s.HidesNewline) : HidesNewline (c :: s) := by
  rcases h with h | ⟨front, rfl, h⟩
  · exact .inl (by rwa [hides_cons hc])
  · exact .inr ⟨c :: front, rfl, by rwa [hides_cons hc]⟩

end Text

namespace Delimiter

variable {q : Delimiter} {s t behind : Text} {c : Char} {n : Nat}

theorem eq_mark_of_mem (h : c ∈ q.text) : c = q.mark := by
  unfold text at h
  split at h <;> simpa using h

/-- In front of `behind` the delimiter starts at no place of the text that is not hidden. -/
def IsQuietIn (q : Delimiter) (s behind : Text) : Prop :=
  ∀ front back, s = front ++ back → back ≠ [] → front.hides = false → ¬q.text <+: back ++ behind

namespace IsQuietIn

theorem nil : q.IsQuietIn [] behind := fun front back eq ne => by
  obtain ⟨-, rfl⟩ := List.append_eq_nil_iff.mp eq.symm
  exact absurd rfl ne

theorem cons (hc : c ≠ '\\') (first : ¬q.text <+: c :: s ++ behind) (h : q.IsQuietIn s behind) :
    q.IsQuietIn (c :: s) behind := by
  intro front back eq ne shown
  cases front with
  | nil => rwa [← show c :: s = back from eq]
  | cons d front =>
      obtain ⟨rfl, rfl⟩ := List.cons.inj eq
      exact h front back rfl ne (by rwa [Text.hides_cons hc] at shown)

theorem pair (hm : q.mark ≠ '\\') (h : q.IsQuietIn s behind) :
    q.IsQuietIn ('\\' :: c :: s) behind := by
  intro front back eq ne shown
  match front, eq, shown with
  | [], eq, _ =>
      rintro ⟨more, whole⟩
      obtain ⟨marks, hq⟩ := q.exists_cons
      rw [← show '\\' :: c :: s = back from eq, hq] at whole
      exact hm (List.cons.inj whole).1
  | [d], eq, shown =>
      rw [← (List.cons.inj eq).1] at shown
      cases shown
  | d :: e :: front, eq, shown =>
      simp only [List.cons_append, List.cons.injEq] at eq
      obtain ⟨rfl, rfl, rfl⟩ := eq
      exact h front back rfl ne (by rwa [Text.hides_pair] at shown)

theorem append (hs : q.IsQuietIn s (t ++ behind)) (shown : s.hides = false)
    (ht : q.IsQuietIn t behind) : q.IsQuietIn (s ++ t) behind := by
  intro front back eq ne hidden
  rcases List.append_eq_append_iff.mp eq with ⟨front', rfl, rfl⟩ | ⟨back', rfl, rfl⟩
  · exact ht front' back rfl ne (by rwa [Text.hides_append shown] at hidden)
  · rw [List.append_assoc]
    cases back' with
    | nil => exact ht [] t rfl ne rfl
    | cons c back' => exact hs front (c :: back') rfl (by simp) hidden

end IsQuietIn

theorem ne_backslash_of_isQuote (hq : Lexeme.isQuote c) : c ≠ '\\' := by
  rintro rfl
  exact absurd hq (by decide)

/-- The closing delimiter is the first one that is not hidden. -/
theorem exists_quiet_of_closing? (hq : Lexeme.isQuote q.mark) (h : q.closing? s = some n) :
    ∃ body behind, s = body ++ q.text ++ behind ∧ n = (body ++ q.text).length ∧
      q.IsQuietIn body q.text := by
  fun_induction q.closing? s generalizing n with
  | case1 c rest ih =>
      obtain ⟨m, hm, rfl⟩ := Option.map_eq_some_iff.mp h
      obtain ⟨body, behind, rfl, rfl, quiet⟩ := ih hm
      exact ⟨'\\' :: c :: body, behind, by simp, by simp, .pair (ne_backslash_of_isQuote hq) quiet⟩
  | case2 c rest _ hp =>
      obtain rfl := Option.some.inj h
      obtain ⟨behind, hb⟩ := List.isPrefixOf_iff_prefix.mp hp
      exact ⟨[], behind, by simp [hb], by simp, .nil⟩
  | case3 => cases h
  | case4 c rest _ hp hc ih =>
      obtain ⟨m, hm, rfl⟩ := Option.map_eq_some_iff.mp h
      obtain ⟨body, behind, rfl, rfl, quiet⟩ := ih hm
      refine ⟨c :: body, behind, by simp, by simp, quiet.cons ?_ fun first => ?_⟩
      · rintro rfl
        simp at hc
      · exact hp (List.isPrefixOf_iff_prefix.mpr (first.trans ⟨behind, by simp⟩))
  | case5 => cases h

/-- A delimiter does not go on behind a newline. -/
theorem isPrefix_of_append (hq : Lexeme.isQuote q.mark) (mem : '\n' ∈ s)
    (h : q.text <+: s ++ behind) : q.text <+: s := by
  rcases List.prefix_or_prefix_of_prefix h (List.prefix_append s behind) with inner | outer
  · exact inner
  · have newline := q.eq_mark_of_mem (outer.subset mem)
    exact absurd newline (ne_newline_of_isQuote hq).1.symm

/-- A row on which the literal does not end is quiet, whatever comes behind it. -/
theorem isQuietIn_of_closing?_eq_none (hq : Lexeme.isQuote q.mark) (none : q.closing? s = none)
    (newline : s = [] ∨ s.getLast? = some '\n') (only : EndsAtNewline s) (behind : Text) :
    q.IsQuietIn s behind := by
  have later {c : Char} {rest : Text} (ne : rest ≠ [])
      (h : c :: rest = [] ∨ (c :: rest).getLast? = some '\n') : rest.getLast? = some '\n' := by
    obtain ⟨d, more, rfl⟩ := List.exists_cons_of_ne_nil ne
    simpa using h
  fun_induction q.closing? s with
  | case1 c rest ih =>
      refine .pair (ne_backslash_of_isQuote hq) (ih (by simpa using none) ?_ fun a b eq => ?_)
      · cases rest with
        | nil => exact .inl rfl
        | cons d rest => exact .inr (later (by simp) (.inr (later (by simp) newline)))
      · exact only ('\\' :: c :: a) b (by simp [eq])
  | case2 => cases none
  | case3 c rest alone hp hc =>
      have other : c = '\n' := by
        simp only [Bool.or_eq_true, Bool.and_eq_true, beq_iff_eq] at hc
        rcases hc with rfl | ⟨rfl, -⟩
        · cases rest with
          | nil => simp at newline
          | cons d more => exact absurd rfl (alone d more rfl)
        · rfl
      subst other
      obtain rfl := only [] rest rfl
      refine IsQuietIn.nil.cons (by decide) fun first => hp ?_
      exact List.isPrefixOf_iff_prefix.mpr (isPrefix_of_append hq (by simp) first)
  | case4 c rest alone hp hc ih =>
      have mem : '\n' ∈ c :: rest := List.mem_of_getLast? (newline.resolve_left (by simp))
      refine .cons ?_ (fun first => hp ?_) (ih (by simpa using none) ?_ fun a b eq => ?_)
      · rintro rfl
        simp at hc
      · exact List.isPrefixOf_iff_prefix.mpr (isPrefix_of_append hq mem first)
      · cases rest with
        | nil => exact .inl rfl
        | cons d rest => exact .inr (later (by simp) newline)
      · exact only (c :: a) b (by simp [eq])
  | case5 => exact .nil

end Delimiter

/-- The first row of a literal between single marks hides its newline. -/
theorem exists_hidesNewline_of_runsOn {mark : Char} {s : Text} (h : Lexeme.runsOn mark s) :
    ∃ front, s = front ++ ['\n'] ∧ front.HidesNewline := by
  fun_induction Lexeme.runsOn mark s with
  | case1 => exact ⟨['\\'], rfl, .inl rfl⟩
  | case2 => exact ⟨['\\', '\r'], rfl, .inr ⟨['\\'], rfl, rfl⟩⟩
  | case3 c rest _ _ ih =>
      obtain ⟨front, rfl, hidden⟩ := ih h
      exact ⟨'\\' :: c :: front, rfl, Text.hidesNewline_pair c hidden⟩
  | case4 c rest _ _ _ ih =>
      simp only [Bool.and_eq_true, bne_iff_ne, ne_eq] at h
      obtain ⟨front, rfl, hidden⟩ := ih h.2
      exact ⟨c :: front, rfl, Text.hidesNewline_cons h.1.2 hidden⟩
  | case5 => cases h

/-! ## The parts of a literal -/

/-- What a string literal is made of. -/
structure LiteralParts where
  letters : Text
  delimiter : Delimiter
  body : Text

namespace LiteralParts

/-- The literal as it is written. -/
def text (p : LiteralParts) : Text := p.letters ++ p.delimiter.text ++ p.body ++ p.delimiter.text

/-- The delimiter is made of quote marks and ends the literal where it occurs first, hidden marks
    apart. -/
structure IsValid (p : LiteralParts) : Prop where
  letters : Lexeme.areOpening p.letters
  mark : Lexeme.isQuote p.delimiter.mark
  quiet : p.delimiter.IsQuietIn p.body p.delimiter.text

theorem IsValid.takeWhile_text {p : LiteralParts} (h : p.IsValid) :
    p.text.takeWhile (fun c => !Lexeme.isQuote c) = p.letters := by
  obtain ⟨marks, hq⟩ := p.delimiter.exists_cons
  have letters : ∀ c ∈ p.letters, !Lexeme.isQuote c := by
    intro c hc
    have letter := Lexeme.isLiteralLetter_of_areOpening h.letters c hc
    rw [Lexeme.not_isQuote_of_isLiteralLetter letter, Bool.not_false]
  rw [text, List.append_assoc, List.append_assoc, hq, List.takeWhile_append_of_pos letters,
    List.cons_append, List.takeWhile_cons_of_neg (by simp [h.mark]), List.append_nil]

/-- A body between single marks does not begin with a mark. -/
theorem IsValid.head?_body {p : LiteralParts} (h : p.IsValid)
    (single : p.delimiter.isTriple = false) : p.body.head? ≠ some p.delimiter.mark := by
  intro first
  obtain ⟨rest, eq⟩ := List.head?_eq_some_iff.mp first
  refine h.quiet [] p.body rfl (by simp [eq]) rfl ?_
  simp [Delimiter.text, single, eq]

/-- The text of a literal tells its parts. -/
theorem IsValid.eq_of_text_eq {p p' : LiteralParts} (h : p.IsValid) (h' : p'.IsValid)
    (same : p.text = p'.text) : p = p' := by
  have letters : p.letters = p'.letters := by
    rw [← h.takeWhile_text, same, h'.takeWhile_text]
  have bodies : p.delimiter.text ++ (p.body ++ p.delimiter.text) =
      p'.delimiter.text ++ (p'.body ++ p'.delimiter.text) := by
    simpa [text, letters] using same
  have head := h.head?_body
  have head' := h'.head?_body
  obtain ⟨letters₁, ⟨mark, triple⟩, body⟩ := p
  obtain ⟨letters₂, ⟨mark', triple'⟩, body'⟩ := p'
  obtain rfl : letters₁ = letters₂ := letters
  simp only [Delimiter.text] at bodies head head'
  obtain rfl : mark = mark' := by
    cases triple <;> cases triple' <;> exact (List.cons.inj bodies).1
  have single {body rest : Text} (eq : mark :: (body ++ [mark]) = mark :: mark :: mark :: rest) :
      body.head? = some mark := by
    cases body with
    | nil => simp at eq
    | cons c body => exact congrArg some (List.cons.inj (List.cons.inj eq).2).1
  cases triple <;> cases triple'
  case true.true | false.false =>
    obtain rfl : body = body' := by simpa using bodies
    rfl
  case true.false => exact absurd (single bodies.symm) (head' rfl)
  case false.true => exact absurd (single bodies) (head rfl)

end LiteralParts

namespace Lexeme

/-- How the literal at the start of a text is read. -/
theorem exists_of_literal? {s : Text} {start : LiteralStart} (h : literal? s = some start) :
    ∃ letters q rest, s = letters ++ q.text ++ rest ∧ areOpening letters ∧ isQuote q.mark ∧
      ((∃ n, q.closing? rest = some n ∧ start = .closed ((letters ++ q.text).length + n)) ∨
        q.closing? rest = none ∧ (q.isTriple || runsOn q.mark rest) ∧ start = .runsOn q) := by
  simp only [literal?, Option.bind_eq_bind, Option.bind_eq_some_iff] at h
  obtain ⟨⟨k, q⟩, ho, h⟩ := h
  obtain ⟨letters, u, rfl, rfl, hl, hd⟩ := exists_areOpening ho
  obtain ⟨rest, rfl, hq⟩ := exists_of_delimiter? hd
  rw [← List.append_assoc] at h ⊢
  refine ⟨letters, q, rest, rfl, hl, hq, ?_⟩
  simp only [← List.length_append, List.drop_left] at h
  split at h
  · next n hn => exact .inl ⟨n, hn, (Option.some.inj h).symm⟩
  · next hn =>
      split at h
      · next goes => exact .inr ⟨hn, goes, (Option.some.inj h).symm⟩
      · cases h

end Lexeme

end StyleGuide
