import StyleGuide.Proofs.Lexeme.Extent

/-! # Literals over several rows

A literal that does not end on its row goes on with the rows behind it, none of which closes it
before the last. All of it together is a literal as it could stand on one row.
-/

namespace StyleGuide

/-- A string literal up to the end of a row on which it does not end. -/
inductive IsUnended (q : Delimiter) : Text → Prop where
  | intro {letters body : Text} (hl : ∀ c ∈ letters, Lexeme.isLiteralLetter c)
      (hq : Lexeme.isQuote q.mark) (single : q.isTriple = false → Escaped q.mark body) :
      IsUnended q (letters ++ q.text ++ body)

section

variable {s t line text letters : Text} {mark : Char} {q : Delimiter} {n : Nat}

theorem Escaped.append (hs : Escaped mark s) (ht : Escaped mark t) : Escaped mark (s ++ t) := by
  induction hs with
  | nil => exact ht
  | pair _ ih => exact .pair ih
  | cons hm hb _ ih => exact .cons hm hb ih

theorem ne_newline_of_isQuote {c : Char} (hc : Lexeme.isQuote c) : c ≠ '\n' ∧ c ≠ '\r' := by
  constructor <;> rintro rfl <;> exact absurd hc (by decide)

theorem ne_newline_of_isLiteralLetter {c : Char} (hc : Lexeme.isLiteralLetter c) :
    c ≠ '\n' ∧ c ≠ '\r' := by
  constructor <;> rintro rfl <;> exact absurd hc (by decide)

theorem escaped_of_runsOn (hq : Lexeme.isQuote mark) (h : Lexeme.runsOn mark s) :
    Escaped mark s := by
  fun_induction Lexeme.runsOn mark s with
  | case1 => exact .pair .nil
  | case2 => exact .pair (.cons (ne_newline_of_isQuote hq).1.symm (by decide) .nil)
  | case3 c rest _ _ ih => exact .pair (ih h)
  | case4 c rest _ _ _ ih =>
      simp only [Bool.and_eq_true, bne_iff_ne, ne_eq] at h
      exact .cons h.1.1.1 h.1.2 (ih h.2)
  | case5 => cases h

/-- A row inside a literal hides no delimiter of one mark. -/
theorem escaped_of_closing?_eq_none (hq : Lexeme.isQuote q.mark) (single : q.isTriple = false)
    (none : q.closing? s = none) (newline : s = [] ∨ s.getLast? = some '\n')
    (only : ∀ a b, s = a ++ '\n' :: b → b = []) : Escaped q.mark s := by
  have last {c : Char} {rest : Text} (h : c :: rest = [] ∨ (c :: rest).getLast? = some '\n') :
      rest = [] ∧ c = '\n' ∨ rest ≠ [] ∧ rest.getLast? = some '\n' := by
    cases rest with
    | nil => exact .inl ⟨rfl, by simpa using h⟩
    | cons d rest => exact .inr ⟨by simp, by simpa using h⟩
  fun_induction q.closing? s with
  | case1 c rest ih =>
      refine .pair (ih (by simpa using none) ?_ fun a b h => only ('\\' :: c :: a) b (by simp [h]))
      rcases last newline with ⟨nil, -⟩ | ⟨-, later⟩
      · cases nil
      · rcases last (.inr later) with ⟨rfl, -⟩ | ⟨-, later⟩
        · exact .inl rfl
        · exact .inr later
  | case2 => cases none
  | case3 c rest alone hp hc =>
      simp only [Bool.or_eq_true, Bool.and_eq_true, beq_iff_eq] at hc
      rcases hc with rfl | ⟨rfl, -⟩
      · rcases last newline with ⟨-, wrong⟩ | ⟨ne, -⟩
        · exact absurd wrong (by decide)
        · obtain ⟨d, more, rfl⟩ := List.exists_cons_of_ne_nil ne
          exact absurd rfl (alone d more rfl)
      · obtain rfl := only [] rest rfl
        exact .cons (ne_newline_of_isQuote hq).1.symm (by decide) .nil
  | case4 c rest alone hp hc ih =>
      refine .cons ?_ ?_ (ih (by simpa using none) ?_ fun a b h => only (c :: a) b (by simp [h]))
      · rintro rfl
        simp [Delimiter.text, single] at hp
      · rintro rfl
        simp at hc
      · rcases last newline with ⟨rfl, -⟩ | ⟨-, later⟩
        · exact .inl rfl
        · exact .inr later
  | case5 => exact .nil

theorem isUnended_of_literal? (h : Lexeme.literal? s = some (.runsOn q)) : IsUnended q s := by
  simp only [Lexeme.literal?, Option.bind_eq_bind, Option.bind_eq_some_iff] at h
  obtain ⟨⟨k, q'⟩, ho, h⟩ := h
  obtain ⟨letters, rest, rfl, rfl, hl, hq⟩ := Lexeme.exists_of_opening? ho
  have opened : (letters ++ q'.text ++ rest).drop (letters.length + q'.text.length) = rest := by
    rw [← List.length_append, List.drop_left]
  simp only [opened] at h
  split at h
  · cases h
  · split at h
    · next goes =>
        cases h
        refine .intro hl hq fun single => escaped_of_runsOn hq ?_
        simpa [single] using goes
    · cases h

/-- A literal starts with a letter or a quote mark. -/
theorem ne_newline_of_head?_opening (hl : ∀ c ∈ letters, Lexeme.isLiteralLetter c)
    (hq : Lexeme.isQuote q.mark) (rest : Text) :
    ∀ c ∈ (letters ++ q.text ++ rest).head?, c ≠ '\n' ∧ c ≠ '\r' := by
  intro c hc
  cases letters with
  | nil =>
      obtain ⟨more, hm⟩ := q.exists_cons
      rw [List.nil_append, hm] at hc
      obtain rfl := Option.some.inj hc
      exact ne_newline_of_isQuote hq
  | cons d letters =>
      obtain rfl := Option.some.inj hc
      exact ne_newline_of_isLiteralLetter (hl _ (List.mem_cons_self ..))

namespace IsUnended

theorem isQuote (h : IsUnended q text) : Lexeme.isQuote q.mark := by
  cases h with
  | intro _ hq => exact hq

theorem head (h : IsUnended q text) : ∀ c ∈ text.head?, c ≠ '\n' ∧ c ≠ '\r' := by
  cases h with
  | intro hl hq single => exact ne_newline_of_head?_opening hl hq _

theorem append (h : IsUnended q text) (none : q.closing? line = none)
    (more : q.isTriple || Lexeme.endsInBackslash line)
    (only : ∀ a b, line = a ++ '\n' :: b → b = []) : IsUnended q (text ++ line) := by
  cases h with
  | intro hl hq escaped =>
      rw [List.append_assoc]
      refine .intro hl hq fun single => (escaped single).append ?_
      refine escaped_of_closing?_eq_none hq single none (.inr ?_) only
      simp only [single, Bool.false_or, Lexeme.endsInBackslash, Bool.or_eq_true,
        List.isSuffixOf_iff_suffix] at more
      rcases more with ⟨x, rfl⟩ | ⟨x, rfl⟩ <;> simp

theorem isLiteral (h : IsUnended q text) (hn : q.closing? line = some n) :
    IsLiteral (text ++ line.take n) := by
  cases h with
  | intro hl hq escaped =>
      rename_i letters body
      obtain ⟨inner, behind, rfl, rfl, escaped'⟩ := Delimiter.exists_of_closing? hn
      have whole : letters ++ q.text ++ body ++ (inner ++ q.text) =
          letters ++ q.text ++ (body ++ inner) ++ q.text := by simp
      rw [List.take_left, whole]
      exact .intro hl hq fun single => (escaped single).append (escaped' single)

end IsUnended

/-- A literal starts with a letter or a quote mark and ends in a quote mark. -/
theorem IsLiteral.edges (h : IsLiteral text) : (∀ c ∈ text.head?, c ≠ '\n' ∧ c ≠ '\r') ∧
    ∃ s c, text = s ++ [c] ∧ Lexeme.isQuote c := by
  cases h with
  | intro hl hq single =>
      rename_i letters body q
      refine ⟨?_, ?_⟩
      · rw [List.append_assoc _ body]
        exact ne_newline_of_head?_opening hl hq _
      · obtain ⟨marks, hm⟩ := q.text_eq_append
        refine ⟨letters ++ q.text ++ body ++ marks, q.mark, ?_, hq⟩
        rw [List.append_assoc _ marks, ← hm]

end

end StyleGuide
