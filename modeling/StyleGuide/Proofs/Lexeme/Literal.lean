import StyleGuide.Lexeme.Literal
import StyleGuide.LogicalLine.Mask
import StyleGuide.Proofs.Text.Offset

/-! # The parts of a string literal

A literal that ends on its row is made of letters, a delimiter, a body and the delimiter again. In
a body between single quote marks a backslash stands directly in front of each such mark, so a
literal between single marks never ends in three of them, and its mask keeps all but the body.
-/

namespace StyleGuide

/-- A body in which a backslash hides each `mark`. -/
inductive Escaped (mark : Char) : Text → Prop where
  | nil : Escaped mark []
  | pair {c : Char} {s : Text} (rest : Escaped mark s) : Escaped mark ('\\' :: c :: s)
  | cons {c : Char} {s : Text} (hm : c ≠ mark) (hb : c ≠ '\\') (rest : Escaped mark s) :
      Escaped mark (c :: s)

namespace Escaped

variable {mark : Char}

theorem backslash_before {s : Text} (h : Escaped mark s) :
    ∀ {x : Text}, s = x ++ [mark] → ['\\'] <:+ x := by
  induction h with
  | nil => simp
  | pair rest ih =>
      rename_i c s
      intro x hx
      match x, hx with
      | [], hx => simp at hx
      | [d], hx =>
          simp only [List.cons_append, List.nil_append, List.cons.injEq] at hx
          exact ⟨[], by rw [hx.1]; rfl⟩
      | d :: e :: x, hx =>
          simp only [List.cons_append, List.cons.injEq] at hx
          exact (ih hx.2.2).trans ⟨[d, e], rfl⟩
  | cons hm hb rest ih =>
      intro x hx
      cases x with
      | nil =>
          simp only [List.nil_append, List.cons.injEq] at hx
          exact absurd hx.1 hm
      | cons d x =>
          simp only [List.cons_append, List.cons.injEq] at hx
          exact (ih hx.2).trans ⟨[d], rfl⟩

end Escaped

namespace Delimiter

variable {q : Delimiter} {s : Text} {n : Nat}

theorem text_ne_nil (q : Delimiter) : q.text ≠ [] := by
  rw [text]
  split <;> simp

theorem exists_cons (q : Delimiter) : ∃ more, q.text = q.mark :: more := by
  unfold text
  split <;> simp

theorem exists_of_closing? (h : q.closing? s = some n) :
    ∃ body behind, s = body ++ q.text ++ behind ∧ n = (body ++ q.text).length ∧
      (q.isTriple = false → Escaped q.mark body) := by
  fun_induction q.closing? s generalizing n with
  | case1 c rest ih =>
      obtain ⟨m, hm, rfl⟩ := Option.map_eq_some_iff.mp h
      obtain ⟨body, behind, rfl, rfl, escaped⟩ := ih hm
      exact ⟨'\\' :: c :: body, behind, by simp, by simp, fun hq => .pair (escaped hq)⟩
  | case2 c rest _ hp =>
      obtain rfl := Option.some.inj h
      obtain ⟨behind, hb⟩ := List.isPrefixOf_iff_prefix.mp hp
      exact ⟨[], behind, by simp [hb], by simp, fun _ => .nil⟩
  | case3 => simp at h
  | case4 c rest _ hp hc ih =>
      obtain ⟨m, hm, rfl⟩ := Option.map_eq_some_iff.mp h
      obtain ⟨body, behind, rfl, rfl, escaped⟩ := ih hm
      refine ⟨c :: body, behind, by simp, by simp, fun hq => .cons ?_ ?_ (escaped hq)⟩
      · rintro rfl
        simp [text, hq] at hp
      · rintro rfl
        simp at hc
  | case5 => simp at h

end Delimiter

namespace Lexeme

variable {s : Text} {n : Nat} {q : Delimiter}

theorem exists_of_delimiter? (h : delimiter? s = some q) :
    ∃ rest, s = q.text ++ rest ∧ isQuote q.mark := by
  cases s with
  | nil => simp [delimiter?] at h
  | cons c s =>
      simp only [delimiter?] at h
      split at h
      · next hc =>
          obtain rfl := Option.some.inj h
          cases hp : List.isPrefixOf [c, c] s with
          | false => exact ⟨s, by simp [Delimiter.text], hc⟩
          | true =>
              obtain ⟨rest, rfl⟩ := List.isPrefixOf_iff_prefix.mp hp
              exact ⟨rest, by simp [Delimiter.text], hc⟩
      · simp at h

/-- The letters of a pair may stand alone as well. -/
theorem isLiteralLetter_of_isLiteralPair {c d : Char} (h : isLiteralPair c d) :
    isLiteralLetter c ∧ isLiteralLetter d := by
  simp only [isLiteralPair] at h
  split at h
  · next hr =>
      simp only [Bool.or_eq_true, beq_iff_eq] at hr
      simp only [List.contains_eq_mem, List.mem_cons, List.not_mem_nil, or_false,
        decide_eq_true_eq] at h
      obtain rfl | rfl := hr <;> obtain rfl | rfl | rfl | rfl := h <;> decide
  · simp only [Bool.and_eq_true, Bool.or_eq_true, beq_iff_eq] at h
    obtain ⟨hc, rfl | rfl⟩ := h
    · exact ⟨hc, rfl⟩
    · exact ⟨hc, rfl⟩

theorem exists_of_opening? (h : opening? s = some (n, q)) :
    ∃ letters rest, s = letters ++ q.text ++ rest ∧ letters.length = n ∧
      (∀ c ∈ letters, isLiteralLetter c) ∧ isQuote q.mark := by
  unfold opening? at h
  split at h
  · next c rest =>
      split at h
      · next hd =>
          simp only [Option.some.injEq, Prod.mk.injEq] at h
          obtain ⟨rfl, rfl⟩ := h
          obtain ⟨rest, hs, quote⟩ := exists_of_delimiter? hd
          exact ⟨[], rest, hs, rfl, by simp, quote⟩
      · split at h
        · next d rest' _ =>
            split at h
            · next hd =>
                split at h
                · next hl =>
                    simp only [Option.some.injEq, Prod.mk.injEq] at h
                    obtain ⟨rfl, rfl⟩ := h
                    obtain ⟨rest, hs, quote⟩ := exists_of_delimiter? hd
                    exact ⟨[c], rest, by simp [hs], rfl, by simpa using hl, quote⟩
                · simp at h
            · split at h
              · next hl =>
                  obtain ⟨q', hd, eq⟩ := Option.map_eq_some_iff.mp h
                  simp only [Prod.mk.injEq] at eq
                  obtain ⟨rfl, rfl⟩ := eq
                  obtain ⟨rest, hs, quote⟩ := exists_of_delimiter? hd
                  exact ⟨[c, d], rest, by simp [hs], rfl,
                    by simpa using isLiteralLetter_of_isLiteralPair hl, quote⟩
              · simp at h
        · simp at h
  · simp at h

end Lexeme

/-- A string literal with its opening and closing delimiter on one row. -/
inductive IsLiteral : Text → Prop where
  | intro {letters body : Text} {q : Delimiter}
      (hl : ∀ c ∈ letters, Lexeme.isLiteralLetter c)
      (hq : Lexeme.isQuote q.mark)
      (single : q.isTriple = false → Escaped q.mark body) :
      IsLiteral (letters ++ q.text ++ body ++ q.text)

theorem isQuote_of_runsOn {s : Text} {q : Delimiter}
    (h : Lexeme.literal? s = some (.runsOn q)) : Lexeme.isQuote q.mark := by
  simp only [Lexeme.literal?, Option.bind_eq_bind, Option.bind_eq_some_iff] at h
  obtain ⟨⟨k, q'⟩, ho, h⟩ := h
  obtain ⟨-, -, -, -, -, hq⟩ := Lexeme.exists_of_opening? ho
  split at h
  · cases h
  · split at h
    · cases h
      exact hq
    · cases h

theorem isLiteral_of_literal? {s : Text} {n : Nat} (h : Lexeme.literal? s = some (.closed n)) :
    IsLiteral (s.take n) ∧ 0 < n ∧ n ≤ s.length := by
  simp only [Lexeme.literal?, Option.bind_eq_bind, Option.bind_eq_some_iff] at h
  obtain ⟨⟨k, q⟩, ho, h⟩ := h
  obtain ⟨letters, rest, rfl, rfl, hl, hq⟩ := Lexeme.exists_of_opening? ho
  have opened : (letters ++ q.text ++ rest).drop (letters.length + q.text.length) = rest := by
    rw [← List.length_append, List.drop_left]
  simp only [opened] at h
  split at h
  · next m hc =>
      simp only [Option.some.injEq, Lexeme.LiteralStart.closed.injEq] at h
      obtain ⟨body, behind, rfl, rfl, escaped⟩ := Delimiter.exists_of_closing? hc
      have whole : letters ++ q.text ++ (body ++ q.text ++ behind) =
          (letters ++ q.text ++ body ++ q.text) ++ behind := by simp
      have length : n = (letters ++ q.text ++ body ++ q.text).length := by
        rw [← h]
        simp only [List.length_append]
        omega
      rw [whole, length, List.take_left]
      refine ⟨.intro hl hq escaped, ?_, ?_⟩
      · exact List.length_pos_iff.mpr (by simp [Delimiter.text_ne_nil])
      · simp only [List.length_append]
        omega
  · split at h <;> simp at h

section Mask

variable {letters body : Text} {q : Delimiter}

theorem Delimiter.byteLength_text (hq : Lexeme.isQuote q.mark) :
    Text.byteLength q.text = q.text.length := by
  simp only [Lexeme.isQuote, Bool.or_eq_true, beq_iff_eq] at hq
  obtain ⟨mark, triple⟩ := q
  obtain rfl | rfl := hq <;> cases triple <;> rfl

theorem Delimiter.text_eq_append (q : Delimiter) : ∃ marks, q.text = marks ++ [q.mark] := by
  obtain ⟨mark, triple⟩ := q
  cases triple with
  | true => exact ⟨[mark, mark], rfl⟩
  | false => exact ⟨[], rfl⟩

/-- Between single marks the body does not end in a mark that stands behind another one. -/
def Delimiter.ClosesAlone (q : Delimiter) (body : Text) : Prop :=
  q.isTriple = false → ∀ b, body = b ++ [q.mark] → ¬[q.mark] <:+ q.mark :: b

/-- A mark at the end of a body in which a backslash hides each mark stands behind a backslash. -/
theorem closesAlone_of_escaped (hq : Lexeme.isQuote q.mark)
    (single : q.isTriple = false → Escaped q.mark body) : q.ClosesAlone body := by
  intro ht b ends
  obtain ⟨b, rfl⟩ := (single ht).backslash_before ends
  rintro ⟨x, hx⟩
  rw [← List.cons_append] at hx
  have mark : q.mark = '\\' := by simpa using (List.append_inj' hx rfl).2
  rw [mark] at hq
  exact absurd hq (by decide)

/-- The delimiter can be read off the end of a literal. -/
theorem isSuffixOf_iff_isTriple (hq : Lexeme.isQuote q.mark)
    (hl : ∀ c ∈ letters, Lexeme.isLiteralLetter c) (alone : q.ClosesAlone body) :
    [q.mark, q.mark, q.mark].isSuffixOf (letters ++ q.text ++ body ++ q.text) = q.isTriple := by
  cases ht : q.isTriple with
  | true =>
      rw [List.isSuffixOf_iff_suffix, Delimiter.text, if_pos ht]
      exact List.suffix_append _ _
  | false =>
      rw [Bool.eq_false_iff, ne_eq, List.isSuffixOf_iff_suffix]
      rintro ⟨x, hx⟩
      have text : q.text = [q.mark] := by simp [Delimiter.text, ht]
      have ends : (x ++ [q.mark] ++ [q.mark]) ++ [q.mark] =
          (letters ++ [q.mark] ++ body) ++ [q.mark] := by
        simpa [text] using hx
      have tail := List.append_cancel_right ends
      rcases List.eq_nil_or_concat body with rfl | ⟨b, c, rfl⟩
      · -- with no body the letters would have to end in the mark
        rw [List.append_nil] at tail
        have letter := hl q.mark (by rw [← List.append_cancel_right tail]; simp)
        simp only [Lexeme.isQuote, Bool.or_eq_true, beq_iff_eq] at hq
        obtain h | h := hq <;> rw [h] at letter <;> exact absurd letter (by decide)
      · rw [List.concat_eq_append, ← List.append_assoc] at tail
        obtain ⟨front, end_eq⟩ := List.append_inj' tail rfl
        obtain rfl : q.mark = c := by simpa using end_eq
        have doubled : [q.mark] <:+ letters ++ q.mark :: b := ⟨x, by simpa using front⟩
        exact alone ht b (List.concat_eq_append ..)
          (List.suffix_of_suffix_length_le doubled (List.suffix_append _ _) (by simp))

/-- The byte offsets between which the mask of a text hides it; `none` if it hides nothing. -/
def hiddenRange? (literal : Text) : Option (Nat × Nat) :=
  match literal.getLast? with
  | none => none
  | some mark =>
    if Lexeme.isQuote mark then
      let width := if [mark, mark, mark].isSuffixOf literal then 3 else 1
      let start := Text.byteLength (literal.takeWhile (· != mark)) + width
      let stop := Text.byteLength literal - width
      if stop ≤ start then none else some (start, stop)
    else none

/-- A mask is its text but for the bytes between two offsets. -/
theorem mask_eq (literal : Text) : mask literal =
    match hiddenRange? literal with
    | none => literal
    | some (start, stop) => Text.takeBytes start literal ++
        List.replicate (stop - start) maskFiller ++ Text.dropBytes stop literal := by
  unfold mask hiddenRange?
  cases literal.getLast? with
  | none => rfl
  | some mark =>
      dsimp only
      split
      · generalize (if [mark, mark, mark].isSuffixOf literal then 3 else 1) = width
        split <;> rfl
      · rfl

/-- What is hidden of a literal is its body. -/
theorem hiddenRange?_append (hq : Lexeme.isQuote q.mark)
    (hl : ∀ c ∈ letters, Lexeme.isLiteralLetter c) (alone : q.ClosesAlone body) :
    hiddenRange? (letters ++ q.text ++ body ++ q.text) =
      if body = [] then none
      else some (Text.byteLength (letters ++ q.text),
        Text.byteLength (letters ++ q.text ++ body)) := by
  obtain ⟨marks, hm⟩ := q.text_eq_append
  have last : (letters ++ q.text ++ body ++ q.text).getLast? = some q.mark := by
    rw [hm, ← List.append_assoc]
    exact List.getLast?_concat
  have letters_ne : ∀ c ∈ letters, (c != q.mark) = true := by
    intro c hc
    have letter := hl c hc
    rw [bne_iff_ne, ne_eq]
    rintro rfl
    simp only [Lexeme.isQuote, Bool.or_eq_true, beq_iff_eq] at hq
    obtain h | h := hq <;> rw [h] at letter <;> exact absurd letter (by decide)
  have start : (letters ++ q.text ++ body ++ q.text).takeWhile (· != q.mark) = letters := by
    rw [List.append_assoc, List.append_assoc, List.takeWhile_append_of_pos letters_ne]
    cases ht : q.isTriple <;> simp [Delimiter.text, ht]
  have width : (if q.isTriple then 3 else 1) = Text.byteLength q.text := by
    rw [Delimiter.byteLength_text hq]
    cases ht : q.isTriple <;> simp [Delimiter.text, ht]
  have stop : Text.byteLength (letters ++ q.text ++ body ++ q.text) - Text.byteLength q.text =
      Text.byteLength (letters ++ q.text ++ body) := by
    rw [Text.byteLength_append, Nat.add_sub_cancel]
  have empty : Text.byteLength (letters ++ q.text ++ body) ≤ Text.byteLength (letters ++ q.text) ↔
      body = [] := by
    rw [Text.byteLength_append (letters ++ q.text), ← Text.byteLength_eq_zero]
    omega
  rw [hiddenRange?, last]
  simp only [hq, if_true, start, isSuffixOf_iff_isTriple hq hl alone, width, stop,
    ← Text.byteLength_append, empty]

/-- The mask of a literal has a filler for each byte of the body. -/
theorem mask_append_of_closesAlone (hq : Lexeme.isQuote q.mark)
    (hl : ∀ c ∈ letters, Lexeme.isLiteralLetter c) (alone : q.ClosesAlone body) :
    mask (letters ++ q.text ++ body ++ q.text) =
      letters ++ q.text ++ List.replicate (Text.byteLength body) maskFiller ++ q.text := by
  rw [mask_eq, hiddenRange?_append hq hl alone]
  split
  · next h =>
      have none : body = [] := by simpa using h
      simp [none]
  · next h =>
      obtain ⟨-, h⟩ := Option.ite_none_left_eq_some.mp h
      obtain ⟨rfl, rfl⟩ := Prod.mk.inj (Option.some.inj h)
      rw [Text.dropBytes_byteLength_append, Text.byteLength_append (letters ++ q.text),
        Nat.add_sub_cancel_left, List.append_assoc (letters ++ q.text),
        Text.takeBytes_byteLength_append]

theorem mask_append (hq : Lexeme.isQuote q.mark)
    (hl : ∀ c ∈ letters, Lexeme.isLiteralLetter c)
    (single : q.isTriple = false → Escaped q.mark body) :
    mask (letters ++ q.text ++ body ++ q.text) =
      letters ++ q.text ++ List.replicate (Text.byteLength body) maskFiller ++ q.text :=
  mask_append_of_closesAlone hq hl (closesAlone_of_escaped hq single)

end Mask

end StyleGuide
