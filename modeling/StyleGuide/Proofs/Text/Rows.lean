import StyleGuide.Rows

/-! # The shape of rows

Each row of a text ends in its only newline, but for the last, which may have none. Texts of this
shape are the rows of what they make together.
-/

namespace StyleGuide

/-- Texts that have the shape of rows. -/
inductive AreRows : List Text → Prop where
  | nil : AreRows []
  | last {line : Text} (ne : line ≠ []) (h : '\n' ∉ line) : AreRows [line]
  | cons {body : Text} {more : List Text} (h : '\n' ∉ body) (rest : AreRows more) :
      AreRows ((body ++ ['\n']) :: more)

/-- A row of a source has a newline as its last character at most, and none only as the last row. -/
theorem AreRows.row_cases {done more : List Text} {line : Text}
    (h : AreRows (done ++ line :: more)) :
    '\n' ∉ line ∧ more = [] ∨ ∃ body, line = body ++ ['\n'] ∧ '\n' ∉ body := by
  induction done with
  | nil =>
      cases h with
      | last _ none => exact .inl ⟨none, rfl⟩
      | cons none => exact .inr ⟨_, rfl, none⟩
  | cons row done ih =>
      rw [List.cons_append] at h
      generalize hr : done ++ line :: more = rest at h
      cases h with
      | last => simp at hr
      | cons _ rest =>
          subst hr
          exact ih rest

theorem AreRows.of_append_right {done more : List Text} (h : AreRows (done ++ more)) :
    AreRows more := by
  induction done with
  | nil => exact h
  | cons row done ih =>
      rw [List.cons_append] at h
      generalize hr : done ++ more = rest at h ih
      cases h with
      | last => exact ih .nil
      | cons _ rest => exact ih rest

theorem AreRows.of_append_left {done more : List Text} (h : AreRows (done ++ more)) :
    AreRows done := by
  induction done with
  | nil => exact .nil
  | cons row done ih =>
      rw [List.cons_append] at h
      generalize hr : done ++ more = rest at h ih
      cases h with
      | last ne none =>
          obtain ⟨rfl, -⟩ := List.append_eq_nil_iff.mp hr
          exact .last ne none
      | cons none rest => exact .cons none (ih rest)

namespace Text

theorem rows_cons (c : Char) (s : Text) :
    rows (c :: s) = if c == '\n' then [c] :: rows s else consFirst c (rows s) := rfl

theorem areRows_rows (s : Text) : AreRows (rows s) := by
  induction s with
  | nil => exact .nil
  | cons c s ih =>
      rw [rows_cons]
      split
      · next hc =>
          obtain rfl := beq_iff_eq.mp hc
          exact @AreRows.cons [] _ (by simp) ih
      · next hc =>
          have hc : '\n' ≠ c := by
            rintro rfl
            exact hc rfl
          cases hs : rows s with
          | nil => exact .last (by simp) (by simpa using hc)
          | cons line more =>
              rw [hs] at ih
              cases ih with
              | last ne h => exact .last (by simp) (by simp [hc, h])
              | cons h rest => exact @AreRows.cons (c :: _) _ (by simp [hc, h]) rest

theorem rows_append {body : Text} (h : '\n' ∉ body) (s : Text) :
    rows (body ++ '\n' :: s) = (body ++ ['\n']) :: rows s := by
  induction body with
  | nil => rfl
  | cons c body ih =>
      simp only [List.mem_cons, not_or] at h
      rw [List.cons_append, rows_cons, if_neg (by simpa using Ne.symm h.1), ih h.2]
      rfl

theorem rows_of_not_mem {line : Text} (ne : line ≠ []) (h : '\n' ∉ line) : rows line = [line] := by
  induction line with
  | nil => exact absurd rfl ne
  | cons c line ih =>
      simp only [List.mem_cons, not_or] at h
      rw [rows_cons, if_neg (by simpa using Ne.symm h.1)]
      cases line with
      | nil => rfl
      | cons d line => rw [ih (by simp) h.2]; rfl

/-- The rows of a text that ends in a newline stay what they are in front of another text. -/
theorem rows_append_of_ended {s : Text} (h : ∀ c ∈ s.getLast?, c = '\n') (t : Text) :
    rows (s ++ t) = rows s ++ rows t := by
  induction s with
  | nil => rfl
  | cons c s ih =>
      rw [List.cons_append, rows_cons, rows_cons]
      cases s with
      | nil =>
          obtain rfl := h c rfl
          rfl
      | cons d s =>
          rw [ih fun e he => h e (by simpa using he)]
          cases hr : rows (d :: s) with
          | nil =>
              have := flatten_rows (d :: s)
              rw [hr] at this
              cases this
          | cons line more => split <;> rfl

theorem rows_flatten {lines : List Text} (h : AreRows lines) : rows lines.flatten = lines := by
  induction h with
  | nil => rfl
  | last ne h => simpa using rows_of_not_mem ne h
  | cons h rest ih =>
      rw [List.flatten_cons, List.append_assoc, List.singleton_append, rows_append h, ih]

end Text

namespace Rows

theorem row_ofSource {source line : Text} {done more : List Text}
    (h : Text.rows source = done ++ line :: more) :
    (ofSource source).row (done.length + 1) = line := by
  simp [row, ofSource, h]

/-- The rows from one number on, read off the rows of a source. -/
theorem flatMap_row (rows : Rows) (n k : Nat) :
    (List.range' (n + 1) k).flatMap rows.row = ((rows.toList.drop n).take k).flatten := by
  induction k generalizing n with
  | zero => simp
  | succ k ih =>
      rw [List.range'_succ, List.flatMap_cons, ih]
      by_cases lt : n < rows.size
      · rw [List.drop_eq_getElem_cons (show n < rows.toList.length by simpa using lt),
          List.take_succ_cons, List.flatten_cons]
        simp [Rows.row, lt]
      · simp [Rows.row, List.drop_of_length_le (show rows.toList.length ≤ n by simp; omega),
          List.drop_of_length_le (show rows.toList.length ≤ n + 1 by simp; omega),
          Array.getElem?_eq_none (show rows.size ≤ n by omega)]

theorem row_one_prefix (source : Text) : (ofSource source).row 1 <+: source := by
  have whole := Text.flatten_rows source
  cases h : Text.rows source with
  | nil => simp [row, ofSource, h]
  | cons line more =>
      rw [h, List.flatten_cons] at whole
      exact ⟨more.flatten, by simp [row, ofSource, h, whole]⟩

end Rows

end StyleGuide
