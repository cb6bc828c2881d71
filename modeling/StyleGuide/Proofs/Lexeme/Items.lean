import StyleGuide.Proofs.Lexeme.Extent

/-! # The items of a row

The items of a row, each with its gap in front, are the row again, up to the lexeme that ends the
row or the gap at its end.
-/

namespace StyleGuide

open Lexeme

/-- Lexeme `k` is read from the start of `text ++ behind` and is all of `text`. -/
structure Lexeme.Takes (k : Lexeme) (text behind : Text) : Prop where
  next_eq : next (text ++ behind) = (k, text.length)
  ne_nil : text ≠ []
  not_isGap : ∀ c ∈ text.head?, ¬isGap c

/-- A run of characters is all of the first text if that holds no others and the run stops there. -/
theorem Lexeme.length_takeWhile_append_iff {p : Char → Bool} {x b : Text} :
    ((x ++ b).takeWhile p).length = x.length ↔ (∀ c ∈ x, p c) ∧ ∀ c ∈ b.head?, ¬p c := by
  induction x with
  | nil =>
      cases b with
      | nil => simp
      | cons c b => by_cases hc : p c <;> simp [hc]
  | cons c x ih => by_cases hc : p c <;> simp [hc, ih]

theorem Lexeme.Takes.starts {k : Lexeme} {text behind : Text} (h : k.Takes text behind) :
    ∃ c rest n, text = c :: rest ∧ (text ++ behind).take n = text ∧
      Starts c (rest ++ behind) k n := by
  obtain ⟨c, rest, rfl⟩ := List.exists_cons_of_ne_nil h.ne_nil
  refine ⟨c, rest, (c :: rest).length, rfl, List.take_left, ?_⟩
  have := starts_next c (rest ++ behind)
  rwa [← List.cons_append, h.next_eq] at this

/-- The gap in front of a lexeme ends there. -/
theorem Lexeme.Takes.takeWhile_append {k : Lexeme} {gap text behind : Text}
    (taken : k.Takes text behind) (hg : ∀ c ∈ gap, isGap c) :
    (gap ++ text ++ behind).takeWhile isGap = gap := by
  obtain ⟨c, more, rfl⟩ := List.exists_cons_of_ne_nil taken.ne_nil
  rw [List.append_assoc, List.takeWhile_append_of_pos hg, List.cons_append,
    List.takeWhile_cons_of_neg (taken.not_isGap c rfl), List.append_nil]

theorem Lexeme.Takes.dropWhile_append {k : Lexeme} {gap text behind : Text}
    (taken : k.Takes text behind) (hg : ∀ c ∈ gap, isGap c) :
    (gap ++ text ++ behind).dropWhile isGap = text ++ behind := by
  obtain ⟨c, more, rfl⟩ := List.exists_cons_of_ne_nil taken.ne_nil
  rw [List.append_assoc, List.dropWhile_append_of_pos hg, List.cons_append,
    List.dropWhile_cons_of_neg (taken.not_isGap c rfl)]

/-- How a text falls into items. -/
inductive Itemized : Text → List RowItem → Prop where
  | nil {gap : Text} (hg : ∀ c ∈ gap, isGap c) : Itemized gap []
  | last {gap text behind : Text} {k : Lexeme} (hg : ∀ c ∈ gap, isGap c)
      (taken : k.Takes text behind) (he : k.endsRow) :
      Itemized (gap ++ text ++ behind) [⟨gap, k, text⟩]
  | cons {gap text behind : Text} {k : Lexeme} {items : List RowItem} (hg : ∀ c ∈ gap, isGap c)
      (taken : k.Takes text behind) (he : k.endsRow = false) (rest : Itemized behind items) :
      Itemized (gap ++ text ++ behind) (⟨gap, k, text⟩ :: items)

theorem Lexeme.takes_next {c : Char} (hc : ¬isGap c) (rest : Text) :
    (next (c :: rest)).1.Takes ((c :: rest).take (next (c :: rest)).2)
      ((c :: rest).drop (next (c :: rest)).2) := by
  obtain ⟨pos, le⟩ := (starts_next c rest).length_pos_le
  obtain ⟨n, hn⟩ := Nat.exists_eq_succ_of_ne_zero (Nat.ne_of_gt pos)
  refine ⟨?_, ?_, ?_⟩
  · rw [List.take_append_drop, List.length_take, Nat.min_eq_left le]
  · rw [hn]
    exact List.cons_ne_nil _ _
  · rw [hn]
    simpa using hc

theorem itemized_list (rest : Text) : Itemized rest (RowItem.list rest) := by
  fun_induction RowItem.list rest with
  | case1 rest hs =>
      refine .nil fun c hc => ?_
      have whole := List.takeWhile_append_dropWhile (p := isGap) (l := rest)
      rw [hs, List.append_nil] at whole
      rw [← whole] at hc
      exact List.mem_takeWhile_imp hc
  | case2 rest c more hs lexeme length hl _ ih =>
      have whole : rest.takeWhile isGap ++ (c :: more) = rest := by
        rw [← hs, List.takeWhile_append_dropWhile]
      have gap : ∀ d ∈ rest.takeWhile isGap, isGap d := fun d hd => List.mem_takeWhile_imp hd
      have head : ¬isGap c := by
        have := List.head?_dropWhile_not isGap rest
        rw [hs] at this
        simpa using this
      have taken := takes_next head more
      obtain ⟨pos, -⟩ := (starts_next c more).length_pos_le
      simp only [hl] at taken pos
      have behind : Itemized ((c :: more).drop length)
          (RowItem.list (more.drop (length - 1))) := by
        obtain ⟨n, rfl⟩ := Nat.exists_eq_succ_of_ne_zero (Nat.ne_of_gt pos)
        exact ih
      have parts : rest.takeWhile isGap ++ (c :: more).take length ++ (c :: more).drop length =
          rest := by
        rw [List.append_assoc, List.take_append_drop, whole]
      cases he : lexeme.endsRow with
      | true =>
          have item := Itemized.last gap taken he
          rwa [parts] at item
      | false =>
          have item := Itemized.cons gap taken he behind
          rwa [parts] at item

section List

variable {gap text behind s : Text} {k : Lexeme} {items : List RowItem}

theorem RowItem.list_of_gap (hg : ∀ c ∈ gap, isGap c) : RowItem.list gap = [] := by
  have none : gap.dropWhile isGap = [] := List.dropWhile_eq_nil_iff.mpr hg
  rw [RowItem.list]
  split
  · rfl
  · next hs =>
      rw [none] at hs
      cases hs

/-- The first item of a text. -/
theorem RowItem.list_append (hg : ∀ c ∈ gap, isGap c) (taken : k.Takes text behind) :
    RowItem.list (gap ++ text ++ behind) =
      ⟨gap, k, text⟩ :: if k.endsRow then [] else RowItem.list behind := by
  have start := taken.takeWhile_append hg
  obtain ⟨c, more, rfl⟩ := List.exists_cons_of_ne_nil taken.ne_nil
  have tail : (gap ++ (c :: more) ++ behind).dropWhile isGap = c :: (more ++ behind) :=
    taken.dropWhile_append hg
  have next : next (c :: (more ++ behind)) = (k, (c :: more).length) := taken.next_eq
  rw [RowItem.list]
  split
  · next hs =>
      rw [tail] at hs
      cases hs
  · next hs =>
      rw [tail] at hs
      obtain ⟨rfl, rfl⟩ := List.cons.inj hs
      rw [start, next]
      simp

/-- The items of a text are found in it. -/
theorem Itemized.list_eq (h : Itemized s items) : RowItem.list s = items := by
  induction h with
  | nil hg => exact RowItem.list_of_gap hg
  | last hg taken he => rw [RowItem.list_append hg taken, if_pos he]
  | cons hg taken he _ ih => rw [RowItem.list_append hg taken, if_neg (by simp [he]), ih]

end List

end StyleGuide
