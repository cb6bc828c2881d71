import StyleGuide.Text

/-! # Byte offsets and first occurrences

A byte offset at the border of two parts of a text cuts it into these parts, and the search for a
part finds the first place where it occurs.
-/

namespace StyleGuide.Text

theorem dropBytes_byteLength_append (s t : Text) : dropBytes (byteLength s) (s ++ t) = t := by
  have whole := takeBytes_append_dropBytes (byteLength s) (s ++ t)
  rw [takeBytes_byteLength_append] at whole
  exact List.append_cancel_left whole

theorem slice_append (before part behind : Text) :
    slice (byteLength before) (byteLength before + byteLength part) (before ++ part ++ behind) =
      part := by
  rw [slice, List.append_assoc, dropBytes_byteLength_append, Nat.add_sub_cancel_left,
    takeBytes_byteLength_append]

theorem byteLength_eq_zero {s : Text} : byteLength s = 0 ↔ s = [] := by
  cases s with
  | nil => simp
  | cons c s =>
      have := c.utf8Size_pos
      simp only [byteLength_cons, reduceCtorEq, iff_false]
      omega

/-- Of two initial parts of a text, the one with fewer bytes is an initial part of the other. -/
theorem exists_append_of_byteLength_le {a b s t : Text} (h : a ++ s = b ++ t)
    (le : byteLength a ≤ byteLength b) : ∃ gap, b = a ++ gap := by
  rcases List.append_eq_append_iff.mp h with ⟨gap, rfl, -⟩ | ⟨gap, rfl, -⟩
  · exact ⟨gap, rfl⟩
  · have : gap = [] := byteLength_eq_zero.mp (by simp only [byteLength_append] at le; omega)
    exact ⟨[], by simp [this]⟩

/-- A byte offset is the end of one initial part at most. -/
theorem eq_of_prefix_of_byteLength_eq {a b s : Text} (ha : a <+: s) (hb : b <+: s)
    (h : byteLength a = byteLength b) : a = b := by
  obtain ⟨x, hx⟩ := ha
  obtain ⟨y, hy⟩ := hb
  obtain ⟨gap, rfl⟩ := exists_append_of_byteLength_le (hx.trans hy.symm) (Nat.le_of_eq h)
  rw [byteLength_append] at h
  have : gap = [] := byteLength_eq_zero.mp (by omega)
  rw [this, List.append_nil]

/-- No occurrence of `part` in `before ++ part` ends before the last one. -/
def IsFirst (before part : Text) : Prop :=
  ∀ x y, before ++ part = x ++ part ++ y → y = []

theorem cut?_append {part before : Text} (hp : part ≠ []) (first : IsFirst before part)
    (behind : Text) : cut? part (before ++ part ++ behind) = some (before, behind) := by
  induction before with
  | nil =>
      cases part with
      | nil => exact absurd rfl hp
      | cons c part =>
          have : (c :: part).isPrefixOf (c :: (part ++ behind)) = true :=
            List.isPrefixOf_iff_prefix.mpr ⟨behind, rfl⟩
          simp [cut?, this]
  | cons c before ih =>
      have later : IsFirst before part := by
        intro x y h
        exact first (c :: x) y (by simp [h])
      have here : part.isPrefixOf (c :: (before ++ part ++ behind)) = false := by
        rw [Bool.eq_false_iff, ne_eq, List.isPrefixOf_iff_prefix]
        rintro ⟨rest, h⟩
        -- an occurrence at the very start would end before the last one
        have short : part <+: c :: (before ++ part) :=
          List.prefix_of_prefix_length_le ⟨rest, h⟩ ⟨behind, by simp⟩ (by simp; omega)
        obtain ⟨y, hy⟩ := short
        have := first [] y (by simpa using hy.symm)
        subst this
        have := congrArg List.length hy
        simp only [List.length_append, List.length_cons, List.length_nil] at this
        omega
      simp only [List.cons_append] at here ⊢
      rw [cut?, here]
      simp only [Bool.false_eq_true, if_false]
      rw [ih later]
      rfl

/-- The search ends no later than an occurrence that is there. -/
theorem exists_cut?_append (part s t : Text) :
    ∃ before y, cut? part (s ++ part ++ t) = some (before, y ++ t) := by
  induction s with
  | nil =>
      rw [List.nil_append]
      have here : part.isPrefixOf (part ++ t) = true := List.isPrefixOf_iff_prefix.mpr ⟨t, rfl⟩
      cases h : part ++ t with
      | nil =>
          obtain ⟨rfl, rfl⟩ := List.append_eq_nil_iff.mp h
          exact ⟨[], [], rfl⟩
      | cons c u =>
          rw [h] at here
          refine ⟨[], [], ?_⟩
          rw [cut?, if_pos here, ← h, List.drop_left]
          rfl
  | cons c s ih =>
      rw [List.cons_append, List.cons_append, cut?]
      split
      · refine ⟨[], (c :: (s ++ part)).drop part.length, ?_⟩
        rw [← List.cons_append, List.drop_append_of_le_length (by simp; omega)]
      · obtain ⟨before, y, h⟩ := ih
        exact ⟨c :: before, y, by rw [h]; rfl⟩

theorem isFirst_of_cut? {part before s behind : Text} (h : cut? part s = some (before, behind)) :
    IsFirst before part := by
  induction s generalizing before with
  | nil =>
      simp only [cut?] at h
      split at h
      · next hp =>
          cases part with
          | nil =>
              simp only [Option.some.injEq, Prod.mk.injEq] at h
              intro x y hxy
              rw [← h.1] at hxy
              simp_all
          | cons => simp at hp
      · simp at h
  | cons c s ih =>
      simp only [cut?] at h
      split at h
      · simp only [Option.some.injEq, Prod.mk.injEq] at h
        intro x y hxy
        rw [← h.1] at hxy
        have := congrArg List.length hxy
        simp only [List.length_append, List.length_nil] at this
        exact List.length_eq_zero_iff.mp (by omega)
      · next here =>
          obtain ⟨⟨rest, behind'⟩, found, eq⟩ := Option.map_eq_some_iff.mp h
          simp only [Prod.mk.injEq] at eq
          obtain ⟨rfl, rfl⟩ := eq
          intro x y hxy
          cases x with
          | nil =>
              have whole := append_of_cut? found
              refine absurd (List.isPrefixOf_iff_prefix.mpr ⟨y ++ behind', ?_⟩) here
              rw [← whole, ← List.append_assoc, ← List.nil_append part, ← hxy]
              simp
          | cons d x =>
              simp only [List.cons_append, List.cons.injEq] at hxy
              exact ih found x y hxy.2

/-- The search stops at `before` exactly if `part` does not occur earlier. -/
theorem cut?_eq_some_iff {part before behind : Text} (hp : part ≠ []) :
    cut? part (before ++ part ++ behind) = some (before, behind) ↔ IsFirst before part :=
  ⟨isFirst_of_cut?, fun first => cut?_append hp first behind⟩

end StyleGuide.Text
