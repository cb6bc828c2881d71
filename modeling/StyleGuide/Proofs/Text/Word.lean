import StyleGuide.Text
import StyleGuide.Text.Word

/-! # White space and words -/

namespace StyleGuide.Text

theorem covers_eq_any (table : RangeTable) (c : Char) :
    table.covers c = table.toList.any fun range => range.1 ≤ c.toNat && c.toNat ≤ range.2 := by
  rw [RangeTable.covers, Array.any_toList]

/-- The ranges of white space. -/
def blankRanges : List (Nat × Nat) :=
  [(0x09, 0x0D), (0x20, 0x20), (0x85, 0x85), (0xA0, 0xA0), (0x1680, 0x1680), (0x2000, 0x200A),
    (0x2028, 0x2029), (0x202F, 0x202F), (0x205F, 0x205F), (0x3000, 0x3000)]

theorem exists_range_of_isBlank {c : Char} (h : isBlank c) :
    ∃ range ∈ blankRanges, range.1 ≤ c.toNat ∧ c.toNat ≤ range.2 := by
  simp only [isBlank, Bool.or_eq_true, Bool.and_eq_true, decide_eq_true_eq, beq_iff_eq] at h
  simp only [blankRanges, List.mem_cons, List.not_mem_nil, or_false, exists_eq_or_imp,
    exists_eq_left]
  omega

theorem blank_word_disjoint : wordTable.toList.all fun word =>
    blankRanges.all fun blank => blank.2 < word.1 || word.2 < blank.1 := by
  decide +kernel

theorem not_isWord_of_isBlank {c : Char} (h : isBlank c) : ¬isWord c := by
  obtain ⟨blank, hb, low, high⟩ := exists_range_of_isBlank h
  rw [isWord]
  split
  · next ascii =>
      have small : c.toNat ∈ [9, 10, 11, 12, 13, 32] := by
        simp only [blankRanges, List.mem_cons, List.not_mem_nil, or_false] at hb ⊢
        rcases hb with rfl | rfl | rfl | rfl | rfl | rfl | rfl | rfl | rfl | rfl <;>
          simp only at low high <;> omega
      rw [← Char.ofNat_toNat c]
      generalize c.toNat = n at small
      revert n
      decide
  · rw [covers_eq_any, List.any_eq_true]
    rintro ⟨word, hw, hc⟩
    simp only [Bool.and_eq_true, decide_eq_true_eq] at hc
    have disjoint := List.all_eq_true.mp (List.all_eq_true.mp blank_word_disjoint word hw) blank hb
    simp only [Bool.or_eq_true, decide_eq_true_eq] at disjoint
    omega

end StyleGuide.Text
