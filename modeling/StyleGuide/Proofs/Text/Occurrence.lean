import Mathlib.Data.List.Chain
import StyleGuide.Proofs.Text.Offset

/-! # Occurrences of a part

The search for a part finds nothing exactly if the part does not occur. A part of two characters
occurs where these stand side by side.
-/

namespace StyleGuide.Text

variable {part s t : Text} {a b : Char}

theorem infix_of_cut? {before behind : Text} (h : cut? part s = some (before, behind)) :
    part <:+: s :=
  ⟨before, behind, append_of_cut? h⟩

theorem cut?_eq_none_iff : cut? part s = none ↔ ¬part <:+: s := by
  constructor
  · rintro none ⟨before, behind, rfl⟩
    obtain ⟨x, y, found⟩ := exists_cut?_append part before behind
    rw [none] at found
    cases found
  · intro absent
    cases h : cut? part s with
    | none => rfl
    | some found => exact absurd (infix_of_cut? h) absent

theorem find?_eq_none_iff : find? part s = none ↔ ¬part <:+: s := by
  rw [find?, Option.map_eq_none_iff, cut?_eq_none_iff]

/-- Nowhere does the character `a` stand directly in front of `b`. -/
def Parted (a b : Char) (s : Text) : Prop := s.IsChain fun c d => ¬(c = a ∧ d = b)

theorem Parted.not_infix_pair (h : Parted a b s) : ¬[a, b] <:+: s := by
  intro sub
  have pair := List.IsChain.infix h sub
  simp at pair

theorem parted_of_absent (h : ¬[a, b] <:+: s) : Parted a b s := by
  induction s with
  | nil => exact .nil
  | cons c s ih =>
      have rest := ih fun sub => h (sub.trans (List.suffix_cons c s).isInfix)
      cases s with
      | nil => exact .singleton c
      | cons d s =>
          refine .cons_cons ?_ rest
          rintro ⟨rfl, rfl⟩
          exact h ⟨[], s, rfl⟩

end StyleGuide.Text
