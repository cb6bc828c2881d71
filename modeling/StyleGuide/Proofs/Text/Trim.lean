import Mathlib.Data.List.DropRight
import StyleGuide.Text

/-! # White space at the end of a text -/

namespace StyleGuide.Text

variable {p : Char → Bool} {s t : Text} {c : Char}

theorem dropEndWhile_eq_rdropWhile (p : Char → Bool) (s : Text) :
    dropEndWhile p s = s.rdropWhile p := rfl

theorem dropEndWhile_prefix (p : Char → Bool) (s : Text) : dropEndWhile p s <+: s :=
  List.rdropWhile_prefix p s

theorem dropEndWhile_append (h : ¬p c) (t : Text) :
    dropEndWhile p (s ++ [c] ++ t) = s ++ [c] ++ dropEndWhile p t := by
  induction t using List.reverseRecOn with
  | nil =>
      rw [List.append_nil, dropEndWhile_eq_rdropWhile, List.rdropWhile_concat_neg _ _ _ h]
      exact (List.append_nil _).symm
  | append_singleton t d ih =>
      rw [← List.append_assoc]
      by_cases hd : p d
      · rw [dropEndWhile_eq_rdropWhile, List.rdropWhile_concat_pos _ _ _ hd,
          ← dropEndWhile_eq_rdropWhile, ih, dropEndWhile_eq_rdropWhile _ (t ++ [d]),
          List.rdropWhile_concat_pos _ _ _ hd]
        rfl
      · rw [dropEndWhile_eq_rdropWhile, List.rdropWhile_concat_neg _ _ _ hd,
          dropEndWhile_eq_rdropWhile _ (t ++ [d]), List.rdropWhile_concat_neg _ _ _ hd]
        simp

theorem dropEndWhile_append_of_forall_not (h : ∀ c ∈ s, ¬p c) (t : Text) :
    dropEndWhile p (s ++ t) = s ++ dropEndWhile p t := by
  rcases List.eq_nil_or_concat s with rfl | ⟨front, c, rfl⟩
  · rfl
  · rw [List.concat_eq_append] at h ⊢
    exact dropEndWhile_append (h c (by simp)) t

/-- What is dropped at the end does not stand at the end. -/
theorem getLast?_dropEndWhile_ne (hc : p c) (s : Text) : (dropEndWhile p s).getLast? ≠ some c := by
  intro last
  have ne : dropEndWhile p s ≠ [] := by
    rintro none
    rw [none] at last
    cases last
  rw [List.getLast?_eq_some_getLast ne] at last
  exact List.rdropWhile_last_not p s ne (Option.some.inj last ▸ hc)

theorem trimEnd_concat (h : isBlank c) (s : Text) : trimEnd (s ++ [c]) = trimEnd s := by
  rw [trimEnd, dropEndWhile_eq_rdropWhile, List.rdropWhile_concat_pos _ _ _ h]
  rfl

/-- Trimming at the end does not see what is trimmed there before. -/
theorem trimEnd_dropEndWhile (hp : ∀ c, p c → isBlank c) (s : Text) :
    trimEnd (dropEndWhile p s) = trimEnd s := by
  induction s using List.reverseRecOn with
  | nil => rfl
  | append_singleton s c ih =>
      by_cases hc : p c
      · rw [trimEnd_concat (hp c hc), dropEndWhile_eq_rdropWhile,
          List.rdropWhile_concat_pos _ _ _ hc, ← ih]
        rfl
      · rw [dropEndWhile_eq_rdropWhile, List.rdropWhile_concat_neg _ _ _ hc]

theorem exists_of_trimEnd_ne_nil (h : trimEnd s ≠ []) :
    ∃ a c b, s = a ++ [c] ++ b ∧ ¬isBlank c ∧ trimEnd s = a ++ [c] := by
  have last : ¬isBlank ((trimEnd s).getLast h) := List.rdropWhile_last_not isBlank s h
  obtain ⟨b, hb⟩ := dropEndWhile_prefix isBlank s
  refine ⟨(trimEnd s).dropLast, (trimEnd s).getLast h, b, ?_, last, ?_⟩
  · rw [List.dropLast_append_getLast]
    exact hb.symm
  · rw [List.dropLast_append_getLast]

/-- In front of a text that is more than white space, nothing is trimmed at the end. -/
theorem trimEnd_append (h : trimEnd t ≠ []) (s : Text) : trimEnd (s ++ t) = s ++ trimEnd t := by
  obtain ⟨a, c, b, rfl, hc, eq⟩ := exists_of_trimEnd_ne_nil h
  have whole : s ++ (a ++ [c] ++ b) = (s ++ a) ++ [c] ++ b := by simp
  rw [whole, trimEnd, dropEndWhile_append hc, trimEnd, dropEndWhile_append hc]
  simp

theorem trimEnd_eq_nil_iff : trimEnd s = [] ↔ ∀ c ∈ s, isBlank c := List.rdropWhile_eq_nil_iff

theorem isAllBlank_iff_trim : isAllBlank s ↔ trim s = [] := by
  rw [trim, trimEnd_eq_nil_iff, isAllBlank, List.all_eq_true]
  refine ⟨fun h c hc => h c ((List.dropWhile_suffix _).subset hc), fun h => ?_⟩
  rw [← List.dropWhile_eq_nil_iff]
  by_contra ne
  exact absurd (h _ (List.head_mem ne)) (by simp [List.head_dropWhile_not isBlank ne])

theorem trimEnd_infix (h : t <:+: s) : trimEnd t <:+: trimEnd s := by
  by_cases ne : trimEnd t = []
  · rw [ne]
    exact List.nil_infix
  · obtain ⟨a, c, b, rfl, hc, eq⟩ := exists_of_trimEnd_ne_nil ne
    obtain ⟨before, behind, rfl⟩ := h
    rw [eq]
    have parts : before ++ (a ++ [c] ++ b) ++ behind = (before ++ a) ++ [c] ++ (b ++ behind) := by
      simp
    rw [parts, trimEnd, dropEndWhile_append hc]
    exact ⟨before, dropEndWhile isBlank (b ++ behind), by simp⟩

/-- It makes no difference which end is trimmed first. -/
theorem trim_eq_trimStart_trimEnd (s : Text) : trim s = trimStart (trimEnd s) := by
  induction s with
  | nil => rfl
  | cons c s ih =>
      by_cases hc : isBlank c
      · have start : trimStart (c :: s) = trimStart s := List.dropWhile_cons_of_pos hc
        rw [trim, start, ← trim, ih]
        cases hs : trimEnd s with
        | nil =>
            have blank : ∀ d ∈ c :: s, isBlank d := by
              intro d hd
              rcases List.mem_cons.mp hd with rfl | hd
              · exact hc
              · exact List.rdropWhile_eq_nil_iff.mp hs d hd
            have none : trimEnd (c :: s) = [] := List.rdropWhile_eq_nil_iff.mpr blank
            rw [none]
        | cons d more =>
            obtain ⟨a, e, b, rfl, he, eq⟩ := exists_of_trimEnd_ne_nil (s := s) (by simp [hs])
            have whole : trimEnd (c :: (a ++ [e] ++ b)) = c :: trimEnd (a ++ [e] ++ b) := by
              rw [trimEnd, trimEnd, ← List.cons_append, ← List.cons_append, dropEndWhile_append he,
                dropEndWhile_append he]
              rfl
            rw [whole, hs]
            exact (List.dropWhile_cons_of_pos hc).symm
      · have start : trimStart (c :: s) = c :: s := List.dropWhile_cons_of_neg hc
        have whole : trimEnd (c :: s) = c :: trimEnd s :=
          dropEndWhile_append (s := []) hc s
        rw [trim, start, whole]
        exact (List.dropWhile_cons_of_neg hc).symm

theorem trim_congr_trimEnd (h : trimEnd s = trimEnd t) : trim s = trim t := by
  rw [trim_eq_trimStart_trimEnd, trim_eq_trimStart_trimEnd, h]

theorem trim_congr_trimStart (h : trimStart s = trimStart t) : trim s = trim t := by
  rw [trim, trim, h]

theorem trimStart_append (h : ∀ c ∈ s, isBlank c) (t : Text) :
    trimStart (s ++ t) = trimStart t := by
  induction s with
  | nil => rfl
  | cons c s ih =>
      rw [List.cons_append, trimStart, List.dropWhile_cons_of_pos (h c (by simp))]
      exact ih fun d hd => h d (List.mem_cons_of_mem _ hd)

/-- A part that begins with a character that is not white space is not trimmed at the start. -/
theorem trimEnd_infix_trim {c : Char} (hc : ¬isBlank c) (h : c :: t <:+: s) :
    trimEnd (c :: t) <:+: trim s := by
  obtain ⟨before, behind, rfl⟩ := h
  refine trimEnd_infix ?_
  induction before with
  | nil =>
      rw [List.nil_append, List.cons_append, trimStart, List.dropWhile_cons_of_neg hc]
      exact ⟨[], behind, rfl⟩
  | cons d before ih =>
      rw [List.cons_append, List.cons_append, trimStart]
      by_cases hd : isBlank d
      · rw [List.dropWhile_cons_of_pos hd]
        exact ih
      · rw [List.dropWhile_cons_of_neg hd]
        exact ⟨d :: before, behind, rfl⟩

theorem trim_infix (s : Text) : trim s <:+: s := by
  have first : trimEnd (trimStart s) <+: trimStart s := dropEndWhile_prefix _ _
  exact first.isInfix.trans (List.dropWhile_suffix _).isInfix

theorem trim_infix_trimEnd (s : Text) : trim s <:+: trimEnd s :=
  trimEnd_infix (List.dropWhile_suffix _).isInfix

/-- What a row starts with and does not end in a terminator is in front of the terminator. -/
theorem prefix_withoutTerminator {a row : Text} (h : a <+: row)
    (last : ∀ c ∈ a.getLast?, c ≠ '\n' ∧ c ≠ '\r') : a <+: withoutTerminator row := by
  rcases List.eq_nil_or_concat a with rfl | ⟨s, c, rfl⟩
  · exact List.nil_prefix
  · obtain ⟨t, rfl⟩ := h
    have hc : ¬((c == '\n' || c == '\r') = true) := by simpa using last c (by simp)
    rw [List.concat_eq_append, withoutTerminator, dropEndWhile_append hc]
    exact List.prefix_append _ _

theorem trimEnd_prefix_withoutTerminator (row : Text) : trimEnd row <+: withoutTerminator row := by
  by_cases ne : trimEnd row = []
  · rw [ne]
    exact List.nil_prefix
  · obtain ⟨a, c, b, -, hc, eq⟩ := exists_of_trimEnd_ne_nil ne
    refine prefix_withoutTerminator (Text.dropEndWhile_prefix _ _) fun d hd => ?_
    rw [eq, List.getLast?_concat, Option.mem_some] at hd
    subst hd
    constructor <;> rintro rfl <;> exact hc rfl

theorem ne_newline_of_getLast?_withoutTerminator (row : Text) :
    ∀ c ∈ (withoutTerminator row).getLast?, c ≠ '\n' ∧ c ≠ '\r' := by
  intro c hc
  refine ⟨?_, ?_⟩ <;>
  · rintro rfl
    exact getLast?_dropEndWhile_ne (by decide) row hc

end StyleGuide.Text
