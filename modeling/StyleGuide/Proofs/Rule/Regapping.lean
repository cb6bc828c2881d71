import StyleGuide.Proofs.Lexeme.Regapping
import StyleGuide.Proofs.Rule.Respacing

/-! # What the rules for spaces do to gaps

Each fix of a rule for spaces changes gaps only: it takes one away beside a bracket, a separator or
an equals sign, gives one another size, or puts one behind a separator.
-/

namespace StyleGuide

open Lexeme

/-- The second text is the first with other gaps, whatever stands in front. -/
def Regaps (s s' : Text) : Prop := ∀ b, Regapped isGap behindSeparator b s s'

namespace Regaps

variable {s s' g g' : Text} {c : Char}

theorem refl (s : Text) : Regaps s s := fun _ => .refl s

theorem keep (c : Char) (h : Regaps s s') : Regaps (c :: s) (c :: s') := by
  intro b
  by_cases hc : isGap c
  · exact .keep_gap hc (h b)
  · exact .keep hc (h (some c))

theorem append (x : Text) (h : Regaps s s') : Regaps (x ++ s) (x ++ s') := by
  induction x with
  | nil => exact h
  | cons c x ih => exact ih.keep c

theorem resize (ne : g ≠ []) (ne' : g' ≠ []) (hg : ∀ d ∈ g, isGap d) (hg' : ∀ d ∈ g', isGap d)
    (h : Regaps s s') : Regaps (g ++ s) (g' ++ s') :=
  fun b => (h b).resize ne ne' hg hg'

end Regaps

theorem isGap_of_mem_space : ∀ d ∈ [' '], isGap d := List.forall_mem_singleton.mpr rfl

theorem InnerSpace.regaps_remove (before : Option Char) (s : Text) : Regaps s (remove before s) := by
  fun_induction remove before s with
  | case1 before c d rest h ih =>
      simp only [isAfterOpening, Bool.and_eq_true, beq_iff_eq] at h
      obtain ⟨hc, rfl⟩ := h
      intro b
      apply Regapped.keep
      · intro gap
        exact not_of_isGap (by decide) gap hc
      · exact .drop_behind ⟨c, rfl, .inl hc⟩ isGap_of_mem_space (ih (some c))
  | case2 c d rest h hb ih => exact (ih.keep d).keep c
  | case3 before c d rest h hb hbefore ih =>
      simp only [isBeforeMark, Bool.and_eq_true, beq_iff_eq, Bool.or_eq_true] at hb
      obtain ⟨rfl, hd⟩ := hb
      intro b
      have solid : ¬isGap d := fun gap =>
        not_of_isGap (p := fun d => isClosing d || isSeparator d) (by decide) gap (by simpa using hd)
      exact .drop_before (hd.imp_right .inl) solid isGap_of_mem_space (ih (some d))
  | case4 before c d rest h hb ih => exact ih.keep c
  | case5 => exact .refl _

theorem MissingSeparatorSpace.regaps_add (opened closed : Nat) (s : Text) :
    Regaps s (add opened closed s) := by
  fun_induction add opened closed s with
  | case1 opened closed c d rest _ h ih =>
      simp only [isNeeded, Bool.and_eq_true] at h
      have separator := h.1.1.1.1
      intro b
      apply Regapped.keep
      · intro gap
        exact not_of_isGap (by decide) gap separator
      · exact .add ⟨c, rfl, separator⟩ isGap_of_mem_space (ih (some c))
  | case2 opened closed c d rest _ h ih => exact ih.keep c
  | case3 => exact .refl _

theorem WideSeparatorSpace.regaps_collapse (s : Text) : Regaps s (collapse s) := by
  fun_induction collapse s with
  | case1 => exact .refl _
  | case2 c rest hc gap behind empty ih =>
      have : behind = rest := by simp [behind, List.isEmpty_iff.mp empty]
      rw [this] at ih ⊢
      exact ih.keep c
  | case3 c rest hc gap behind some ih =>
      have whole : gap ++ behind = rest :=
        List.prefix_iff_eq_append.mp (List.takeWhile_prefix _)
      have gaps : ∀ d ∈ gap, isGap d := by
        intro d hd
        have : d = ' ' ∨ d = '\t' := by simpa using List.mem_takeWhile_imp hd
        rcases this with rfl | rfl <;> rfl
      rw [← whole]
      exact (ih.resize (by simpa using some) (List.cons_ne_nil ' ' []) gaps isGap_of_mem_space).keep c
  | case4 c rest hc ih => exact ih.keep c

/-- White space is a gap everywhere in the text. -/
def HasPlainGaps (s : Text) : Prop := ∀ c ∈ s, Text.isBlank c → isGap c

namespace ArgumentEquals

theorem regaps_trim {c d : Char} {s s' : Text} (hc : Text.isBlank c → isGap c)
    (hd : Text.isBlank d → isGap d) (h : Regaps s s') :
    Regaps ([c, '=', d] ++ s) (Text.trim [c, '=', d] ++ s') := by
  have behind : Regapped isGap behindSeparator (some '=') (d :: s)
      ((if Text.isBlank d then [] else [d]) ++ s') := by
    split
    · next blank => exact .drop_behind (g := [d]) ⟨'=', rfl, .inr rfl⟩ (by simpa using hd blank) (h _)
    · exact h.keep d _
  have solid : ¬isGap '=' := by decide
  rw [trim_spaced, List.append_assoc, List.append_assoc]
  split
  · next blank =>
      intro b
      exact .drop_before (g := [c]) (.inr (.inr rfl)) solid (by simpa using hc blank) behind
  · exact Regaps.keep c fun b => .keep solid behind

theorem regaps_tighten {s : Text} (gaps : HasPlainGaps s) : Regaps s (tighten (parts s)) := by
  simp only [tighten]
  fun_induction parts s with
  | case1 rest ih => exact (ih fun c hc => gaps c (List.mem_cons_of_mem _ hc)).keep _
  | case2 rest ih => exact (ih fun c hc => gaps c (List.mem_cons_of_mem _ hc)).keep _
  | case3 c d rest _ _ h ih =>
      have more := ih fun e he => gaps e (by simp [he])
      have : Regaps ([c, '=', d] ++ rest) ((if 0 < ((parts rest).foldr prepend (0, [])).1
          then Text.trim [c, '=', d] else [c, '=', d]) ++
            ((parts rest).foldr prepend (0, [])).2) := by
        split
        · exact regaps_trim (gaps c (by simp)) (gaps d (by simp)) more
        · exact more.append _
      exact this
  | case4 c d rest _ _ h ih => exact (ih fun e he => gaps e (List.mem_cons_of_mem _ he)).keep c
  | case5 c rest _ _ _ ih => exact (ih fun e he => gaps e (List.mem_cons_of_mem _ he)).keep c
  | case6 => exact .refl _

end ArgumentEquals

namespace WideOperatorSpace

theorem Part.regaps_collapse {before gap after s s' : Text} (wide : isWide gap)
    (gaps : ∀ c ∈ gap, isGap c) (h : Regaps s s') :
    Regaps (before ++ gap ++ after ++ s) ((Part.wide before gap after).collapse ++ s') := by
  simp only [collapse]
  split
  · simp only [List.append_assoc]
    apply Regaps.append
    exact (h.append after).resize (ne_nil_of_isWide wide) (List.cons_ne_nil ' ' []) gaps isGap_of_mem_space
  · exact h.append _

theorem regaps_collapse {s : Text} (gaps : HasPlainGaps s) :
    Regaps s ((parts s).flatMap Part.collapse) := by
  fun_induction parts s with
  | case1 => exact .refl _
  | case2 c rest before gap width wide after ih =>
      have whole := append_parts c rest wide
      have more := ih fun e he => gaps e (by rw [← whole]; exact List.mem_append_right _ he)
      have plain : ∀ d ∈ gap, isGap d := by
        intro d hd
        apply gaps d _ (List.mem_takeWhile_imp hd)
        rw [← whole]
        exact List.mem_append_left _ (List.mem_append_left _ (List.mem_append_right _ hd))
      rw [← whole]
      exact Part.regaps_collapse wide plain more
  | case3 c rest before gap width plain ih =>
      have whole : (c :: rest).take (max width 1) ++ rest.drop (width - 1) = c :: rest := by
        cases width with
        | zero => rfl
        | succ n => simp
      have := (ih fun e he => gaps e (List.mem_cons_of_mem _ (List.mem_of_mem_drop he))).append
        ((c :: rest).take (max width 1))
      rw [whole] at this
      exact this

end WideOperatorSpace

end StyleGuide
