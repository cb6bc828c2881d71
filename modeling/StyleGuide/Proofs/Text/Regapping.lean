import Mathlib.Data.List.TakeWhile
import Mathlib.Tactic.Tauto
import StyleGuide.Lexeme
import StyleGuide.Rule.BracketSpace

/-! # Regapped texts

A text is regapped by giving its gaps other sizes. A gap goes away only beside a bracket, a
separator or an equals sign, so two words or two signs that a gap keeps apart stay apart. What is
read at the start of a text and looks ahead over digits or a few signs finds the same there.
-/

namespace StyleGuide

open Lexeme

/-- A bracket or a separator. -/
def isHinge (c : Char) : Bool := isOpening c || isClosing c || isSeparator c

/-- What none of the brackets and separators is, no hinge is. -/
theorem not_of_isHinge {p : Char → Bool} {c : Char}
    (none : ['(', '[', '\x7b', ')', ']', '\x7d', ',', ';', ':'].all fun d => !p d)
    (h : isHinge c) : ¬p c := by
  have mem : c ∈ ['(', '[', '\x7b', ')', ']', '\x7d', ',', ';', ':'] := by
    simp only [isHinge, isOpening, isClosing, isSeparator, Bool.or_eq_true, beq_iff_eq] at h
    simp only [List.mem_cons, List.not_mem_nil, or_false]
    tauto
  simpa using List.all_eq_true.mp none c mem

/-- A character of a gap, or the newline behind a text. -/
def isBreak (c : Char) : Bool := isGap c || c == '\n'

theorem isBreak_of_isGap {c : Char} (h : isGap c) : isBreak c := by simp [isBreak, h]

/-- What no break is by itself, none is. -/
theorem not_of_isBreak {p : Char → Bool} {c : Char}
    (none : [' ', '\t', '\x0c', '\n'].all fun d => !p d) (h : isBreak c) : ¬p c := by
  have mem : c ∈ [' ', '\t', '\x0c', '\n'] := by
    simp only [isBreak, isGap, Bool.or_eq_true, beq_iff_eq] at h
    simp only [List.mem_cons, List.not_mem_nil, or_false]
    tauto
  simpa using List.all_eq_true.mp none c mem

theorem not_of_isGap {p : Char → Bool} {c : Char}
    (none : [' ', '\t', '\x0c', '\n'].all fun d => !p d) (h : isGap c) : ¬p c :=
  not_of_isBreak none (isBreak_of_isGap h)

/-- A gap between the character `b` and the character `c` may be taken away. -/
def MayClose (b : Option Char) (c : Char) : Prop :=
  (∃ d ∈ b, isOpening d ∨ d = '=') ∨ isClosing c ∨ isSeparator c ∨ c = '='

theorem not_mayClose {b : Option Char} {c : Char} (hb : ∀ d ∈ b, ¬isHinge d ∧ d ≠ '=')
    (hc : ¬isHinge c ∧ c ≠ '=') : ¬MayClose b c := by
  simp only [isHinge, Bool.or_eq_true, not_or] at hb hc
  rintro (⟨d, hd, opening | rfl⟩ | closing | separator | rfl)
  · exact (hb d hd).1.1.1 opening
  · exact (hb '=' hd).2 rfl
  · exact hc.1.1.2 closing
  · exact hc.1.2 separator
  · exact hc.2 rfl

/-- The second text, behind the character `b`, is the first with other gaps, which are runs of
    characters that satisfy `p`. A gap comes in only where `Adds` says so of the character in front. -/
inductive Regapped (p : Char → Bool) (Adds : Option Char → Prop) : Option Char → Text → Text → Prop where
  | gaps {b : Option Char} {g g' : Text} (hg : ∀ d ∈ g, p d) (hg' : ∀ d ∈ g', p d) :
      Regapped p Adds b g g'
  | cons {b : Option Char} {g g' s s' : Text} {c : Char} (hg : ∀ d ∈ g, p d)
      (hg' : ∀ d ∈ g', p d) (hc : ¬p c) (taken : g ≠ [] → g' = [] → MayClose b c)
      (added : g = [] → g' ≠ [] → Adds b) (rest : Regapped p Adds (some c) s s') :
      Regapped p Adds b (g ++ c :: s) (g' ++ c :: s')

namespace Regapped

variable {p : Char → Bool} {Adds : Option Char → Prop} {b : Option Char} {s s' t t' g g' : Text} {c d : Char}

/-- A character that is no gap stays. -/
theorem keep (hc : ¬p c) (rest : Regapped p Adds (some c) s s') :
    Regapped p Adds b (c :: s) (c :: s') :=
  @cons p Adds b [] [] s s' c (by simp) (by simp) hc (by simp) (by simp) rest

theorem keep_gap (hd : p d) (rest : Regapped p Adds b s s') :
    Regapped p Adds b (d :: s) (d :: s') := by
  cases rest with
  | gaps hg hg' => exact gaps (by simpa [hd] using hg) (by simpa [hd] using hg')
  | cons hg hg' hc taken added rest =>
      rw [← List.cons_append, ← List.cons_append]
      exact cons (by simpa [hd] using hg) (by simpa [hd] using hg') hc (by simp) (by simp) rest

/-- A gap comes in at the end. -/
theorem concat (hg : ∀ d ∈ g, p d) (s : Text) : Regapped p Adds b s (s ++ g) := by
  induction s generalizing b with
  | nil => exact gaps (by simp) hg
  | cons c s ih =>
      by_cases hc : p c
      · exact keep_gap hc ih
      · exact keep hc ih

theorem refl (s : Text) : Regapped p Adds b s s := by
  simpa using concat (g := []) (by simp) s

/-- A gap keeps a size of its own where it was not empty before. -/
theorem resize (ne : g ≠ []) (ne' : g' ≠ []) (hg : ∀ d ∈ g, p d) (hg' : ∀ d ∈ g', p d)
    (rest : Regapped p Adds b s s') : Regapped p Adds b (g ++ s) (g' ++ s') := by
  cases rest with
  | gaps hh hh' =>
      apply gaps
      · simpa [or_imp, forall_and] using ⟨hg, hh⟩
      · simpa [or_imp, forall_and] using ⟨hg', hh'⟩
  | cons hh hh' hc taken added rest =>
      rw [← List.append_assoc, ← List.append_assoc]
      apply cons _ _ hc _ _ rest
      · simpa [or_imp, forall_and] using ⟨hg, hh⟩
      · simpa [or_imp, forall_and] using ⟨hg', hh'⟩
      · simp [ne']
      · simp [ne]

/-- A gap behind an opening bracket or an equals sign goes away. -/
theorem drop_behind (hb : ∃ d ∈ b, isOpening d ∨ d = '=') (hg : ∀ d ∈ g, p d)
    (rest : Regapped p Adds b s s') : Regapped p Adds b (g ++ s) s' := by
  cases rest with
  | gaps hh hh' => exact gaps (by simpa [or_imp, forall_and] using ⟨hg, hh⟩) hh'
  | cons hh hh' hc taken added rest =>
      rw [← List.append_assoc]
      apply cons _ hh' hc _ _ rest
      · simpa [or_imp, forall_and] using ⟨hg, hh⟩
      · exact fun _ _ => .inl hb
      · exact fun none => added (List.append_eq_nil_iff.mp none).2

/-- A gap in front of a closing bracket, a separator or an equals sign goes away. -/
theorem drop_before (hc : isClosing c ∨ isSeparator c ∨ c = '=') (solid : ¬p c)
    (hg : ∀ d ∈ g, p d) (rest : Regapped p Adds (some c) s s') :
    Regapped p Adds b (g ++ c :: s) (c :: s') :=
  @cons p Adds b g [] s s' c hg (by simp) solid (fun _ _ => .inr hc) (by simp) rest

/-- A gap comes in. -/
theorem add (hb : Adds b) (hg' : ∀ d ∈ g', p d) (rest : Regapped p Adds b s s') :
    Regapped p Adds b s (g' ++ s') := by
  cases rest with
  | gaps hh hh' => exact gaps hh (by simpa [or_imp, forall_and] using ⟨hg', hh'⟩)
  | cons hh hh' hc taken added rest =>
      rw [← List.append_assoc]
      apply cons hh _ hc _ _ rest
      · simpa [or_imp, forall_and] using ⟨hg', hh'⟩
      · exact fun ne none => taken ne (List.append_eq_nil_iff.mp none).2
      · exact fun _ _ => hb

/-- A text starts with the character that it was regapped from, if no gap was taken away. -/
theorem head?_eq (h : Regapped p Adds b s (c :: s')) (hc : ¬p c) :
    s.head? = some c ∨ MayClose b c := by
  generalize eq : c :: s' = w at h
  cases h with
  | gaps hg hg' => exact absurd (hg' c (by simp [← eq])) hc
  | @cons _ g g' _ _ _ hg hg' _ taken _ _ =>
      cases g' with
      | cons d g' => exact absurd (hg' c (by simp [(List.cons.inj eq).1])) hc
      | nil =>
          obtain rfl := (List.cons.inj eq).1
          cases g with
          | nil => exact .inl rfl
          | cons d g => exact .inr (taken (by simp) rfl)

/-- A text goes on behind its first character as before. -/
theorem exists_of_cons (h : Regapped p Adds b s (c :: s')) (hc : ¬p c) :
    ∃ g t, s = g ++ c :: t ∧ (∀ d ∈ g, p d) ∧ Regapped p Adds (some c) t s' := by
  generalize eq : c :: s' = w at h
  cases h with
  | gaps hg hg' => exact absurd (hg' c (by simp [← eq])) hc
  | @cons _ g g' t _ _ hg hg' _ _ _ rest =>
      cases g' with
      | cons d g' => exact absurd (hg' c (by simp [(List.cons.inj eq).1])) hc
      | nil =>
          obtain ⟨rfl, rfl⟩ := List.cons.inj eq
          exact ⟨g, t, rfl, hg, rest⟩

theorem dropWhile_gap (hg : ∀ d ∈ g, p d) (hc : ¬p c) :
    (g ++ c :: s).dropWhile p = c :: s := by
  rw [List.dropWhile_append_of_pos hg, List.dropWhile_cons_of_neg hc]

theorem forall_of_gaps (h : Regapped p Adds b g t') (hg : ∀ d ∈ g, p d) : ∀ d ∈ t', p d := by
  cases h with
  | gaps _ hg' => exact hg'
  | cons _ _ hc => exact absurd (hg _ (by simp)) hc

/-- The first character that is no gap keeps its place between regapped parts. -/
theorem exists_of_gap_cons (h : Regapped p Adds b (g ++ c :: s) t') (hg : ∀ d ∈ g, p d)
    (hc : ¬p c) :
    ∃ g' s', t' = g' ++ c :: s' ∧ (∀ d ∈ g', p d) ∧ (g = [] → g' ≠ [] → Adds b) ∧
      Regapped p Adds (some c) s s' := by
  generalize eq : g ++ c :: s = w at h
  cases h with
  | gaps hh => exact absurd (hh c (by simp [← eq])) hc
  | @cons _ h g' _ s' _ hh hg' he _ added rest =>
      have tails := congrArg (List.dropWhile p) eq
      rw [dropWhile_gap hg hc, dropWhile_gap hh he] at tails
      obtain ⟨rfl, rfl⟩ := List.cons.inj tails
      obtain rfl := List.append_cancel_right eq
      exact ⟨g', s', rfl, hg', added, rest⟩

/-- A text without gaps, and without a place inside it for one, stays whole. -/
theorem exists_of_append {m : Text} (h : Regapped p Adds b (g ++ m ++ t) s') (ne : m ≠ [])
    (hg : ∀ d ∈ g, p d) (hm : ∀ d ∈ m, ¬p d)
    (inner : ∀ x y, m = x ++ y → x ≠ [] → y ≠ [] → ¬Adds x.getLast?) :
    ∃ g' t', s' = g' ++ m ++ t' ∧ (∀ d ∈ g', p d) ∧ Regapped p Adds m.getLast? t t' := by
  obtain ⟨c, m, rfl⟩ := List.exists_cons_of_ne_nil ne
  rw [List.append_assoc, List.cons_append] at h
  obtain ⟨g', s', rfl, hg', -, rest⟩ := h.exists_of_gap_cons hg (hm c (by simp))
  suffices ∃ t', s' = m ++ t' ∧ Regapped p Adds (c :: m).getLast? t t' by
    obtain ⟨t', rfl, behind⟩ := this
    exact ⟨g', t', by simp, hg', behind⟩
  clear h
  induction m generalizing c s' with
  | nil => exact ⟨s', rfl, rest⟩
  | cons d m ih =>
      obtain ⟨h, u, rfl, hh, added, more⟩ :=
        Regapped.exists_of_gap_cons (g := []) rest (by simp) (hm d (by simp))
      obtain rfl : h = [] := by
        by_contra some
        exact inner [c] (d :: m) rfl (by simp) (by simp) (added rfl some)
      obtain ⟨t', rfl, behind⟩ := ih d (by simp) (fun e he => hm e (by simp [he]))
        (fun x y eq nx ny => by
          have := inner (c :: x) y (by rw [eq]; rfl) (by simp) ny
          rwa [List.getLast?_cons_of_ne_nil nx] at this) u more
      exact ⟨t', rfl, by rwa [List.getLast?_cons_cons]⟩

/-- A run of characters in front gets no longer, where the run holds no gap and nothing that a gap
    may be taken away beside. -/
theorem takeWhile_prefix {q : Char → Bool}
    (hq : ∀ c, q c → ¬p c ∧ ∀ d, q d → ¬MayClose (some d) c)
    (hb : ∀ c, q c → ¬MayClose b c) (h : Regapped p Adds b s s') :
    s'.takeWhile q <+: s.takeWhile q := by
  induction h with
  | @gaps b g g' hg hg' =>
      have none : g'.takeWhile q = [] := by
        cases g' with
        | nil => rfl
        | cons d g' =>
            rw [List.takeWhile_cons_of_neg]
            exact fun qd => (hq d qd).1 (hg' d (by simp))
      rw [none]
      exact List.nil_prefix
  | @cons b g g' s s' c hg hg' hc taken added rest ih =>
      cases g' with
      | cons d g' =>
          rw [List.cons_append, List.takeWhile_cons_of_neg]
          · exact List.nil_prefix
          · exact fun qd => (hq d qd).1 (hg' d (by simp))
      | nil =>
          by_cases qc : q c
          · have none : g = [] := by
              by_contra ne
              exact hb c qc (taken ne rfl)
            subst none
            rw [List.nil_append, List.nil_append, List.takeWhile_cons_of_pos qc,
              List.takeWhile_cons_of_pos qc, List.cons_prefix_cons]
            exact ⟨rfl, ih fun e qe => (hq e qe).2 c qc⟩
          · rw [List.nil_append, List.takeWhile_cons_of_neg qc]
            exact List.nil_prefix

end Regapped

end StyleGuide
