import Mathlib.Data.List.Induction
import StyleGuide.Lexeme.Literal
import StyleGuide.Proofs.Text.Offset
import StyleGuide.Proofs.Text.Word

/-! # Respaced texts

A text is respaced by putting other characters in the place of runs of characters that belong to
no word and no literal. What comes in may hold words, but it holds no quote mark and does not end
in a part of a word. So an occurrence of a mask stays whole, none is lost and none comes up, and
the quote marks keep their number.
-/

namespace StyleGuide

/-- A character of a word or of the mask of a literal. -/
def isFirm (c : Char) : Bool := Text.isWord c || Lexeme.isQuote c

theorem isFirm_of_isWord {c : Char} (h : Text.isWord c) : isFirm c := by simp [isFirm, h]

theorem isFirm_of_isQuote {c : Char} (h : Lexeme.isQuote c) : isFirm c := by simp [isFirm, h]

/-- What comes in the place of loose characters: a text without quote marks that ends in a loose
    character. -/
structure IsFiller (s : Text) : Prop where
  quoteFree : ∀ c ∈ s, ¬Lexeme.isQuote c
  loose_end : ∃ x c, s = x ++ [c] ∧ ¬isFirm c

/-- A filler given by its characters: the check runs over the text alone. -/
theorem IsFiller.of_all {s : Text} {c : Char} (free : (s ++ [c]).all fun d => !Lexeme.isQuote d)
    (loose : ¬isFirm c) : IsFiller (s ++ [c]) :=
  ⟨fun d hd => by simpa using List.all_eq_true.mp free d hd, s, c, rfl, loose⟩

theorem not_isFirm_of_isBlank {c : Char} (h : Text.isBlank c) : ¬isFirm c := by
  rw [isFirm, Bool.or_eq_true, not_or]
  refine ⟨Text.not_isWord_of_isBlank h, fun hq => ?_⟩
  simp only [Lexeme.isQuote, Bool.or_eq_true, beq_iff_eq] at hq
  obtain rfl | rfl := hq <;> exact absurd h (by decide)

theorem isFiller_of_forall {s : Text} (ne : s ≠ []) (h : ∀ c ∈ s, ¬isFirm c) : IsFiller s := by
  refine ⟨fun c hc hq => h c hc (isFirm_of_isQuote hq), ?_⟩
  rcases List.eq_nil_or_concat s with rfl | ⟨x, c, rfl⟩
  · exact absurd rfl ne
  · exact ⟨x, c, List.concat_eq_append .., h c (by simp)⟩

/-- The second text is the first with fillers in the place of some runs of loose characters. -/
inductive Respaced : Text → Text → Prop where
  | nil : Respaced [] []
  | keep {s s' : Text} (c : Char) (rest : Respaced s s') : Respaced (c :: s) (c :: s')
  | swap {g f s s' : Text} (ne : g ≠ []) (loose : ∀ c ∈ g, ¬isFirm c) (filler : IsFiller f)
      (rest : Respaced s s') : Respaced (g ++ s) (f ++ s')

namespace Respaced

variable {s s' t t' x y a b m : Text} {c : Char}

theorem refl : ∀ s : Text, Respaced s s
  | [] => .nil
  | c :: s => .keep c (refl s)

theorem append (h : Respaced s s') (ht : Respaced t t') : Respaced (s ++ t) (s' ++ t') := by
  induction h with
  | nil => exact ht
  | keep c _ ih => exact .keep c ih
  | swap ne loose filler _ ih =>
      rw [List.append_assoc, List.append_assoc]
      exact .swap ne loose filler ih

theorem eq_nil_iff (h : Respaced s s') : s = [] ↔ s' = [] := by
  cases h with
  | nil => simp
  | keep => simp
  | swap ne loose filler rest =>
      obtain ⟨x, c, rfl, -⟩ := filler.loose_end
      simp [ne]

theorem countP_isQuote (h : Respaced s s') :
    s'.countP Lexeme.isQuote = s.countP Lexeme.isQuote := by
  induction h with
  | nil => rfl
  | keep c _ ih => simp only [List.countP_cons, ih]
  | swap ne loose filler _ ih =>
      have none : ∀ c ∈ _, ¬Lexeme.isQuote c := fun c hc hq =>
        loose c hc (isFirm_of_isQuote hq)
      rw [List.countP_append, List.countP_append, List.countP_eq_zero.mpr none,
        List.countP_eq_zero.mpr filler.quoteFree, ih]

/-- A firm character keeps its place between respaced parts. -/
theorem exists_of_append_cons (hc : isFirm c) (h : Respaced s s') (hs : s = x ++ c :: y) :
    ∃ a b, s' = a ++ c :: b ∧ Respaced x a ∧ Respaced y b := by
  induction h generalizing x with
  | nil => simp at hs
  | keep d rest ih =>
      cases x with
      | nil =>
          simp only [List.nil_append, List.cons.injEq] at hs
          obtain ⟨rfl, rfl⟩ := hs
          exact ⟨[], _, rfl, .nil, rest⟩
      | cons e x =>
          simp only [List.cons_append, List.cons.injEq] at hs
          obtain ⟨rfl, hs⟩ := hs
          obtain ⟨a, b, rfl, hx, hy⟩ := ih hs
          exact ⟨d :: a, b, rfl, .keep d hx, hy⟩
  | swap ne loose filler rest ih =>
      rename_i g f u u'
      rcases List.append_eq_append_iff.mp hs with ⟨z, rfl, hz⟩ | ⟨z, rfl, hz⟩
      · obtain ⟨a, b, rfl, hx, hy⟩ := ih hz
        exact ⟨f ++ a, b, by simp, .swap ne loose filler hx, hy⟩
      · cases z with
        | nil =>
            obtain ⟨a, b, rfl, hx, hy⟩ := ih (x := []) (by simpa using hz.symm)
            refine ⟨f ++ a, b, by simp, ?_, hy⟩
            have := Respaced.swap ne loose filler hx
            simpa using this
        | cons d z =>
            simp only [List.cons_append, List.cons.injEq] at hz
            exact absurd hc (loose c (by simp [hz.1]))

theorem exists_of_append (hm : ∀ c ∈ m, isFirm c) (h : Respaced (m ++ y) s') :
    ∃ b, s' = m ++ b ∧ Respaced y b := by
  induction m generalizing s' with
  | nil => exact ⟨s', rfl, h⟩
  | cons c m ih =>
      obtain ⟨a, z, rfl, hx, hz⟩ := exists_of_append_cons (x := []) (hm c (by simp)) h rfl
      obtain rfl := hx.eq_nil_iff.mp rfl
      obtain ⟨b, rfl, hy⟩ := ih (fun d hd => hm d (by simp [hd])) hz
      exact ⟨b, rfl, hy⟩

/-- A firm text stays whole. -/
theorem exists_of_append_append (ne : m ≠ []) (hm : ∀ c ∈ m, isFirm c)
    (h : Respaced (x ++ m ++ y) s') :
    ∃ a b, s' = a ++ m ++ b ∧ Respaced x a ∧ Respaced y b := by
  cases m with
  | nil => exact absurd rfl ne
  | cons c m =>
      obtain ⟨a, z, rfl, hx, hz⟩ := exists_of_append_cons (x := x) (y := m ++ y)
        (hm c (by simp)) h (by simp)
      obtain ⟨b, rfl, hy⟩ := exists_of_append (fun d hd => hm d (by simp [hd])) hz
      exact ⟨a, b, by simp, hx, hy⟩

/-- A quote mark was there before. -/
theorem exists_of_quote (hc : Lexeme.isQuote c) (h : Respaced s s') (hs : s' = a ++ c :: b) :
    ∃ x y, s = x ++ c :: y ∧ Respaced x a ∧ Respaced y b := by
  induction h generalizing a with
  | nil => simp at hs
  | keep d rest ih =>
      cases a with
      | nil =>
          simp only [List.nil_append, List.cons.injEq] at hs
          obtain ⟨rfl, rfl⟩ := hs
          exact ⟨[], _, rfl, .nil, rest⟩
      | cons e a =>
          simp only [List.cons_append, List.cons.injEq] at hs
          obtain ⟨rfl, hs⟩ := hs
          obtain ⟨x, y, rfl, hx, hy⟩ := ih hs
          exact ⟨d :: x, y, rfl, .keep d hx, hy⟩
  | swap ne loose filler rest ih =>
      rename_i g f u u'
      rcases List.append_eq_append_iff.mp hs with ⟨z, rfl, hz⟩ | ⟨z, rfl, hz⟩
      · obtain ⟨x, y, rfl, hx, hy⟩ := ih hz
        exact ⟨g ++ x, y, by simp, .swap ne loose filler hx, hy⟩
      · cases z with
        | nil =>
            obtain ⟨x, y, rfl, hx, hy⟩ := ih (a := []) (by simpa using hz.symm)
            refine ⟨g ++ x, y, by simp, ?_, hy⟩
            have := Respaced.swap ne loose filler hx
            simpa using this
        | cons d z =>
            simp only [List.cons_append, List.cons.injEq] at hz
            exact absurd hc (filler.quoteFree c (by simp [hz.1]))

/-- A firm character at the end was there before. -/
theorem exists_of_concat (hc : isFirm c) (h : Respaced s s') (hs : s' = a ++ [c]) :
    ∃ x, s = x ++ [c] ∧ Respaced x a := by
  induction h generalizing a with
  | nil => simp at hs
  | keep d rest ih =>
      cases a with
      | nil =>
          simp only [List.nil_append, List.cons.injEq] at hs
          obtain ⟨rfl, hs⟩ := hs
          obtain rfl := rest.eq_nil_iff.mpr hs
          exact ⟨[], rfl, .nil⟩
      | cons e a =>
          simp only [List.cons_append, List.cons.injEq] at hs
          obtain ⟨rfl, hs⟩ := hs
          obtain ⟨x, rfl, hx⟩ := ih hs
          exact ⟨d :: x, rfl, .keep d hx⟩
  | swap ne loose filler rest ih =>
      rename_i g f u u'
      rcases List.eq_nil_or_concat u' with rfl | ⟨v, d, rfl⟩
      · obtain ⟨z, d, rfl, hd⟩ := filler.loose_end
        rw [List.append_nil] at hs
        obtain ⟨-, eq⟩ := List.append_inj' hs rfl
        obtain rfl : d = c := by simpa using eq
        exact absurd hc hd
      · rw [List.concat_eq_append, ← List.append_assoc] at hs
        obtain ⟨rfl, eq⟩ := List.append_inj' hs rfl
        obtain rfl : d = c := by simpa using eq
        obtain ⟨x, rfl, hx⟩ := ih (List.concat_eq_append ..)
        exact ⟨g ++ x, by simp, .swap ne loose filler hx⟩

/-- A firm text that ends in a quote mark was there before. -/
theorem exists_of_mask (hm : ∀ d ∈ m, isFirm d) (hc : Lexeme.isQuote c)
    (h : Respaced s (a ++ (m ++ [c]) ++ b)) :
    ∃ x y, s = x ++ (m ++ [c]) ++ y ∧ Respaced x a ∧ Respaced y b := by
  obtain ⟨z, y, rfl, hz, hy⟩ := exists_of_quote (a := a ++ m) (b := b) hc h (by simp)
  clear h
  suffices ∃ x, z = x ++ m ∧ Respaced x a by
    obtain ⟨x, rfl, hx⟩ := this
    exact ⟨x, y, by simp, hx, hy⟩
  clear hy
  induction m using List.reverseRecOn generalizing z with
  | nil => exact ⟨z, by simp, by simpa using hz⟩
  | append_singleton m d ih =>
      obtain ⟨w, rfl, hw⟩ := exists_of_concat (a := a ++ m) (hm d (by simp)) hz (by simp)
      obtain ⟨x, rfl, hx⟩ := ih (fun e he => hm e (by simp [he])) w hw
      exact ⟨x, by simp, hx⟩

/-- A mask is first behind a text exactly if it is first behind the respaced text. -/
theorem isFirst_iff (hm : ∀ d ∈ m, isFirm d) (hc : Lexeme.isQuote c) (h : Respaced s s') :
    Text.IsFirst s' (m ++ [c]) ↔ Text.IsFirst s (m ++ [c]) := by
  have both := h.append (refl (m ++ [c]))
  constructor
  · intro first x y eq
    rw [eq] at both
    obtain ⟨a, b, eq', -, hy⟩ := exists_of_append_append (by simp)
      (fun d hd => by
        rcases List.mem_append.mp hd with hd | hd
        · exact hm d hd
        · exact List.mem_singleton.mp hd ▸ isFirm_of_isQuote hc) both
    exact hy.eq_nil_iff.mpr (first a b eq')
  · intro first a b eq
    rw [eq] at both
    obtain ⟨x, y, eq', -, hy⟩ := exists_of_mask hm hc both
    exact hy.eq_nil_iff.mp (first x y eq')

/-- One loose character gives way to others. -/
theorem swap_cons {f : Text} (hc : ¬isFirm c) (filler : IsFiller f) (rest : Respaced s s') :
    Respaced (c :: s) (f ++ s') :=
  .swap (g := [c]) (by simp) (by simpa using hc) filler rest

end Respaced

/-- The second text is the first respaced, with perhaps more at the end that holds no quote
    mark. -/
def Reworked (s new : Text) : Prop :=
  ∃ s' tail, new = s' ++ tail ∧ Respaced s s' ∧ ∀ c ∈ tail, ¬Lexeme.isQuote c

namespace Reworked

variable {s s' g f new tail : Text}

theorem of_respaced (h : Respaced s s') : Reworked s s' := ⟨s', [], by simp, h, by simp⟩

/-- Text without quote marks may come at the end. -/
theorem nil (h : ∀ c ∈ tail, ¬Lexeme.isQuote c) : Reworked [] tail := ⟨[], tail, rfl, .nil, h⟩

theorem append (h : Respaced g f) (rest : Reworked s new) : Reworked (g ++ s) (f ++ new) := by
  obtain ⟨s', tail, rfl, rest, ht⟩ := rest
  exact ⟨f ++ s', tail, by simp, h.append rest, ht⟩

theorem keep (c : Char) (rest : Reworked s new) : Reworked (c :: s) (c :: new) :=
  append (.refl [c]) rest

theorem swap (ne : g ≠ []) (loose : ∀ c ∈ g, ¬isFirm c) (filler : IsFiller f)
    (rest : Reworked s new) : Reworked (g ++ s) (f ++ new) := by
  have := Respaced.swap ne loose filler .nil
  rw [List.append_nil, List.append_nil] at this
  exact append this rest

end Reworked

end StyleGuide
