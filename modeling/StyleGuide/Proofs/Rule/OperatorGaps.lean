import StyleGuide.Proofs.Rule.Seams

/-! # The search for missing spaces behind a fix

The search for missing spaces goes through the tokens in one of two states. Where the spaces that it
asks for have come in, it goes through the same states again and asks for nothing.
-/

namespace StyleGuide

open Lexeme

namespace MissingOperatorSpace

variable {columns : List Nat} {row depth column : Nat} {isNeeded : Bool} {line s : Text}
  {items : List RowItem} {r : RowTokens} {before t u : Token} {ts tokens tokens' : List Token}
  {p : Position}

/-- A space is asked for between two tokens of which the second begins where the first ends. -/
theorem exists_infix_of_mem_gapsBehind (h : p ∈ gapsBehind depth isNeeded before ts) :
    ∃ t u, [t, u] <:+: before :: ts ∧ t.stop = p ∧ u.start = p := by
  have first (before t : Token) (rest : List Token) : [before, t] <:+: before :: t :: rest :=
    ⟨[], rest, rfl⟩
  have later {before t u v : Token} {rest : List Token} (h : [u, v] <:+: t :: rest) :
      [u, v] <:+: before :: t :: rest := List.infix_cons h
  fun_induction gapsBehind depth isNeeded before ts with
  | case1 => cases h
  | case2 depth before t rest d glued hg ih =>
      rcases List.mem_cons.mp h with rfl | h
      · exact ⟨before, t, first .., rfl, beq_iff_eq.mp (Bool.and_eq_true_iff.mp hg).1⟩
      · obtain ⟨u, v, sub, place⟩ := ih h
        exact ⟨u, v, later sub, place⟩
  | case4 depth isNeeded before t rest d glued no needs hn ih =>
      rcases List.mem_cons.mp h with rfl | h
      · have glued : t.start = before.stop := beq_iff_eq.mp (Bool.and_eq_true_iff.mp hn).2
        exact ⟨before, t, first .., glued.symm, rfl⟩
      · obtain ⟨u, v, sub, place⟩ := ih h
        exact ⟨u, v, later sub, place⟩
  | case3 | case5 =>
      rename_i ih
      obtain ⟨u, v, sub, place⟩ := ih h
      exact ⟨u, v, later sub, place⟩

theorem exists_infix_of_mem_gaps (h : p ∈ gaps tokens) :
    ∃ t u, [t, u] <:+: tokens.filter isSpaced ∧ t.stop = p ∧ u.start = p := by
  rw [gaps] at h
  split at h
  · cases h
  · next t rest eq =>
      rw [eq]
      exact exists_infix_of_mem_gapsBehind h

/-- Token `u` stands behind token `t`, and the two are no obsolete inequality in two parts. -/
structure Follows (t u : Token) : Prop where
  le : t.stop.column ≤ u.start.column
  apart : t.text = ['<'] → u.text = ['>'] → t.stop.column ≠ u.start.column

/-- A sign of two characters is read as one token. -/
theorem pairwise_follows (h : ReadsRow row line depth column s items r) :
    r.tokens.Pairwise Follows := by
  induction h with
  | nil => exact .nil
  | terminator => exact List.pairwise_singleton ..
  | cons _ taken _ _ rest ih =>
      refine .cons (fun u hu => ⟨(rest.start hu).1, ?_⟩) ih
      rintro rfl greater glued
      obtain ⟨more, rfl⟩ := greater ▸ (rest.start hu).2 glued.symm
      cases taken.next_eq

/-- The second of two tokens stays directly behind the first if it was there and no space has come
    in between. -/
theorem glued_moved (h : Follows t u) (line : Text) :
    (moved columns line u).start = (moved columns line t).stop ↔
      u.start = t.stop ∧ u.start.column ∉ columns := by
  obtain ⟨le, -⟩ := h
  have mono : spacesBefore columns t.stop.column ≤ spacesBefore columns u.start.column :=
    spacesBefore_mono le
  have next := spacesBefore_succ columns u.start.column
  constructor
  · intro glued
    obtain ⟨row, shifted⟩ := Position.mk.inj glued
    have here : u.start.column = t.stop.column := by omega
    refine ⟨congrArg₂ Position.mk row here, fun mem => ?_⟩
    have space : spaceAt columns u.start.column = [' '] := if_pos (by simpa using mem)
    rw [space, Text.byteLength_cons] at next
    have := ' '.utf8Size_pos
    omega
  · rintro ⟨here, free⟩
    rw [spaceAt_eq_nil free, here] at next
    simp only [moved, here, next, Text.byteLength_nil, Nat.add_zero]

theorem isGlued_moved (h : Follows t u) (line : Text) :
    ((moved columns line u).start == (moved columns line t).stop) =
      (u.start == t.stop && !columns.contains u.start.column) := by
  rw [Bool.eq_iff_iff]
  simpa using glued_moved h line

/-- One step of the search over tokens that have moved. -/
theorem gapsBehind_moved_cons (h : Follows t u) (depth : Nat) (isNeeded : Bool) (line : Text)
    (ts : List Token) :
    gapsBehind depth isNeeded (moved columns line t) (moved columns line u :: ts) =
      let isGlued := u.start == t.stop && !columns.contains u.start.column
      let behind (isNeeded : Bool) :=
        gapsBehind (depthBehind depth u) isNeeded (moved columns line u) ts
      let needs := isSpacedBehind (depthBehind depth u) t u
      if isNeeded then
        if isGlued && !(u.text == ['>'] && t.text == ['<']) then
          (moved columns line t).stop :: behind false
        else behind isGlued
      else if needs && isGlued then (moved columns line u).start :: behind needs
      else behind needs := by
  rw [gapsBehind, isGlued_moved h]
  rfl

/-- The search goes through the same states behind the fix and asks for no space. -/
theorem gapsBehind_moved (line : Text) (follows : (before :: ts).Pairwise Follows)
    (asked : ∀ p ∈ gapsBehind depth isNeeded before ts, p.column ∈ columns) :
    gapsBehind depth isNeeded (moved columns line before) (ts.map (moved columns line)) = [] := by
  have first {before t : Token} {rest : List Token} (h : (before :: t :: rest).Pairwise Follows) :
      Follows before t := List.rel_of_pairwise_cons h (List.mem_cons_self ..)
  fun_induction gapsBehind depth isNeeded before ts with
  | case1 => rfl
  | case2 depth before t rest d glued hg ih =>
      obtain ⟨here, asked⟩ := List.forall_mem_cons.mp asked
      have together : t.start = before.stop := beq_iff_eq.mp (Bool.and_eq_true_iff.mp hg).1
      rw [List.map_cons, gapsBehind_moved_cons (first follows)]
      simpa [together, here] using ih follows.tail asked
  | case3 depth before t rest d glued hg ih =>
      -- two signs together that need no space would be an obsolete inequality in two parts
      have apart : t.start ≠ before.stop := by
        intro together
        simp only [glued, together, beq_self_eq_true, Bool.true_and, Bool.not_eq_true',
          Bool.not_eq_false, Bool.and_eq_true, beq_iff_eq] at hg
        exact (first follows).apart hg.2 hg.1 (congrArg Position.column together).symm
      have loose : (t.start == before.stop) = false := beq_eq_false_iff_ne.mpr apart
      rw [show glued = false from loose] at ih asked
      rw [List.map_cons, gapsBehind_moved_cons (first follows), loose]
      simpa using ih follows.tail asked
  | case4 depth isNeeded before t rest d glued no needs hn ih =>
      obtain ⟨here, asked⟩ := List.forall_mem_cons.mp asked
      rw [List.map_cons, gapsBehind_moved_cons (first follows)]
      simpa [no, here] using ih follows.tail asked
  | case5 depth isNeeded before t rest d glued no needs hn ih =>
      have kept : ¬(needs && (glued && !columns.contains t.start.column)) := by grind
      rw [List.map_cons, gapsBehind_moved_cons (first follows), if_neg no]
      dsimp only
      rw [if_neg kept]
      exact ih follows.tail asked

/-- A source whose parts of statements have moved by the spaces asked for lacks no space. -/
theorem gaps_eq_nil_of_moved (line : Text) (follows : (tokens.filter isSpaced).Pairwise Follows)
    (asked : ∀ p ∈ gaps tokens, p.column ∈ columns)
    (same : tokens'.filter isSpaced = (tokens.filter isSpaced).map (moved columns line)) :
    gaps tokens' = [] := by
  rw [gaps, same]
  rw [gaps] at asked
  cases parts : tokens.filter isSpaced with
  | nil => rfl
  | cons t rest =>
      rw [parts] at follows asked
      exact gapsBehind_moved line follows asked

end MissingOperatorSpace

end StyleGuide
