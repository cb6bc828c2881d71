import StyleGuide.Proofs.Rule.Place
import StyleGuide.Proofs.Rule.Respacing
import StyleGuide.Proofs.Text.MadeOf
import StyleGuide.RowRule
import StyleGuide.StatementRule

/-! # What fixes write

A fix brings no characters of its own but ASCII: it leaves characters out, it writes spaces, line
ends and brackets, and it spells operators and words of the language.
-/

namespace StyleGuide

open Text

theorem ascii_space : (' ').toNat < 128 := by decide

/-! ## Statements -/

theorem InnerSpace.madeOf_remove (before : Option Char) (s : Text) :
    MadeOf s (remove before s) := by
  fun_induction remove before s with
  | case1 before c d rest _ ih => exact (ih.mono (List.subset_cons_self d rest)).cons_cons
  | case2 c d rest _ _ ih => exact ih.cons_cons.cons_cons
  | case3 before c d rest _ _ _ ih => exact ih.cons_cons.mono (List.subset_cons_self c _)
  | case4 before c d rest _ _ ih => exact ih.cons_cons
  | case5 => exact .refl _

theorem MissingSeparatorSpace.madeOf_add (opened closed : Nat) (s : Text) :
    MadeOf s (add opened closed s) := by
  fun_induction add opened closed s with
  | case1 opened closed c d rest _ more ih =>
      exact .cons (.inl List.mem_cons_self)
        (.cons (.inr ascii_space) (ih.mono (List.subset_cons_self c _)))
  | case2 opened closed c d rest _ more ih => exact ih.cons_cons
  | case3 => exact .refl _

theorem Backticks.madeOf_call (isOpen : Bool) (s : Text) : MadeOf s (call isOpen s) := by
  fun_induction call isOpen s with
  | case1 => exact .refl _
  | case2 c rest _ ih =>
      exact .cons (.inr (by decide)) (ih.mono (List.subset_cons_self c rest))
  | case3 isOpen c rest _ _ ih =>
      exact .append (.of_ascii (by decide)) (ih.mono (List.subset_cons_self c rest))
  | case4 isOpen c rest _ ih => exact ih.cons_cons

theorem WideSeparatorSpace.madeOf_collapse (s : Text) : MadeOf s (collapse s) := by
  fun_induction collapse s with
  | case1 => exact .refl _
  | case2 c rest _ gap behind _ ih => exact (ih.mono (List.drop_subset _ _)).cons_cons
  | case3 c rest _ gap behind _ ih =>
      have later : rest.drop gap.length ⊆ c :: rest := fun d hd =>
        List.mem_cons_of_mem c (List.mem_of_mem_drop hd)
      exact .cons (.inl List.mem_cons_self) (.cons (.inr ascii_space) (ih.mono later))
  | case4 c rest _ ih => exact ih.cons_cons

theorem ArgumentEquals.madeOf_tighten (s : Text) : MadeOf s (tighten (parts s)) := by
  simp only [tighten]
  fun_induction parts s with
  | case1 rest ih => exact ih.cons_cons
  | case2 rest ih => exact ih.cons_cons
  | case3 c d rest _ _ h ih =>
      have part : (if 0 < ((parts rest).foldr prepend (0, [])).1 then Text.trim [c, '=', d]
          else [c, '=', d]) ⊆ [c, '=', d] := by
        split
        · exact trim_subset _
        · exact List.Subset.refl _
      exact .append (.of_subset (List.Subset.trans part (List.subset_append_left _ rest)))
        (ih.mono (List.subset_append_right [c, '=', d] rest))
  | case4 c d rest _ _ h ih => exact ih.cons_cons
  | case5 c rest _ _ _ ih => exact ih.cons_cons
  | case6 => exact .refl _

theorem WideOperatorSpace.Part.madeOf_collapse (p : Part) : MadeOf p.text p.collapse := by
  cases p with
  | plain text => exact .refl _
  | wide before gap after =>
      have front : before ⊆ before ++ gap ++ after := by
        rw [List.append_assoc]
        exact List.subset_append_left _ _
      have back : after ⊆ before ++ gap ++ after := List.subset_append_right _ _
      simp only [collapse, text]
      split
      · exact ((MadeOf.of_subset front).append (.of_ascii (by decide))).append (.of_subset back)
      · exact .refl _

theorem WideOperatorSpace.madeOf_collapse (s : Text) :
    MadeOf s ((parts s).flatMap Part.collapse) := by
  obtain ⟨whole, -⟩ := WideOperatorSpace.flatMap_text_parts s
  have all (ps : List Part) : MadeOf (ps.flatMap Part.text) (ps.flatMap Part.collapse) := by
    induction ps with
    | nil => exact .nil
    | cons p ps ih =>
        exact ((p.madeOf_collapse).mono (List.subset_append_left _ _)).append
          (ih.mono (List.subset_append_right _ _))
  have made := all (parts s)
  rwa [whole] at made

theorem RaiseComma.madeOf_call {s : Text} {r : Raise} (h : parse? s = some r) :
    MadeOf s r.call := by
  obtain ⟨gap, before, behind, rest, hs, -, -, -, -, hr, -⟩ := parts_of_parse? h
  have exception : r.exception ⊆ s := by
    intro c hc
    simp [hs, hc]
  have argument : r.argument ⊆ s := by
    intro c hc
    simp [hs, hc]
  have behind : r.rest ⊆ s := by
    intro c hc
    have inner : c ∈ rest := trimStart_subset rest (hr ▸ hc)
    simp [hs, inner]
  have word : MadeOf s "raise ".toList := .of_ascii (by decide)
  have opening : MadeOf s ['('] := .of_ascii (by decide)
  have closing : MadeOf s [')'] := .of_ascii (by decide)
  exact ((((word.append (.of_subset exception)).append opening).append
    (.of_subset argument)).append closing).append (.of_subset behind)

theorem MissingOperatorSpace.madeOf_insertSpaces (columns : List Nat) (column : Nat) (s : Text) :
    MadeOf s (insertSpaces columns column s) := by
  have space (column : Nat) {s : Text} : MadeOf s (spaceAt columns column) := by
    rw [spaceAt]
    split
    · exact .of_ascii (by decide)
    · exact .nil
  induction s generalizing column with
  | nil => exact space column
  | cons c s ih =>
      rw [insertSpaces_cons]
      exact (space column).append (ih _).cons_cons

/-- A fix that changes the text of a statement makes the new text of it. -/
theorem StatementRule.madeOf_of_fix {rule : StatementRule} {ctx : StatementContext}
    {description : String} {new : Text} (h : rule.fix ctx = some ⟨description, .line new⟩) :
    MadeOf ctx.text new := by
  cases rule with
  | compoundStatement | separateImports | blockIndentation | hasKey | inlineComment
  | argumentSpace => cases h
  | blankLines =>
      obtain ⟨n, -, eq⟩ := Option.map_eq_some_iff.mp h
      cases eq
  | innerSpace =>
      cases h
      exact InnerSpace.madeOf_remove _ _
  | missingSeparatorSpace =>
      cases h
      exact MissingSeparatorSpace.madeOf_add _ _ _
  | missingOperatorSpace =>
      simp only [fix, MissingOperatorSpace.fix] at h
      split at h
      · cases h
      · cases h
        exact MissingOperatorSpace.madeOf_insertSpaces _ _ _
  | backticks =>
      simp only [fix, Backticks.fix] at h
      split at h
      · cases h
        exact Backticks.madeOf_call _ _
      · cases h
  | notEqual =>
      simp only [fix, NotEqual.fix, Option.some.injEq, Fix.mk.injEq, Edit.line.injEq] at h
      rw [← h.2]
      exact madeOf_replace (by decide) _
  | raiseComma =>
      simp only [fix, RaiseComma.fix, Option.some.injEq, Fix.mk.injEq, Edit.line.injEq] at h
      rw [← h.2]
      cases hr : RaiseComma.parse? ctx.text with
      | none => exact .refl _
      | some r => exact RaiseComma.madeOf_call hr
  | wideSeparatorSpace =>
      cases h
      exact WideSeparatorSpace.madeOf_collapse _
  | argumentEquals =>
      cases h
      exact ArgumentEquals.madeOf_tighten _
  | wideOperatorSpace =>
      cases h
      exact WideOperatorSpace.madeOf_collapse _

/-! ## Rows -/

theorem madeOf_untabify (row : Text) : MadeOf row (untabify row) := by
  apply MadeOf.append
  · intro c hc
    obtain ⟨d, hd, hc⟩ := List.mem_flatMap.mp hc
    split at hc
    · exact .inr (List.eq_of_mem_replicate (n := 4) (a := ' ') hc ▸ ascii_space)
    · rw [List.mem_singleton.mp hc]
      exact .inl ((List.takeWhile_prefix _).subset hd)
  · exact .of_subset (List.drop_subset _ _)

theorem TrailingWhitespace.madeOf_strip (row : Text) : MadeOf row (strip row) := by
  simp only [strip]
  split
  · exact .append (.of_subset (dropEndWhile_subset _ _)) (.of_ascii (by decide))
  · exact .refl _

/-- A fix of a row makes the new row of it. -/
theorem RowRule.madeOf_of_fix {rule : RowRule} {ctx : RowContext} {description : String}
    {new : Text} (h : rule.fix ctx = some ⟨description, .line new⟩) : MadeOf ctx.row new := by
  cases rule with
  | lineLength => cases h
  | missingNewline =>
      cases h
      exact .append (.refl _) (.of_ascii (by decide))
  | tabIndentation | mixedIndentation =>
      cases h
      exact madeOf_untabify _
  | trailingBlankLine =>
      cases h
      exact .nil
  | trailingWhitespace =>
      cases h
      exact TrailingWhitespace.madeOf_strip _

end StyleGuide
