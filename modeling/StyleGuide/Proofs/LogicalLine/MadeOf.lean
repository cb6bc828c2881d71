import StyleGuide.FixedText
import StyleGuide.Proofs.TokenStream.MadeOf

/-! # Logical lines are made of their source

A logical line shows the tokens of a statement with the gaps between them, so it is made of the
source, and so are its literals and its comment, which are put back when the statement is written.
-/

namespace StyleGuide

open Text

theorem madeOf_mask (literal : Text) : MadeOf literal (mask literal) := by
  have filled (start stop : Nat) : MadeOf literal
      (if stop ≤ start then literal
        else takeBytes start literal ++ List.replicate (stop - start) maskFiller
          ++ dropBytes stop literal) := by
    split
    · exact .refl _
    · apply MadeOf.append
      · exact .append (.of_subset (takeBytes_subset _ _)) (.replicate (by decide) _)
      · exact .of_subset (dropBytes_subset _ _)
  rw [mask]
  split
  · exact .refl _
  · split
    · exact filled _ _
    · exact .refl _

theorem Token.IsFrom.madeOf_shown {source : Text} {t : Token} (h : t.IsFrom source) :
    MadeOf source t.shown := by
  rw [shown]
  split
  · exact (madeOf_mask _).mono h.text
  · exact .of_subset h.text

/-- Literals from a text that are put back into a text made of it give one made of it. -/
theorem madeOf_of_restore? {source text restored : Text} {literals : List Text}
    (made : MadeOf source text) (sub : ∀ literal ∈ literals, literal ⊆ source)
    (h : restore? text literals = some restored) : MadeOf source restored := by
  induction literals generalizing text restored with
  | nil =>
      obtain rfl := Option.some.inj h
      exact made
  | cons literal rest ih =>
      rw [restore?] at h
      split at h
      · cases h
      · next before after cut =>
          obtain ⟨tail, more, rfl⟩ := Option.map_eq_some_iff.mp h
          obtain ⟨front, back⟩ := subset_of_cut? cut
          obtain ⟨here, later⟩ := List.forall_mem_cons.mp sub
          exact ((made.subset front).append (.of_subset here)).append
            (ih (made.subset back) later more)

namespace LogicalLine

variable {source : Text} {tokens : List Token} {line : LogicalLine}

/-- The text of the line, its literals and its comment are made of the source. -/
structure IsFrom (source : Text) (line : LogicalLine) : Prop where
  text : MadeOf source line.text
  literals : ∀ literal ∈ line.literals, literal ⊆ source
  comment : ∀ comment, line.comment = some comment → comment ⊆ source

theorem madeOf_gap (source : Text) (before after : Token) :
    MadeOf source (gap (Rows.ofSource source) before after) := by
  rw [gap]
  split
  · exact .of_subset (List.Subset.trans (slice_subset _ _ _) (Rows.row_subset _ _))
  · simp only
    split
    · exact .of_ascii (by decide)
    · exact .nil

theorem madeOf_join (source : Text) (from_ : ∀ t ∈ tokens, t.IsFrom source) :
    MadeOf source (join (pieces (Rows.ofSource source) tokens)) := by
  have go (before : Token) (tokens : List Token) (from_ : ∀ t ∈ tokens, t.IsFrom source) :
      MadeOf source (join (pieces.go (Rows.ofSource source) before tokens)) := by
    induction tokens generalizing before with
    | nil => exact .nil
    | cons t rest ih =>
        obtain ⟨here, more⟩ := List.forall_mem_cons.mp from_
        exact ((madeOf_gap source before t).append here.madeOf_shown).append (ih t more)
  cases tokens with
  | nil => exact .nil
  | cons first rest =>
      obtain ⟨here, more⟩ := List.forall_mem_cons.mp from_
      exact here.madeOf_shown.append (go first rest more)

theorem subset_of_commentBehind {before : Option Token} {comment : Text}
    (h : commentBehind (Rows.ofSource source) before tokens = some comment) :
    comment ⊆ source := by
  induction tokens generalizing before with
  | nil => cases h
  | cons t rest ih =>
      simp only [commentBehind] at h
      split at h
      · exact ih h
      · split at h
        · exact ih h
        · split at h
          · cases later : commentBehind (Rows.ofSource source) _ rest with
            | none =>
                rw [later] at h
                obtain rfl := Option.some.inj h
                exact List.Subset.trans (slice_subset _ _ _) (Rows.row_subset _ _)
            | some comment' =>
                rw [later] at h
                obtain rfl := Option.some.inj h
                exact ih later
          · exact ih h

theorem isFrom_of_ofTokens? (from_ : ∀ t ∈ tokens, t.IsFrom source)
    (h : ofTokens? (Rows.ofSource source) tokens = some line) : line.IsFrom source := by
  rw [ofTokens?] at h
  split at h
  · cases h
  · next first rest content =>
      obtain rfl := Option.some.inj h
      have content : ∀ t ∈ first :: rest, t.IsFrom source := by
        intro t ht
        rw [← content] at ht
        exact from_ t (List.mem_filter.mp ht).1
      constructor
      · exact (madeOf_join source content).subset (trimEnd_subset _)
      · intro literal hl
        obtain ⟨t, ht, rfl⟩ := List.mem_map.mp hl
        exact (content t (List.mem_filter.mp ht).1).text
      · intro comment hc
        exact subset_of_commentBehind hc

/-- A statement is written with characters of the source and with ASCII. -/
theorem IsFrom.madeOf_written {text : Text} {rows : Array Text} (h : line.IsFrom source)
    (made : MadeOf source text) (all : ∀ row ∈ rows.toList, MadeOf source row)
    (blankLines : Nat) : MadeOf source (line.written text blankLines rows) := by
  have kept : MadeOf source
      (rows.extract (line.firstRow - 1) line.lastRow).toList.flatten := by
    refine .flatten fun row hr => all row ?_
    rw [Array.toList_extract] at hr
    exact List.mem_of_mem_drop (List.mem_of_mem_take hr)
  have comment : MadeOf source (line.comment.getD []) := by
    cases hc : line.comment with
    | none => exact .nil
    | some comment => exact .of_subset (h.comment comment hc)
  simp only [written]
  refine .append (.replicate (by decide) _) ?_
  split
  · split
    · next restored whole =>
        have first := MadeOf.getD all .nil (line.firstRow - 1)
        have gap := first.subset (List.takeWhile_prefix Text.isBlank).subset
        have restored := madeOf_of_restore? made h.literals whole
        exact ((gap.append restored).append (comment.subset (trimEnd_subset _))).append
          (.of_ascii (by decide))
    · exact kept
  · exact kept

end LogicalLine

theorem Comment.madeOf_written {source : Text} {c : Comment} (h : MadeOf source c.text) :
    MadeOf source c.written :=
  ((MadeOf.replicate (by decide) _).append h).append (.of_ascii (by decide))

end StyleGuide
