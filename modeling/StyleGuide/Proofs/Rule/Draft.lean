import Mathlib.Data.List.TakeWhile
import StyleGuide.Proofs.Text.Trim
import StyleGuide.RowRule

/-! # What the rules find in a changed row

The rules for rows are applied one after the other, and each of them sees the row as the fixes
before it have left it. Of these fixes only two come before a rule that looks at the same
characters: the one that puts spaces for the tabs of the indentation and the one that ends the row
with a newline. Neither makes a rule find anything that it does not find in the row itself, but for
one case: where a file is indented with tabs, the spaces that take their place are mixed
indentation.
-/

namespace StyleGuide

variable {row draft gap : Text}

/-! ## Indentation -/

theorem indentation_append (row : Text) :
    indentation row ++ row.drop (indentation row).length = row :=
  List.prefix_iff_eq_append.mp (List.takeWhile_prefix _)

theorem eq_of_mem_indentation {c : Char} (h : c ∈ indentation row) : c = ' ' ∨ c = '\t' := by
  simpa using List.mem_takeWhile_imp h

/-- What follows the indentation is no more of it. -/
theorem indentation_append_drop (h : ∀ c ∈ gap, c = ' ' ∨ c = '\t') (row : Text) :
    indentation (gap ++ row.drop (indentation row).length) = gap := by
  have rest : row.drop (indentation row).length =
      row.dropWhile fun c => c == ' ' || c == '\t' := by
    have whole := indentation_append row
    conv_rhs at whole =>
      rw [← List.takeWhile_append_dropWhile (p := fun c => c == ' ' || c == '\t') (l := row)]
    exact List.append_cancel_left whole
  have behind : (row.drop (indentation row).length).takeWhile
      (fun c => c == ' ' || c == '\t') = [] := by
    rw [rest, List.takeWhile_eq_nil_iff]
    exact List.dropWhile_get_zero_not _ _
  have all : ∀ c ∈ gap, (c == ' ' || c == '\t') = true := by
    intro c hc
    simpa using h c hc
  rw [indentation, List.takeWhile_append_of_pos all, behind, List.append_nil]

/-- The indentation with four spaces for each tab. -/
def spaced (gap : Text) : Text :=
  gap.flatMap fun c => if c == '\t' then [' ', ' ', ' ', ' '] else [c]

theorem untabify_eq (row : Text) :
    untabify row = spaced (indentation row) ++ row.drop (indentation row).length := rfl

theorem eq_space_of_mem_spaced {c : Char} (h : c ∈ spaced (indentation row)) : c = ' ' := by
  obtain ⟨d, hd, hc⟩ := List.mem_flatMap.mp h
  rcases eq_of_mem_indentation hd with rfl | rfl
  · simpa using hc
  · simpa using hc

theorem spaced_eq_nil_iff : spaced gap = [] ↔ gap = [] := by
  cases gap with
  | nil => simp [spaced]
  | cons c gap =>
      simp only [spaced, List.flatMap_cons, List.append_eq_nil_iff, reduceCtorEq, iff_false,
        not_and]
      intro none
      split at none <;> cases none

theorem indentation_untabify (row : Text) :
    indentation (untabify row) = spaced (indentation row) := by
  apply indentation_append_drop
  intro c hc
  exact .inl (eq_space_of_mem_spaced hc)

theorem untabify_of_not_mem (h : '\t' ∉ indentation row) : untabify row = row := by
  have same : spaced (indentation row) = indentation row := by
    rw [spaced, List.flatMap_congr (g := fun c => [c]), List.flatMap_singleton']
    intro c hc
    rw [if_neg]
    intro tab
    exact h (beq_iff_eq.mp tab ▸ hc)
  rw [untabify_eq, same, indentation_append]

theorem not_mem_indentation_untabify (row : Text) : '\t' ∉ indentation (untabify row) := by
  rw [indentation_untabify]
  intro h
  cases eq_space_of_mem_spaced h

theorem untabify_untabify (row : Text) : untabify (untabify row) = untabify row :=
  untabify_of_not_mem (not_mem_indentation_untabify row)

theorem indentation_concat_newline (row : Text) :
    indentation (row ++ ['\n']) = indentation row := by
  have stop : List.takeWhile (fun c => c == ' ' || c == '\t') ['\n'] = [] := rfl
  rw [indentation, List.takeWhile_append]
  split
  · next all => rw [stop, List.append_nil, indentation, (List.takeWhile_prefix _).eq_of_length all]
  · rfl

theorem untabify_concat_newline (row : Text) :
    untabify (row ++ ['\n']) = untabify row ++ ['\n'] := by
  have short : (indentation row).length ≤ row.length := (List.takeWhile_prefix _).length_le
  rw [untabify_eq, untabify_eq, indentation_concat_newline, List.drop_append_of_le_length short,
    List.append_assoc]

/-! ## White space at the end -/

theorem isAllBlank_append (s t : Text) :
    Text.isAllBlank (s ++ t) = (Text.isAllBlank s && Text.isAllBlank t) := by
  simp [Text.isAllBlank]

theorem isAllBlank_of_gap (h : ∀ c ∈ gap, c = ' ' ∨ c = '\t') : Text.isAllBlank gap := by
  rw [Text.isAllBlank, List.all_eq_true]
  intro c hc
  rcases h c hc with rfl | rfl <;> decide

theorem isAllBlank_untabify (row : Text) :
    Text.isAllBlank (untabify row) = Text.isAllBlank row := by
  have spaces : Text.isAllBlank (spaced (indentation row)) :=
    isAllBlank_of_gap fun c hc => .inl (eq_space_of_mem_spaced hc)
  have front : Text.isAllBlank (indentation row) :=
    isAllBlank_of_gap fun c hc => eq_of_mem_indentation hc
  conv_rhs => rw [← indentation_append row]
  rw [untabify_eq, isAllBlank_append, isAllBlank_append, spaces, front]

namespace TrailingWhitespace

theorem content_append (h : ∀ c ∈ gap, c = ' ' ∨ c = '\t') (rest : Text) :
    content (gap ++ rest) = gap ++ content rest := by
  have other (mark : Char) (hs : ' ' ≠ mark) (ht : '\t' ≠ mark) : ∀ c ∈ gap, ¬(c == mark) := by
    intro c hc
    rcases h c hc with rfl | rfl
    · simpa using hs
    · simpa using ht
  simp only [content]
  rw [Text.dropEndWhile_append_of_forall_not (other '\n' (by decide) (by decide)),
    Text.dropEndWhile_append_of_forall_not (other '\r' (by decide) (by decide)),
    Text.dropEndWhile_append_of_forall_not (other '\x0c' (by decide) (by decide))]

theorem content_concat_newline (row : Text) : content (row ++ ['\n']) = content row := by
  have dropped : Text.dropEndWhile (· == '\n') (row ++ ['\n']) =
      Text.dropEndWhile (· == '\n') row :=
    List.rdropWhile_concat_pos _ _ _ rfl
  rw [content, dropped, content]

end TrailingWhitespace

/-! ## What a rule says about a row -/

namespace RowRule

/-- The code of what a rule finds. -/
def code? (ctx : RowContext) (rule : RowRule) : Option Code := (rule.check ctx).map Finding.code

variable {ctx : RowContext} {rule later : RowRule}

theorem code?_tabIndentation : tabIndentation.code? ctx =
    if '\t' ∈ indentation ctx.row then some .w191 else none := by
  simp only [code?, check, TabIndentation.check]
  split <;> rfl

theorem code?_mixedIndentation : mixedIndentation.code? ctx =
    if (indentation ctx.row).all (some · == ctx.indentChar) then none else some .e101 := by
  have shorter : ((indentation ctx.row).takeWhile fun c => some c == ctx.indentChar).length <
      (indentation ctx.row).length ↔ ¬(indentation ctx.row).all (some · == ctx.indentChar) := by
    have whole := List.takeWhile_eq_self_iff (p := fun c => some c == ctx.indentChar)
      (l := indentation ctx.row)
    have start := List.takeWhile_prefix (fun c => some c == ctx.indentChar)
      (l := indentation ctx.row)
    rw [List.all_eq_true, ← whole]
    constructor
    · intro less same
      exact less.ne (congrArg List.length same)
    · intro other
      apply lt_of_le_of_ne start.length_le
      intro same
      exact other (start.eq_of_length same)
  simp only [code?, check, MixedIndentation.check, shorter, ite_not]
  split <;> rfl

theorem code?_trailingBlankLine : trailingBlankLine.code? ctx =
    if ctx.number = ctx.total ∧ Text.isAllBlank ctx.row then some .w391 else none := by
  simp only [code?, check, TrailingBlankLine.check]
  split <;> rfl

/-- White space at the end is there or not whatever the row is indented with. -/
theorem code?_trailingWhitespace_append {gap' : Text} (h : ∀ c ∈ gap, c = ' ' ∨ c = '\t')
    (h' : ∀ c ∈ gap', c = ' ' ∨ c = '\t') (empty : gap = [] ↔ gap' = []) (rest : Text) :
    trailingWhitespace.code? { ctx with row := gap ++ rest } =
      trailingWhitespace.code? { ctx with row := gap' ++ rest } := by
  simp only [code?, check, TrailingWhitespace.check, TrailingWhitespace.content_append h,
    TrailingWhitespace.content_append h']
  generalize TrailingWhitespace.content rest = rest
  by_cases blank : Text.trimEnd rest = []
  · have none {gap : Text} (h : ∀ c ∈ gap, c = ' ' ∨ c = '\t') :
        Text.trimEnd (gap ++ rest) = [] := by
      rw [Text.trimEnd_eq_nil_iff] at blank ⊢
      intro c hc
      rcases List.mem_append.mp hc with hc | hc
      · exact List.all_eq_true.mp (isAllBlank_of_gap h) c hc
      · exact blank c hc
    simp only [none h, none h', List.append_eq_nil_iff, empty]
  · simp only [Text.trimEnd_append blank, List.append_right_inj]
    split
    · rfl
    · simp [blank, Finding.atOffset]

/-- These rules look at a row without its newline. -/
theorem code?_concat_newline (h : rule ≠ .lineLength) (h' : rule ≠ .missingNewline) (row : Text) :
    rule.code? { ctx with row := row ++ ['\n'] } = rule.code? { ctx with row := row } := by
  cases rule with
  | lineLength => exact absurd rfl h
  | missingNewline => exact absurd rfl h'
  | tabIndentation => simp only [code?_tabIndentation, indentation_concat_newline]
  | mixedIndentation => simp only [code?_mixedIndentation, indentation_concat_newline]
  | trailingBlankLine =>
      have blank : Text.isAllBlank ['\n'] := by decide
      simp only [code?_trailingBlankLine, isAllBlank_append, blank, Bool.and_true]
  | trailingWhitespace =>
      simp only [code?, check, TrailingWhitespace.check, TrailingWhitespace.content_concat_newline]

/-- The rules for the end of a row see no difference between tabs and spaces. -/
theorem code?_untabify (h : rule = .trailingBlankLine ∨ rule = .trailingWhitespace) (row : Text) :
    rule.code? { ctx with row := untabify row } = rule.code? { ctx with row := row } := by
  rcases h with rfl | rfl
  · simp only [code?_trailingBlankLine, isAllBlank_untabify]
  · have spaces : ∀ c ∈ spaced (indentation row), c = ' ' ∨ c = '\t' :=
      fun c hc => .inl (eq_space_of_mem_spaced hc)
    have front : ∀ c ∈ indentation row, c = ' ' ∨ c = '\t' := fun c hc => eq_of_mem_indentation hc
    rw [untabify_eq, code?_trailingWhitespace_append spaces front spaced_eq_nil_iff,
      indentation_append]

/-! ## What a rule sees of a row -/

/-- A row as the fixes may have left it: its tabs are spaces, which takes `mended`, or they are not,
    and it has one more newline or not. -/
def IsDraft (mended : Prop) (row draft : Text) : Prop :=
  ∃ u e, draft = u ++ e ∧ (u = row ∨ mended ∧ u = untabify row) ∧ (e = [] ∨ e = ['\n'])

/-- What a rule may see of a row, where `mended` tells whether the rule for tabs mends it. -/
def Sees (mended : Prop) (row draft : Text) : RowRule → Prop
  | .lineLength | .missingNewline => draft = row
  | .tabIndentation => IsDraft False row draft
  | .mixedIndentation => IsDraft mended row draft
  | .trailingBlankLine => IsDraft True row draft
  | .trailingWhitespace => IsDraft True row draft ∨ draft = []

/-- The order of the rules. -/
def Before (rule later : RowRule) : Prop := rule.ctorIdx < later.ctorIdx

instance (rule later : RowRule) : Decidable (rule.Before later) :=
  inferInstanceAs (Decidable (rule.ctorIdx < later.ctorIdx))

theorem pairwise_before_all : all.Pairwise Before := by decide

variable {mended mended' : Prop} {new : Text}

namespace IsDraft

theorem self (row : Text) : IsDraft mended row row := ⟨row, [], by simp⟩

theorem mono (h : IsDraft mended row draft) (le : mended → mended') :
    IsDraft mended' row draft := by
  obtain ⟨u, e, whole, front, back⟩ := h
  exact ⟨u, e, whole, front.imp_right (And.imp_left le), back⟩

theorem untabify (h : IsDraft mended row draft) (tabs : mended') :
    IsDraft mended' row (untabify draft) := by
  obtain ⟨u, e, rfl, front, back⟩ := h
  have same : StyleGuide.untabify (u ++ e) = StyleGuide.untabify u ++ e := by
    rcases back with rfl | rfl
    · simp
    · exact untabify_concat_newline u
  refine ⟨StyleGuide.untabify u, e, same, .inr ⟨tabs, ?_⟩, back⟩
  rcases front with rfl | ⟨-, rfl⟩
  · rfl
  · exact untabify_untabify row

theorem sees_behind_mixed (h : IsDraft True row draft) (before : Before .mixedIndentation rule) :
    rule.Sees mended row draft := by
  cases rule with
  | trailingBlankLine => exact h
  | trailingWhitespace => exact .inl h
  | _ => exact absurd before (by decide)

theorem sees_behind_tabs (h : IsDraft mended row draft) (before : Before .tabIndentation rule) :
    rule.Sees mended row draft := by
  cases rule with
  | mixedIndentation => exact h
  | trailingBlankLine | trailingWhitespace =>
      exact (h.mono fun _ => trivial).sees_behind_mixed (by decide)
  | _ => exact absurd before (by decide)

theorem sees_behind_newline (h : IsDraft False row draft) (before : Before .missingNewline rule) :
    rule.Sees mended row draft := by
  cases rule with
  | tabIndentation => exact h
  | mixedIndentation | trailingBlankLine | trailingWhitespace =>
      exact (h.mono False.elim).sees_behind_tabs (by decide)
  | _ => exact absurd before (by decide)

end IsDraft

namespace Sees

theorem start (rule : RowRule) : rule.Sees mended row row := by
  cases rule with
  | lineLength | missingNewline => rfl
  | _ => exact (IsDraft.self row).sees_behind_newline (by decide)

/-- What a rule may see, the rules behind it may see as well. -/
theorem keep (h : rule.Sees mended row draft) (before : rule.Before later) :
    later.Sees mended row draft := by
  cases rule with
  | lineLength | missingNewline =>
      obtain rfl : draft = row := h
      exact start later
  | tabIndentation => exact IsDraft.sees_behind_newline h (Nat.lt_trans (by decide) before)
  | mixedIndentation => exact IsDraft.sees_behind_tabs h (Nat.lt_trans (by decide) before)
  | trailingBlankLine => exact IsDraft.sees_behind_mixed h (Nat.lt_trans (by decide) before)
  | trailingWhitespace => cases later <;> exact absurd before (by decide)

/-- The rules behind a rule may see what its fix writes. -/
theorem mend {description : String} (h : rule.Sees mended row draft)
    (before : rule.Before later) (tabs : rule = .tabIndentation → mended)
    (fix : rule.fix { ctx with row := draft } = some ⟨description, .line new⟩) :
    later.Sees mended row new := by
  cases rule with
  | lineLength => cases fix
  | missingNewline =>
      obtain rfl : draft = row := h
      cases fix
      exact IsDraft.sees_behind_newline ⟨draft, ['\n'], rfl, .inl rfl, .inr rfl⟩ before
  | tabIndentation =>
      cases fix
      exact (IsDraft.untabify h (tabs rfl)).sees_behind_tabs before
  | mixedIndentation =>
      cases fix
      exact (IsDraft.untabify h trivial).sees_behind_mixed before
  | trailingBlankLine =>
      cases fix
      cases later with
      | trailingWhitespace => exact .inr rfl
      | _ => exact absurd before (by decide)
  | trailingWhitespace => cases later <;> exact absurd before (by decide)

/-- A rule finds in what it sees of a row only what it finds in the row itself, unless spaces that
    stand for tabs differ from the tabs with which the file started to indent. -/
theorem code?_eq {code : Code} (h : rule.Sees mended row draft)
    (found : rule.code? { ctx with row := draft } = some code) :
    rule.code? { ctx with row := row } = some code ∨
      code = .e101 ∧ mended ∧ indentation row ≠ [] ∧ ∀ c ∈ indentation row, c = '\t' := by
  have ended {u e : Text} (other : rule ≠ .lineLength) (other' : rule ≠ .missingNewline)
      (found : rule.code? { ctx with row := u ++ e } = some code) (back : e = [] ∨ e = ['\n']) :
      rule.code? { ctx with row := u } = some code := by
    rcases back with rfl | rfl
    · simpa using found
    · rwa [code?_concat_newline other other'] at found
  have atEnd (kind : rule = .trailingBlankLine ∨ rule = .trailingWhitespace)
      (h : IsDraft True row draft) : rule.code? { ctx with row := row } = some code := by
    obtain ⟨u, e, rfl, front, back⟩ := h
    have found := ended (by rintro rfl; simp at kind) (by rintro rfl; simp at kind) found back
    rcases front with rfl | ⟨-, rfl⟩
    · exact found
    · rwa [code?_untabify kind] at found
  cases rule with
  | lineLength | missingNewline =>
      obtain rfl : draft = row := h
      exact .inl found
  | tabIndentation =>
      obtain ⟨u, e, rfl, front, back⟩ := h
      obtain rfl : u = row := by simpa using front
      exact .inl (ended nofun nofun found back)
  | mixedIndentation =>
      obtain ⟨u, e, rfl, front, back⟩ := h
      have found := ended nofun nofun found back
      rcases front with rfl | ⟨tabs, rfl⟩
      · exact .inl found
      · rw [code?_mixedIndentation, indentation_untabify] at found
        split at found
        · cases found
        · next different =>
            cases found
            obtain ⟨c, hc, ne⟩ : ∃ c ∈ spaced (indentation row), some c ≠ ctx.indentChar := by
              simpa using different
            obtain rfl := eq_space_of_mem_spaced hc
            by_cases all : ∀ c ∈ indentation row, c = '\t'
            · refine .inr ⟨rfl, tabs, ?_, all⟩
              intro none
              rw [spaced_eq_nil_iff.mpr none] at hc
              cases hc
            · obtain ⟨d, hd, other⟩ : ∃ d ∈ indentation row, d ≠ '\t' := by simpa using all
              obtain rfl := (eq_of_mem_indentation hd).resolve_right other
              refine .inl ?_
              rw [code?_mixedIndentation, if_neg]
              intro same
              exact ne (beq_iff_eq.mp (List.all_eq_true.mp same _ hd))
  | trailingBlankLine => exact .inl (atEnd (.inl rfl) h)
  | trailingWhitespace =>
      rcases h with h | rfl
      · exact .inl (atEnd (.inr rfl) h)
      · cases found

end Sees

end RowRule

end StyleGuide
