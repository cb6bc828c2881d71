import StyleGuide.Proofs.LogicalLine.OwnRow
import StyleGuide.Proofs.Rule.Draft

/-! # Rows at rest

A row is at rest for a rule if the rule finds nothing in it or its fix writes the row again. What
the fix of a rule writes is at rest for that rule, and the fixes of the other rules keep what makes
it so: a row without tabs in its indentation stays one, and so does a row that ends in white space.
-/

namespace StyleGuide

variable {s t row new : Text} {ctx : RowContext} {rule : RowRule} {code : Code}
  {description : String}

/-! ## Indentation -/

theorem indentation_subset (h : s <+: t) : indentation s ⊆ indentation t := by
  obtain ⟨rest, rfl⟩ := h
  rw [indentation, indentation, List.takeWhile_append]
  split
  · next all =>
      rw [(List.takeWhile_prefix _).eq_of_length all]
      exact List.subset_append_left _ _
  · exact List.Subset.refl _

/-! ## White space at the end -/

namespace TrailingWhitespace

theorem strip_concat_newline
    (kept : Text.dropEndWhile (fun c => c == ' ' || c == '\n' || c == '\r' || c == '\t') s = s) :
    strip (s ++ ['\n']) = s ++ ['\n'] := by
  have dropped :
      Text.dropEndWhile (fun c => c == ' ' || c == '\n' || c == '\r' || c == '\t') (s ++ ['\n']) =
        s := by
    rw [Text.dropEndWhile_eq_rdropWhile, List.rdropWhile_concat_pos _ _ _ rfl]
    exact kept
  rw [strip, dropped, if_pos (by simp)]

theorem strip_cases (row : Text) :
    strip row = row ∨ ∃ kept, kept <+: row ∧ strip row = kept ++ ['\n'] ∧
      Text.dropEndWhile (fun c => c == ' ' || c == '\n' || c == '\r' || c == '\t') kept =
        kept := by
  simp only [strip]
  split
  · exact .inr ⟨_, Text.dropEndWhile_prefix _ _, rfl, List.rdropWhile_idempotent _ _⟩
  · exact .inl rfl

/-- A stripped row has nothing more to strip. -/
theorem strip_strip (row : Text) : strip (strip row) = strip row := by
  rcases strip_cases row with same | ⟨kept, -, whole, rest⟩
  · rw [same, same]
  · rw [whole, strip_concat_newline rest]

/-- A tidy row has nothing to strip. -/
theorem strip_of_tidied (tidied : row = Text.tidied row) : strip row = row := by
  rw [tidied]
  refine strip_concat_newline (List.rdropWhile_eq_self_iff.mpr fun some ends => ?_)
  have solid := List.rdropWhile_last_not Text.isBlank row some
  refine solid ?_
  simp only [Bool.or_eq_true, beq_iff_eq] at ends
  obtain ((eq | eq) | eq) | eq := ends <;> exact eq ▸ (by decide)

end TrailingWhitespace

/-- A row that white space ends. -/
def EndsInBlank (row : Text) : Prop := ∃ c ∈ row.getLast?, Text.isBlank c

theorem EndsInBlank.concat_newline (row : Text) : EndsInBlank (row ++ ['\n']) :=
  ⟨'\n', by simp, by decide⟩

theorem endsInBlank_of_tidied (tidied : row = Text.tidied row) : EndsInBlank row := by
  rw [tidied]
  exact .concat_newline _

theorem endsInBlank_iff : EndsInBlank row ↔ Text.trimEnd row ≠ row := by
  rw [EndsInBlank, ne_eq, Text.trimEnd, Text.dropEndWhile_eq_rdropWhile,
    List.rdropWhile_eq_self_iff]
  rcases List.eq_nil_or_concat row with rfl | ⟨front, c, rfl⟩
  · simp
  · simp

theorem EndsInBlank.untabify (ends : EndsInBlank row) : EndsInBlank (untabify row) := by
  obtain ⟨c, hc, blank⟩ := ends
  rw [untabify_eq]
  by_cases none : row.drop (indentation row).length = []
  · rw [← indentation_append row, none, List.append_nil] at hc
    have some : spaced (indentation row) ≠ [] := by
      rw [ne_eq, spaced_eq_nil_iff]
      intro empty
      rw [empty] at hc
      cases hc
    have last := List.getLast?_eq_some_getLast some
    rw [none, List.append_nil]
    refine ⟨_, last, ?_⟩
    rw [eq_space_of_mem_spaced (List.mem_of_getLast? last)]
    decide
  · rw [← indentation_append row, List.getLast?_append_of_ne_nil _ none] at hc
    exact ⟨c, by rwa [List.getLast?_append_of_ne_nil _ none], blank⟩

/-! ## The fixes -/

namespace RowRule

/-- No fix puts a tab in front of a row. -/
theorem not_mem_indentation_of_fix (fix : rule.fix ctx = some ⟨description, .line new⟩)
    (bare : '\t' ∉ indentation ctx.row) : '\t' ∉ indentation new := by
  cases rule with
  | lineLength => cases fix
  | missingNewline =>
      cases fix
      rwa [indentation_concat_newline]
  | tabIndentation | mixedIndentation =>
      cases fix
      exact not_mem_indentation_untabify _
  | trailingBlankLine =>
      cases fix
      exact List.not_mem_nil
  | trailingWhitespace =>
      cases fix
      rcases TrailingWhitespace.strip_cases ctx.row with same | ⟨kept, front, whole, -⟩
      · rwa [same]
      · rw [whole, indentation_concat_newline]
        exact fun tab => bare (indentation_subset front tab)

/-- No fix takes all white space from the end of a row, but for the one that empties it. -/
theorem endsInBlank_of_fix (fix : rule.fix ctx = some ⟨description, .line new⟩)
    (other : rule ≠ .trailingBlankLine) (ends : EndsInBlank ctx.row) : EndsInBlank new := by
  cases rule with
  | lineLength => cases fix
  | missingNewline =>
      cases fix
      exact .concat_newline _
  | tabIndentation | mixedIndentation =>
      cases fix
      exact ends.untabify
  | trailingBlankLine => exact absurd rfl other
  | trailingWhitespace =>
      cases fix
      rcases TrailingWhitespace.strip_cases ctx.row with same | ⟨kept, -, whole, -⟩
      · rwa [same]
      · rw [whole]
        exact .concat_newline _

theorem code?_missingNewline : missingNewline.code? ctx =
    if Text.trimEnd ctx.row = ctx.row then some .w292 else none := by
  simp only [code?, check, MissingNewline.check]
  split <;> rfl

/-- The rule for white space at the end looks at nothing but the row. -/
theorem code?_trailingWhitespace_congr {ctx' : RowContext} (same : ctx'.row = ctx.row) :
    trailingWhitespace.code? ctx' = trailingWhitespace.code? ctx := by
  simp only [code?, check, TrailingWhitespace.check, same]

/-- No rule stands behind the one for white space at the end. -/
theorem exists_eq_concat {rules : List RowRule} (sorted : rules.Pairwise Before)
    (mem : .trailingWhitespace ∈ rules) : ∃ front, rules = front ++ [.trailingWhitespace] := by
  obtain ⟨front, back, rfl⟩ := List.append_of_mem mem
  have later := (List.pairwise_cons.mp (List.pairwise_append.mp sorted).2.1).1
  obtain rfl : back = [] := by
    refine List.eq_nil_iff_forall_not_mem.mpr fun rule hr => ?_
    have := later rule hr
    cases rule <;> exact absurd this (by decide)
  exact ⟨front, rfl⟩

end RowRule

end StyleGuide
