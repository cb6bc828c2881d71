import StyleGuide.Proofs.Checker.RowFindings
import StyleGuide.Proofs.Checker.RowOutline
import StyleGuide.Proofs.Rule.Rest

/-! # Mended rows at rest

What a rule in force looks for is not left in a mended row: its fix takes it away, and no rule
behind it brings it back.
-/

namespace StyleGuide.Pass

variable {p : Pass} {char : Option Char} {number n : Nat} {s : RowState} {rule : RowRule}
  {rules : List RowRule} {code : Code} {description : String} {row new : Text}

/-- What a rule for rows sees of a row. -/
def draftContext (p : Pass) (char : Option Char) (number : Nat) (row : Text) : RowContext :=
  ⟨row, char, number, p.rows.size, p.config.maxLineLength⟩

/-- A rule that announces no change of a row. -/
def IsAtRest (p : Pass) (char : Option Char) (number : Nat) (row : Text) (rule : RowRule) : Prop :=
  ∀ code description new, rule.code? (p.draftContext char number row) = some code →
    p.suppresses code = false →
    rule.fix (p.draftContext char number row) = some ⟨description, .line new⟩ → new = row

/-! ## One rule -/

/-- The fix of what a rule in force finds is made. -/
theorem row_applyRowRule_of_found (fix : p.config.fix)
    (found : rule.code? (p.draftContext char number s.row) = some code)
    (kept : p.suppresses code = false)
    (fixed : rule.fix (p.draftContext char number s.row) = some ⟨description, .line new⟩) :
    (p.applyRowRule char number s rule).row = new := by
  obtain ⟨finding, here, rfl⟩ := Option.map_eq_some_iff.mp found
  simp only [draftContext] at here fixed
  simp only [applyRowRule, here, kept, fix, fixed, if_true, Bool.false_eq_true, if_false]
  split
  · next same => exact same.symm
  · rfl

/-- A rule at rest leaves the row as it is and announces nothing. -/
theorem applyRowRule_of_isAtRest {Q : Findings → Prop} (suppress : ∀ f, Q f → Q f.suppress)
    (add : ∀ f v, Q f → Q (f.add v)) (rest : p.IsAtRest char number s.row rule)
    (h : Q s.findings) :
    (p.applyRowRule char number s rule).row = s.row ∧
      Q (p.applyRowRule char number s rule).findings := by
  simp only [applyRowRule]
  split
  · exact ⟨rfl, h⟩
  · next finding found =>
      split
      · exact ⟨rfl, suppress _ h⟩
      · next kept =>
          have found : rule.code? (p.draftContext char number s.row) = some finding.code :=
            congrArg (Option.map Finding.code) found
          have kept : p.suppresses finding.code = false := by simpa using kept
          split
          · next description new fixed =>
              split at fixed
              · rw [if_pos (rest _ _ _ found kept fixed)]
                exact ⟨rfl, add _ _ h⟩
              · cases fixed
          · exact ⟨rfl, add _ _ h⟩

theorem foldl_applyRowRule_of_isAtRest {Q : Findings → Prop} (suppress : ∀ f, Q f → Q f.suppress)
    (add : ∀ f v, Q f → Q (f.add v)) (rest : ∀ rule ∈ rules, p.IsAtRest char number s.row rule)
    (h : Q s.findings) : Q (rules.foldl (p.applyRowRule char number) s).findings := by
  induction rules generalizing s with
  | nil => exact h
  | cons rule rules ih =>
      obtain ⟨here, rest⟩ := List.forall_mem_cons.mp rest
      obtain ⟨same, h⟩ := applyRowRule_of_isAtRest suppress add here h
      exact ih (same.symm ▸ rest) h

/-! ## All rules -/

/-- What one of the rules makes of a row and all of them keep holds of the mended row. -/
theorem row_foldl_applyRowRule_of_mem {A K : Text → Prop} (mem : rule ∈ rules) (start : A s.row)
    (base : ∀ (u : RowState) (later : RowRule), A u.row →
      A (p.applyRowRule char number u later).row)
    (reach : ∀ u : RowState, A u.row → K (p.applyRowRule char number u rule).row)
    (keep : ∀ (u : RowState) (later : RowRule), A u.row → K u.row →
      K (p.applyRowRule char number u later).row) :
    K (rules.foldl (p.applyRowRule char number) s).row := by
  obtain ⟨front, back, rfl⟩ := List.append_of_mem mem
  have before (rules : List RowRule) (u : RowState) (h : A u.row) :
      A (rules.foldl (p.applyRowRule char number) u).row := by
    induction rules generalizing u with
    | nil => exact h
    | cons later rules ih => exact ih _ (base u later h)
  have behind (rules : List RowRule) (u : RowState) (h : A u.row) (k : K u.row) :
      K (rules.foldl (p.applyRowRule char number) u).row := by
    induction rules generalizing u with
    | nil => exact k
    | cons later rules ih => exact ih _ (base u later h) (keep u later h k)
  rw [List.foldl_append, List.foldl_cons]
  have here := before front s start
  exact behind back _ (base _ rule here) (reach _ here)

/-- Where tabs are mended, no mended row has one in front of it. -/
theorem not_mem_indentation_mendedRows (fix : p.config.fix) (tabs : p.MendsTabs) (pos : 0 < n)
    (le : n ≤ p.rows.size) : '\t' ∉ indentation (Rows.row p.mendedRows n) := by
  obtain ⟨char, findings, whole⟩ := exists_row_mendedRows pos le
  rw [whole]
  refine row_foldl_applyRowRule_of_mem (A := fun _ => True) (K := fun row => '\t' ∉ indentation row)
    tabs.1 trivial (fun _ _ => id) (fun u _ => ?_) fun u later _ bare => ?_
  · by_cases tab : '\t' ∈ indentation u.row
    · have found : RowRule.tabIndentation.code? (p.draftContext char n u.row) = some .w191 := by
        rw [RowRule.code?_tabIndentation]
        exact if_pos tab
      rw [row_applyRowRule_of_found fix found tabs.2 rfl]
      exact not_mem_indentation_untabify _
    · rcases row_applyRowRule_cases char n u .tabIndentation with same | ⟨_, _, -, fixed⟩
      · rwa [same]
      · exact RowRule.not_mem_indentation_of_fix fixed tab
  · rcases row_applyRowRule_cases char n u later with same | ⟨_, _, -, fixed⟩
    · rwa [same]
    · exact RowRule.not_mem_indentation_of_fix fixed bare

/-- Where missing newlines are mended, white space ends each mended row, but for a blank row at the
    end of the source. -/
theorem endsInBlank_mendedRows (fix : p.config.fix)
    (mem : .missingNewline ∈ p.registry.rowRules) (kept : p.suppresses .w292 = false)
    (pos : 0 < n) (le : n ≤ p.rows.size)
    (other : n = p.rows.size → ¬Text.isAllBlank (p.rows.row n)) :
    EndsInBlank (Rows.row p.mendedRows n) := by
  obtain ⟨char, findings, whole⟩ := exists_row_mendedRows pos le
  rw [whole]
  have keep (u : RowState) (later : RowRule) (h : n = p.rows.size → ¬Text.isAllBlank u.row)
      (ends : EndsInBlank u.row) : EndsInBlank (p.applyRowRule char n u later).row := by
    rcases row_applyRowRule_cases char n u later with same | ⟨finding, _, found, fixed⟩
    · rwa [same]
    · refine RowRule.endsInBlank_of_fix fixed ?_ ends
      rintro rfl
      have found := congrArg (Option.map Finding.code) found
      rw [← RowRule.code?, RowRule.code?_trailingBlankLine] at found
      split at found
      · next last => exact h last.1 last.2
      · cases found
  refine row_foldl_applyRowRule_of_mem (K := EndsInBlank)
    (A := fun row => n = p.rows.size → ¬Text.isAllBlank row) mem other (fun u later h last => ?_)
    (fun u h => ?_) keep
  · rw [Text.isAllBlank_iff_trim, trim_applyRowRule, ← Text.isAllBlank_iff_trim]
    exact h last
  · by_cases ends : Text.trimEnd u.row = u.row
    · have found : RowRule.missingNewline.code? (p.draftContext char n u.row) = some .w292 := by
        rw [RowRule.code?_missingNewline]
        exact if_pos ends
      rw [row_applyRowRule_of_found fix found kept rfl]
      exact .concat_newline _
    · exact keep u _ h (endsInBlank_iff.mpr ends)

/-- A mended row in which the rule for white space at the end finds something that is reported is
    stripped. -/
theorem strip_mendedRows (fix : p.config.fix)
    (sorted : p.registry.rowRules.Pairwise RowRule.Before)
    (mem : .trailingWhitespace ∈ p.registry.rowRules) (pos : 0 < n) (le : n ≤ p.rows.size)
    {ctx : RowContext} (same : ctx.row = Rows.row p.mendedRows n)
    (found : RowRule.trailingWhitespace.code? ctx = some code)
    (kept : p.suppresses code = false) : TrailingWhitespace.strip ctx.row = ctx.row := by
  obtain ⟨char, findings, whole⟩ := exists_row_mendedRows pos le
  obtain ⟨front, rules⟩ := RowRule.exists_eq_concat sorted mem
  rw [rules, List.foldl_append, List.foldl_cons, List.foldl_nil] at whole
  generalize front.foldl (p.applyRowRule char n) ⟨p.rows.row n, findings⟩ = u at whole
  have row : ctx.row = (p.applyRowRule char n u .trailingWhitespace).row := same.trans whole
  rcases row_applyRowRule_cases char n u .trailingWhitespace with unchanged | ⟨_, _, -, fixed⟩
  · rw [unchanged] at row
    have seen : RowRule.trailingWhitespace.code? ctx =
        RowRule.trailingWhitespace.code? (p.draftContext char n u.row) :=
      RowRule.code?_trailingWhitespace_congr row
    have stripped := row_applyRowRule_of_found fix (seen ▸ found) kept rfl
    rw [unchanged] at stripped
    rw [row]
    exact stripped.symm
  · obtain ⟨-, stripped⟩ := Fix.mk.inj (Option.some.inj fixed)
    injection stripped with stripped
    rw [row, ← stripped, TrailingWhitespace.strip_strip]

end StyleGuide.Pass
