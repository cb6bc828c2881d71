import StyleGuide.Proofs.Checker.SameTokens
import StyleGuide.Proofs.Checker.Violations

/-! # What a pass that mends finds in the rows

The rules come in a fixed order, so each of them sees a draft of the row. All that a pass finds in
its rows is therefore explained by what its rules find in the rows of the source, whether it mends
or not.
-/

namespace StyleGuide

/-- The report has a violation of this code in this row. -/
def FileReport.Reports (r : FileReport) (code : Code) (row : Nat) : Prop :=
  ∃ v ∈ r.violations, v.code = code ∧ v.row = row

namespace Pass

variable {p : Pass} {s : CheckState} {t : Token} {code : Code} {number : Nat}

/-- Some rule finds this in a row of the source, and the filter lets it through. -/
structure Shows (p : Pass) (number : Nat) (code : Code) : Prop where
  pos : 1 ≤ number
  le : number ≤ p.rows.size
  kept : p.suppresses code = false
  found : ∃ rule ∈ p.registry.rowRules, rule.code? (p.rowContext number) = some code

/-- The rule for tabs is applied, and the filter lets what it finds through. -/
def MendsTabs (p : Pass) : Prop :=
  .tabIndentation ∈ p.registry.rowRules ∧ p.suppresses .w191 = false

/-- Nothing but tabs stands in front of the row. -/
def IsTabbed (p : Pass) (number : Nat) : Prop :=
  indentation (p.rows.row number) ≠ [] ∧ ∀ c ∈ indentation (p.rows.row number), c = '\t'

/-- A violation that a pass may find: one in a statement, one that a rule finds in the row of the
    source, or mixed indentation where spaces stand for the tabs of the row. -/
def Explains (p : Pass) (v : Violation) : Prop :=
  (∃ rule : StatementRule, v.code ∈ rule.codes) ∨ p.Shows v.row v.code ∨
    v.code = .e101 ∧ p.Shows v.row .w191 ∧ p.IsTabbed v.row

/-! ## One row -/

/-- What a rule finds in the draft that it sees is explained by what is found in the row. -/
theorem explains_of_sees {rule : RowRule} {draft : Text} {v : Violation} (pos : 1 ≤ v.row)
    (le : v.row ≤ p.rows.size) (mem : rule ∈ p.registry.rowRules)
    (kept : p.suppresses v.code = false)
    (sees : rule.Sees p.MendsTabs (p.rows.row v.row) draft)
    (found : rule.code? { p.rowContext v.row with row := draft } = some v.code) :
    p.Explains v := by
  rcases sees.code?_eq found with here | ⟨mixed, ⟨tabs, shown⟩, some, all⟩
  · exact .inr (.inl ⟨pos, le, kept, rule, mem, here⟩)
  · have tab : '\t' ∈ indentation (p.rows.row v.row) := by
      obtain ⟨c, hc⟩ := List.exists_mem_of_ne_nil _ some
      exact all c hc ▸ hc
    have found : RowRule.tabIndentation.code? (p.rowContext v.row) = .some .w191 := by
      rw [RowRule.code?_tabIndentation]
      exact if_pos tab
    exact .inr (.inr ⟨mixed, ⟨pos, le, shown, _, tabs, found⟩, some, all⟩)

/-- All violations that the rules find in a row are explained. -/
theorem explains_foldl_applyRowRule (pos : 1 ≤ number) (le : number ≤ p.rows.size)
    {rules : List RowRule} {u : RowState} (sorted : rules.Pairwise RowRule.Before)
    (sub : ∀ rule ∈ rules, rule ∈ p.registry.rowRules)
    (sees : ∀ rule ∈ rules, rule.Sees p.MendsTabs (p.rows.row number) u.row)
    (explained : ∀ v ∈ u.findings.violations, p.Explains v) :
    ∀ v ∈ (rules.foldl (p.applyRowRule (p.rows.indentChar number) number) u).findings.violations,
      p.Explains v := by
  induction rules generalizing u with
  | nil => exact explained
  | cons rule rules ih =>
      obtain ⟨before, sorted⟩ := List.pairwise_cons.mp sorted
      have mem : rule ∈ p.registry.rowRules := sub rule List.mem_cons_self
      have here := sees rule List.mem_cons_self
      apply ih sorted
      · intro later hl
        exact sub later (List.mem_cons_of_mem _ hl)
      · intro later hl
        rcases p.applyRowRule_cases (p.rows.indentChar number) number u rule with
          ⟨same, -⟩ | ⟨v, found, kept, -, -, -, same | ⟨description, fixed⟩⟩
        · rw [same]
          exact here.keep (before later hl)
        · rw [same]
          exact here.keep (before later hl)
        · have fixed : rule.fix { p.rowContext number with row := u.row } = _ := fixed
          apply here.mend (before later hl) _ fixed
          rintro rfl
          obtain ⟨finding, hf, code⟩ := Option.map_eq_some_iff.mp found
          have w191 : v.code = .w191 := by
            rw [← code]
            simpa [RowRule.codes] using (RowRule.points_of_check hf).code
          exact ⟨mem, w191 ▸ kept⟩
      · intro v hv
        rcases p.applyRowRule_cases (p.rows.indentChar number) number u rule with
          ⟨-, same⟩ | ⟨w, found, kept, rfl, -, pushed, -⟩
        · rw [same] at hv
          exact explained v hv
        · rw [pushed, Array.mem_push] at hv
          rcases hv with hv | rfl
          · exact explained v hv
          · exact explains_of_sees pos le mem kept here found

/-! ## The whole source -/

section Run

variable (sorted : p.registry.rowRules.Pairwise RowRule.Before)

include sorted

theorem explains_checkRow (track : p.OnTrack s) (more : s.fixedRows.size < p.rows.size)
    (explained : ∀ v ∈ s.findings.violations, p.Explains v) :
    ∀ v ∈ (p.checkRow s).findings.violations, p.Explains v := by
  simp only [checkRow, track.indentChar_next]
  apply explains_foldl_applyRowRule (Nat.le_add_left 1 _) more sorted (fun _ h => h)
  · intro rule _
    exact .start rule
  · exact explained

/-- Every violation in a report is explained. -/
theorem explains_report (tokens : List Token) :
    ∀ v ∈ (p.report (p.after tokens)).violations, p.Explains v := by
  refine forall_report (fun _ => explains_checkRow sorted) tokens fun seen t ahead _ line _ => ?_
  refine forall_mend fun text rule v hv => ?_
  obtain ⟨finding, check, rfl⟩ := Option.map_eq_some_iff.mp hv
  exact .inl ⟨rule, (StatementRule.points_of_check check).1⟩

end Run

/-! ## What a pass that mends nothing reports -/

theorem mem_rowsFound {k n : Nat} {v : Violation} (above : k < number) (le : number ≤ n)
    (inside : number ≤ p.rows.size) (hv : v ∈ p.rowViolations number) :
    v ∈ p.rowsFound k n := by
  apply List.mem_flatMap.mpr
  refine ⟨number, ?_, hv⟩
  rw [List.mem_range'_1]
  omega

/-- What the rules find in a row that has been checked has been found. -/
theorem mem_found {tokens : List Token} {v : Violation} (pos : 1 ≤ number)
    (le : number ≤ (p.after tokens).fixedRows.size) (hv : v ∈ p.rowViolations number) :
    v ∈ p.found tokens := by
  induction tokens using List.reverseRecOn with
  | nil =>
      rw [size_after_nil] at le
      omega
  | append_singleton tokens t ih =>
      rw [size_after_concat] at le
      rw [found_concat]
      apply List.mem_append.mpr
      by_cases checked : number ≤ (p.after tokens).fixedRows.size
      · exact .inl (ih checked)
      · exact .inr (List.mem_append_left _ (mem_rowsFound (by omega) (by omega) (by omega) hv))

/-- What a rule finds in a row of the source is reported where nothing is mended. -/
theorem Shows.reports (reads : p.config.fix = false) (tokens : List Token)
    (h : p.Shows number code) : (p.report (p.after tokens)).Reports code number := by
  obtain ⟨rule, mem, found⟩ := h.found
  obtain ⟨finding, hf, rfl⟩ := Option.map_eq_some_iff.mp found
  obtain ⟨v, hv, same⟩ : ∃ v ∈ p.rowViolations number, v.code = finding.code ∧ v.row = number :=
    ⟨_, List.mem_filterMap.mpr ⟨rule, mem, by rw [rowViolation?, hf]; rfl⟩, rfl, rfl⟩
  have all : v ∈ p.allFound tokens := by
    apply List.mem_append.mpr
    by_cases checked : number ≤ (p.after tokens).fixedRows.size
    · exact .inl (mem_found h.pos checked hv)
    · exact .inr (mem_rowsFound (by omega) h.le h.le hv)
  refine ⟨v, ?_, same⟩
  rw [(p.report_of_reading reads tokens).1, List.mem_filter]
  exact ⟨all, by rw [same.1, h.kept]; rfl⟩

end Pass

end StyleGuide
