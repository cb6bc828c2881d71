import StyleGuide.Proofs.Checker.RowFindings

/-! # Mending invents no violations

A check that mends looks at each row as the rules have left it so far, and yet reports against the
rows what a check that mends nothing reports, but for one thing. Once the tabs in front of a row
have become spaces, a file that started to indent with tabs has mixed indentation there, and this
is reported beside the tabs.
-/

namespace StyleGuide

/-- Whether a code is one of the rules for rows or one of the rules for statements is clear. -/
theorem RowRule.not_mem_codes {rule : RowRule} {code : Code} (h : code ∈ rule.codes)
    (other : StatementRule) : code ∉ other.codes := by
  have here : code ∈ [.e501, .w292, .w191, .e101, .w391, .w291, .w293] := by
    cases rule <;> simp_all [codes]
  intro there
  cases other <;> simp only [StatementRule.codes, List.mem_cons] at here there <;> grind

instance (r : FileReport) (code : Code) (row : Nat) : Decidable (r.Reports code row) :=
  inferInstanceAs (Decidable (∃ v ∈ r.violations, v.code = code ∧ v.row = row))

theorem Registry.pairwise_before (f : CodeFilter) :
    (ofFilter f).rowRules.Pairwise RowRule.Before :=
  RowRule.pairwise_before_all.sublist List.filter_sublist

/-- What the rules for rows report where a source is mended they report where it is not, unless the
    row has nothing but tabs in front of it and is reported for them: then the spaces in their place
    may be reported as mixed indentation. -/
theorem reports_of_mended (f : CodeFilter) (config : Config) {source : Text} {tokens : List Token}
    (read : tokenize source = .ok tokens) :
    ∃ mended plain : FileReport,
      (Checker.mk (.ofFilter f) { config with fix := true }).check source = .ok mended ∧
        (Checker.mk (.ofFilter f) { config with fix := false }).check source = .ok plain ∧
        ∀ rule : RowRule, ∀ code ∈ rule.codes, ∀ row, mended.Reports code row →
          plain.Reports code row ∨
            code = .e101 ∧ plain.Reports .w191 row ∧
              let front := indentation ((Rows.ofSource source).row row)
              front ≠ [] ∧ ∀ c ∈ front, c = '\t' := by
  let mends : Checker := ⟨.ofFilter f, { config with fix := true }⟩
  let reads : Checker := ⟨.ofFilter f, { config with fix := false }⟩
  refine ⟨_, _, mends.check_of_tokenize read, reads.check_of_tokenize read, ?_⟩
  have shown {code : Code} {row : Nat} (h : (mends.pass source).Shows row code) :
      ((reads.pass source).report ((reads.pass source).after tokens)).Reports code row :=
    Pass.Shows.reports (p := reads.pass source) rfl tokens ⟨h.pos, h.le, h.kept, h.found⟩
  rintro rule code mem row ⟨v, hv, rfl, rfl⟩
  rcases (mends.pass source).explains_report (Registry.pairwise_before f) tokens v hv with
    ⟨other, code⟩ | here | ⟨mixed, tabs, front⟩
  · exact absurd code (rule.not_mem_codes mem other)
  · exact .inl (shown here)
  · exact .inr ⟨mixed, shown tabs, front⟩

/-- Rows with tabs, with tabs and spaces, with white space at the end, and without a newline. -/
theorem reports_of_mended_tabs :
    let source := "if a: \n\tx = 1\n \ty = 2\t\n\t ".toList
    ∃ tokens, tokenize source = .ok tokens ∧ ∃ mended plain : FileReport,
      (Checker.mk (.ofFilter .allowAll) { ({} : Config) with fix := true }).check source =
          .ok mended ∧
        (Checker.mk (.ofFilter .allowAll) { ({} : Config) with fix := false }).check source =
          .ok plain ∧
        (∀ rule : RowRule, ∀ code ∈ rule.codes, ∀ row, mended.Reports code row →
          plain.Reports code row ∨
            code = .e101 ∧ plain.Reports .w191 row ∧
              let front := indentation ((Rows.ofSource source).row row)
              front ≠ [] ∧ ∀ c ∈ front, c = '\t') ∧
        mended.Reports .e101 2 ∧ mended.Reports .e101 3 ∧ plain.Reports .e101 3 := by
  intro source
  obtain ⟨tokens, read⟩ : ∃ tokens, (tokenize source).toOption = some tokens :=
    Option.isSome_iff_exists.mp (by decide +kernel)
  have mends : ((Checker.mk (.ofFilter .allowAll) { ({} : Config) with fix := true }).check
      source).toOption.any fun r => r.Reports .e101 2 ∧ r.Reports .e101 3 := by
    decide +kernel
  have reads : ((Checker.mk (.ofFilter .allowAll) { ({} : Config) with fix := false }).check
      source).toOption.any fun r => r.Reports .e101 3 := by
    decide +kernel
  obtain ⟨mended, plain, checked, checked', shown⟩ :=
    reports_of_mended .allowAll {} (eq_ok_of_toOption read)
  rw [checked] at mends
  rw [checked'] at reads
  have both := of_decide_eq_true mends
  exact ⟨tokens, eq_ok_of_toOption read, mended, plain, checked, checked', shown, both.1, both.2,
    of_decide_eq_true reads⟩

/-- With the tab of the second row mended, its indentation is reported as mixed, though the row as
    it is in the source is indented with a tab only. -/
theorem mixed_reported_of_mended :
    let source := "if a:\n\tx = 1\n".toList
    ∃ tokens, tokenize source = .ok tokens ∧ ∃ mended plain : FileReport,
      (Checker.mk (.ofFilter .allowAll) { ({} : Config) with fix := true }).check source =
          .ok mended ∧
        (Checker.mk (.ofFilter .allowAll) { ({} : Config) with fix := false }).check source =
          .ok plain ∧
        mended.Reports .e101 2 ∧ ¬plain.Reports .e101 2 := by
  intro source
  obtain ⟨tokens, read⟩ : ∃ tokens, (tokenize source).toOption = some tokens :=
    Option.isSome_iff_exists.mp (by decide +kernel)
  have checked := (Checker.mk (.ofFilter .allowAll) { ({} : Config) with fix := true
    }).check_of_tokenize (eq_ok_of_toOption read)
  have checked' := (Checker.mk (.ofFilter .allowAll) { ({} : Config) with fix := false
    }).check_of_tokenize (eq_ok_of_toOption read)
  have mends : ((Checker.mk (.ofFilter .allowAll) { ({} : Config) with fix := true }).check
      source).toOption.any fun r => r.Reports .e101 2 := by
    decide +kernel
  have reads : ((Checker.mk (.ofFilter .allowAll) { ({} : Config) with fix := false }).check
      source).toOption.any fun r => ¬r.Reports .e101 2 := by
    decide +kernel
  rw [checked] at mends
  rw [checked'] at reads
  exact ⟨tokens, eq_ok_of_toOption read, _, _, checked, checked', of_decide_eq_true mends,
    of_decide_eq_true reads⟩

end StyleGuide
