import StyleGuide.Checker

/-! # How rules change a statement

A rule leaves the text of a statement as it is or puts the text of its fix in its place, so what
all fixes keep, the statement keeps through all rules.
-/

namespace StyleGuide.Pass

variable {p : Pass} {line : LogicalLine}

theorem text_applyStatementRule (ctx : StatementContext) (s : StatementState)
    (rule : StatementRule) :
    (p.applyStatementRule line ctx s rule).text = s.text ∨
      ∃ description new, rule.fix { ctx with text := s.text } = some ⟨description, .line new⟩ ∧
        (p.applyStatementRule line ctx s rule).text = new := by
  simp only [applyStatementRule]
  split
  · exact .inl rfl
  · split
    · exact .inl rfl
    · split
      · next description new h =>
          split
          · exact .inl rfl
          · split at h
            · exact .inr ⟨description, new, h, rfl⟩
            · cases h
      · split <;> exact .inl rfl
      · exact .inl rfl

/-- A property of texts that every fix of the rules keeps holds of the mended statement. -/
theorem mend_induction {P : Text → Prop} {s : CheckState} (start : P line.text)
    (step : ∀ rule ∈ p.registry.statementRules, ∀ (ctx : StatementContext) (description : String)
      (new : Text), rule.fix ctx = some ⟨description, .line new⟩ → P ctx.text → P new) :
    P (p.mend s line).text := by
  simp only [mend]
  have fold : ∀ (rules : List StatementRule) (ctx : StatementContext) (u : StatementState),
      (∀ rule ∈ rules, rule ∈ p.registry.statementRules) → P u.text →
        P (rules.foldl (p.applyStatementRule line ctx) u).text := by
    intro rules
    induction rules with
    | nil => exact fun _ _ _ h => h
    | cons rule rules ih =>
        intro ctx u sub h
        refine ih ctx _ (fun r hr => sub r (List.mem_cons_of_mem _ hr)) ?_
        rcases @text_applyStatementRule p line ctx u rule with eq | ⟨d, new, hf, eq⟩
        · rwa [eq]
        · rw [eq]
          exact step rule (sub rule (List.mem_cons_self ..)) _ d new hf h
  exact fold _ _ _ (fun _ hr => hr) start

end StyleGuide.Pass
