import StyleGuide.Proofs.Checker.SameTokens

/-! # Suppressing codes

A filter does nothing but leave violations out of the report. The rules, and what a check remembers
between statements, do not depend on it, and a rule all of whose codes are suppressed may as well
not be applied.
-/

namespace StyleGuide

namespace Pass

variable {α : Type} {view : Violation → Option α} {p q : Pass}

theorem exists_within (ts : List Token) : ∃ n, Within n ts := by
  induction ts with
  | nil => exact ⟨0, nofun⟩
  | cons t ts ih =>
      obtain ⟨n, within⟩ := ih
      refine ⟨max n (max t.start.row t.stop.row), fun u hu => ?_⟩
      rcases List.mem_cons.mp hu with rfl | hu
      · omega
      · have := within u hu
        omega

/-- Two passes over the same rows with alike rules. -/
structure Equals (view : Violation → Option α) (p q : Pass) : Prop where
  reads : p.config.fix = false
  reads' : q.config.fix = false
  rows : p.rows = q.rows
  tabSize : p.config.tabSize = q.config.tabSize
  rowRules : ∀ i, (p.rowViolations i).filterMap view = (q.rowViolations i).filterMap view
  rules : ∀ g : StatementRule → Option Violation,
    (∀ rule v, g rule = some v → v.code ∈ rule.codes) →
      (p.registry.statementRules.filterMap g).filterMap view =
        (q.registry.statementRules.filterMap g).filterMap view

/-- Two passes over the same rows with alike rules find the same in the whole source. -/
theorem Equals.allFound (h : Equals view p q) (tokens : List Token) :
    (p.allFound tokens).filterMap view = (q.allFound tokens).filterMap view := by
  obtain ⟨n, within⟩ := exists_within tokens
  have shares (n : Nat) : Shares p q n :=
    ⟨h.reads, h.reads', h.tabSize, fun i _ => by rw [h.rows], by rw [h.rows]⟩
  obtain ⟨parallel, size⟩ := (shares n).parallel within (fun i _ => h.rowRules i) h.rules
  have last := (shares p.rows.size).rowsFound_eq (Nat.le_refl _) (p.after tokens).fixedRows.size
    (fun i _ => h.rowRules i)
  rw [Pass.allFound, Pass.allFound, List.filterMap_append, List.filterMap_append, parallel.found,
    last, size, h.rows]

end Pass

namespace Registry

/-- Rules that find nothing that is shown may be left out. -/
theorem filterMap_filter_rules {α ρ : Type} {view : Violation → Option α} {keep : ρ → Bool}
    {g : ρ → Option Violation} {rules : List ρ}
    (h : ∀ rule v, g rule = some v → keep rule = false → view v = none) :
    ((rules.filter keep).filterMap g).filterMap view = (rules.filterMap g).filterMap view := by
  rw [List.filterMap_filterMap, List.filterMap_filterMap, List.filterMap_filter]
  refine List.filterMap_congr fun rule _ => ?_
  cases hk : keep rule with
  | true => rfl
  | false =>
      cases hg : g rule with
      | none => rfl
      | some v => simp [h rule v hg hk]

theorem ofFilter_allowAll : ofFilter .allowAll = ⟨RowRule.all, StatementRule.all⟩ := by
  decide +kernel

theorem suppresses_of_suppressesAll {f : CodeFilter} {codes : List Code} {code : Code}
    (h : (!f.suppressesAll (codes.map Code.text)) = false) (mem : code ∈ codes) :
    f.suppresses code.text := by
  simp only [CodeFilter.suppressesAll, Bool.not_eq_false', Bool.and_eq_true, List.all_map,
    List.all_eq_true] at h
  exact h.2 code mem

end Registry

/-- The violations that a filter lets through. -/
def CodeFilter.shown (f : CodeFilter) (v : Violation) : Option Violation :=
  Option.guard (fun v => !f.suppresses v.code.text) v

theorem CodeFilter.shown_eq_none {f : CodeFilter} {v : Violation}
    (h : f.suppresses v.code.text) : f.shown v = none := by
  simp [shown, h]

/-- The rules that a filter leaves out find nothing that it lets through. -/
theorem Pass.equals_of_pruned (config : Config) (reads : config.fix = false) (source : Text) :
    Equals config.codeFilter.shown
      (Checker.pass ⟨.ofFilter config.codeFilter, config⟩ source)
      (Checker.pass ⟨.ofFilter .allowAll, config⟩ source) where
  reads := reads
  reads' := reads
  rows := rfl
  tabSize := rfl
  rowRules i := by
    simp only [rowViolations, Checker.pass, Registry.ofFilter_allowAll]
    refine Registry.filterMap_filter_rules fun rule v hv pruned => ?_
    obtain ⟨f, found, rfl⟩ := Option.map_eq_some_iff.mp hv
    exact CodeFilter.shown_eq_none
      (Registry.suppresses_of_suppressesAll pruned (RowRule.points_of_check found).code)
  rules g codes := by
    simp only [Checker.pass, Registry.ofFilter_allowAll]
    refine Registry.filterMap_filter_rules fun rule v hv pruned => ?_
    exact CodeFilter.shown_eq_none
      (Registry.suppresses_of_suppressesAll pruned (codes rule v hv))

/-- A check with a filter reports what the check without one reports, but for the violations with
    suppressed codes, which it counts, and it does so with and without the rules of which it
    reports nothing. -/
theorem violations_eq_filter (config : Config) (reads : config.fix = false) {source : Text}
    {tokens : List Token} (read : tokenize source = .ok tokens) :
    let kept := fun v : Violation => !config.codeFilter.suppresses v.code.text
    ∃ all own whole : FileReport,
      (Checker.mk (.ofFilter .allowAll) { config with select := [], ignore := [] }).check source =
          .ok all ∧
        (Checker.mk (.ofFilter config.codeFilter) config).check source = .ok own ∧
        (Checker.mk (.ofFilter .allowAll) config).check source = .ok whole ∧
        own.violations = all.violations.filter kept ∧
        whole.violations = all.violations.filter kept ∧
        whole.suppressed = all.violations.countP fun v => !kept v := by
  intro kept
  let bare : Checker := ⟨.ofFilter .allowAll, { config with select := [], ignore := [] }⟩
  let pruned : Checker := ⟨.ofFilter config.codeFilter, config⟩
  let full : Checker := ⟨.ofFilter .allowAll, config⟩
  obtain ⟨all, -⟩ := (bare.pass source).report_of_reading reads tokens
  obtain ⟨own, -⟩ := (pruned.pass source).report_of_reading reads tokens
  obtain ⟨whole, suppressed⟩ := (full.pass source).report_of_reading reads tokens
  have every : (bare.pass source).allFound tokens = (full.pass source).allFound tokens := by
    have equals : Pass.Equals some (bare.pass source) (full.pass source) :=
      ⟨reads, reads, rfl, rfl, fun _ => rfl, fun _ _ => rfl⟩
    simpa using equals.allFound tokens
  have unfiltered : ((bare.pass source).report ((bare.pass source).after tokens)).violations =
      (full.pass source).allFound tokens := by
    rw [all, ← every]
    exact List.filter_eq_self.mpr fun v _ => rfl
  have shown : ((pruned.pass source).allFound tokens).filter kept =
      ((full.pass source).allFound tokens).filter kept := by
    rw [← List.filterMap_eq_filter]
    exact (Pass.equals_of_pruned config reads source).allFound tokens
  refine ⟨_, _, _, bare.check_of_tokenize read, pruned.check_of_tokenize read,
    full.check_of_tokenize read, ?_, ?_, ?_⟩
  · rw [unfiltered, own, ← shown]
    rfl
  · rw [unfiltered, whole]
    rfl
  · rw [unfiltered, suppressed]
    refine List.countP_congr fun v _ => ?_
    simp [kept, Pass.suppresses]
    rfl

/-- A rule all of whose codes are ignored, and a rule of which one code is. -/
theorem violations_eq_filter_of_ignored :
    let source := "import os, sys\nif x :\n\ty = ( 1)\n".toList
    let config : Config := { ignore := ["E201", "W1"], fix := false }
    let kept := fun v : Violation => !config.codeFilter.suppresses v.code.text
    config.fix = false ∧ ∃ tokens, tokenize source = .ok tokens ∧ ∃ all own whole : FileReport,
      (Checker.mk (.ofFilter .allowAll) { config with select := [], ignore := [] }).check source =
          .ok all ∧
        (Checker.mk (.ofFilter config.codeFilter) config).check source = .ok own ∧
        (Checker.mk (.ofFilter .allowAll) config).check source = .ok whole ∧
        own.violations = all.violations.filter kept ∧
        whole.violations = all.violations.filter kept ∧
        whole.suppressed = all.violations.countP (fun v => !kept v) ∧
        all.violations.map Violation.code = [.e401, .e203, .w191, .e201] ∧
        own.violations.map Violation.code = [.e401, .e203] := by
  intro source config kept
  obtain ⟨tokens, read⟩ : ∃ tokens, (tokenize source).toOption = some tokens :=
    Option.isSome_iff_exists.mp (by decide +kernel)
  have found : ((Checker.mk (.ofFilter .allowAll) { config with
      select := [], ignore := [] }).check source).toOption.map (fun r =>
        r.violations.map Violation.code) = some [.e401, .e203, .w191, .e201] := by
    decide +kernel
  have shown : ((Checker.mk (.ofFilter config.codeFilter) config).check source).toOption.map
      (fun r => r.violations.map Violation.code) = some [.e401, .e203] := by
    decide +kernel
  obtain ⟨all, own, whole, open_, pruned, full, rest⟩ :=
    violations_eq_filter config rfl (eq_ok_of_toOption read)
  rw [open_] at found
  rw [pruned] at shown
  exact ⟨rfl, tokens, eq_ok_of_toOption read, all, own, whole, open_, pruned, full, rest.1,
    rest.2.1, rest.2.2, Option.some.inj found, Option.some.inj shown⟩

end StyleGuide
