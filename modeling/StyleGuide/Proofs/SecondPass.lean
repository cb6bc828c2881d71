import StyleGuide.Proofs.Checker.Rest
import StyleGuide.Proofs.Checker.Violations
import StyleGuide.Proofs.Ledger.Neat

/-! # A second pass

Where tabs are mended, the rows of a mended source are at rest: a second pass changes none of them,
whatever it does to the statements. No row that stands alone has white space at its end, and the
last row is not blank. So if the second pass announces no change, it writes the same source again. A
rule for statements that mends one place of several in a pass announces the next in the second.
-/

namespace StyleGuide

/-! ## Changes to statements -/

/-- Each change has been announced for what one of these rules has found. -/
def Findings.AnnouncesFor (rules : List StatementRule) (f : Findings) : Prop :=
  ∀ notice ∈ f.notices, ∃ v, f.violations[notice.violation]? = some v ∧
    ∃ rule ∈ rules, v.code ∈ rule.codes

namespace Findings.AnnouncesFor

variable {rules : List StatementRule} {rule : StatementRule} {f : Findings} {v : Violation}

theorem add (h : f.AnnouncesFor rules) (v : Violation) : (f.add v).AnnouncesFor rules := by
  intro notice hn
  obtain ⟨w, here, found⟩ := h notice hn
  have lt := (Array.getElem?_eq_some_iff.mp here).1
  refine ⟨w, ?_, found⟩
  rw [Findings.add, Array.getElem?_push, if_neg (by omega)]
  exact here

theorem announce (h : f.AnnouncesFor rules) (mem : rule ∈ rules) (code : v.code ∈ rule.codes)
    (description : String) (old new : Text) :
    ((f.add v).announce description old new).AnnouncesFor rules := by
  intro notice hn
  rcases Array.mem_push.mp hn with hn | rfl
  · exact h.add v notice hn
  · refine ⟨v, ?_, rule, mem, code⟩
    simp [Findings.announce, Findings.add]

end Findings.AnnouncesFor

namespace Pass

variable {p : Pass} {rules : List StatementRule} {rule : StatementRule}

theorem announcesFor_applyStatementRule {line : LogicalLine} {ctx : StatementContext}
    {u : StatementState} (mem : rule ∈ rules) (h : u.findings.AnnouncesFor rules) :
    (p.applyStatementRule line ctx u rule).findings.AnnouncesFor rules := by
  rcases p.findings_applyStatementRule_cases line ctx u rule with
    same | same | ⟨v, here, same | ⟨description, old, new, same⟩⟩
  · rwa [same]
  · rw [same]
    exact h
  · rw [same]
    exact h.add v
  · obtain ⟨finding, found, rfl⟩ := Option.map_eq_some_iff.mp here
    rw [same]
    exact h.announce mem (StatementRule.points_of_check found).1 description old new

theorem announcesFor_mend {s : CheckState} {line : LogicalLine}
    (h : s.findings.AnnouncesFor p.registry.statementRules) :
    (p.mend s line).findings.AnnouncesFor p.registry.statementRules := by
  have fold (rules : List StatementRule) (sub : rules ⊆ p.registry.statementRules)
      (u : StatementState) (h : u.findings.AnnouncesFor p.registry.statementRules) :
      (rules.foldl (p.applyStatementRule line (p.contextOf s line)) u).findings.AnnouncesFor
        p.registry.statementRules := by
    induction rules generalizing u with
    | nil => exact h
    | cons rule rules ih =>
        obtain ⟨mem, sub⟩ := List.cons_subset.mp sub
        exact ih sub _ (announcesFor_applyStatementRule mem h)
  exact fold _ (List.Subset.refl _) _ h

/-- If all rows are at rest, only changes to statements are announced. -/
theorem announcesFor_report (tokens : List Token)
    (rest : ∀ char n, 0 < n → n ≤ p.rows.size → ∀ rule ∈ p.registry.rowRules,
      p.IsAtRest char n (p.rows.row n) rule) :
    let report := p.report (p.after tokens)
    ∀ notice ∈ report.fixes, ∃ v, report.violations[notice.violation]? = some v ∧
      ∃ rule ∈ p.registry.statementRules, v.code ∈ rule.codes := by
  intro report notice hn
  have row (u : CheckState) (_ : p.OnTrack u) (lt : u.fixedRows.size < p.rows.size)
      (h : u.findings.AnnouncesFor p.registry.statementRules) :
      (p.checkRow u).findings.AnnouncesFor p.registry.statementRules :=
    foldl_applyRowRule_of_isAtRest (s := ⟨_, u.findings⟩) (fun _ h => h) (fun _ v h => h.add v)
      (rest _ _ (Nat.succ_pos _) lt) h
  have start : Findings.none.AnnouncesFor p.registry.statementRules := by
    simp [Findings.AnnouncesFor, Findings.none]
  obtain ⟨findings, all, violations, fixes⟩ :=
    keeps_report row start tokens fun _ _ _ _ _ _ => announcesFor_mend
  rw [fixes] at hn
  rw [violations, Array.getElem?_toList]
  exact all notice (Array.mem_toList_iff.mp hn)

end Pass

section Source

variable {c : Checker} {source fixed row : Text} {tokens : List Token} {n : Nat}

/-- A row of a mended source is at rest in a second pass, if no tab stands in front of it or tabs
    are mended. -/
theorem Pass.IsWritten.isAtRest (fix : c.config.fix)
    (sorted : c.registry.rowRules.Pairwise RowRule.Before)
    (written : (c.pass source).IsWritten row)
    (bare : (c.pass fixed).MendsTabs ∨ '\t' ∉ indentation row)
    (last : n = (c.pass fixed).rows.size → ¬Text.isAllBlank row) (char : Option Char)
    (rule : RowRule) (mem : rule ∈ c.registry.rowRules) :
    (c.pass fixed).IsAtRest char n row rule := by
  have bare : '\t' ∉ indentation row := by
    refine bare.elim (fun tabs tab => ?_) id
    obtain ⟨n, pos, le, tab⟩ := written.tabs tab
    exact not_mem_indentation_mendedRows (p := c.pass source) fix tabs pos le tab
  intro code description new found kept fixes
  cases rule with
  | lineLength => cases fixes
  | missingNewline =>
      rw [RowRule.code?_missingNewline] at found
      split at found
      · next ends =>
          cases found
          refine absurd ends (endsInBlank_iff.mp ?_)
          rcases written.ended with tidied | ⟨n, pos, le, row, other⟩
          · exact endsInBlank_of_tidied tidied
          · have := endsInBlank_mendedRows (p := c.pass source) fix mem kept pos le other
            rwa [← row] at this
      · cases found
  | tabIndentation | mixedIndentation =>
      cases fixes
      exact untabify_of_not_mem bare
  | trailingBlankLine =>
      rw [RowRule.code?_trailingBlankLine] at found
      split at found
      · next h => exact absurd h.2 (last h.1)
      · cases found
  | trailingWhitespace =>
      have stripped : TrailingWhitespace.strip row = row := by
        rcases written.ended with tidied | ⟨n, pos, le, same, -⟩
        · exact TrailingWhitespace.strip_of_tidied tidied
        · exact strip_mendedRows (p := c.pass source) fix sorted mem pos le same found kept
      obtain ⟨-, eq⟩ := Fix.mk.inj (Option.some.inj fixes)
      injection eq with eq
      exact eq.symm.trans stripped

/-- The mended source of an orderly source is at rest: a second pass announces changes to statements
    alone, as far as tabs are mended or none is left in front of a row. And if it announces none, it
    writes that source again, as far as it is orderly and regular itself. -/
theorem fixed_of_second_pass (fix : c.config.fix)
    (sorted : c.registry.rowRules.Pairwise RowRule.Before) (read : tokenize source = .ok tokens)
    (orderly : IsOrderly (Rows.ofSource source) (Runs.of tokens).ended) :
    ∃ report fixed, c.check source = .ok report ∧ report.fixed = some fixed ∧
      ∀ tokens', tokenize fixed = .ok tokens' →
        let rows := Rows.ofSource fixed
        let runs := (Runs.of tokens').ended
        ∃ report', c.check fixed = .ok report' ∧
          ((c.pass fixed).MendsTabs ∨ (∀ row ∈ Text.rows fixed, '\t' ∉ indentation row) →
            ∀ notice ∈ report'.fixes, ∃ v, report'.violations[notice.violation]? = some v ∧
              ∃ rule ∈ c.registry.statementRules, v.code ∈ rule.codes) ∧
          (IsOrderly rows runs → IsRegular rows runs →
            IsNeat rows runs ∧ (report'.fixes = [] → report'.fixed = some fixed)) := by
  obtain ⟨report, fixed, check, written, tidied⟩ := orderly.isTidied_fixed (c := c) fix read
  refine ⟨report, fixed, check, written, ?_⟩
  intro tokens' read' rows runs
  refine ⟨_, c.check_of_tokenize read', fun bare => ?_, fun orderly' regular => ?_⟩
  · refine Pass.announcesFor_report tokens' fun char n pos le rule mem => ?_
    have here : (Text.rows fixed)[n - 1]? = some (rows.row n) := Rows.getElem?_rows pos le
    have hr := List.mem_of_getElem? here
    refine (tidied.rows _ hr).isAtRest fix sorted (bare.imp_right fun none => none _ hr) ?_ char
      rule mem
    rintro rfl
    refine tidied.last _ ?_
    rwa [List.getLast?_eq_getElem?, ← Rows.size_ofSource]
  · have neat := orderly'.isNeat read' tidied
    obtain ⟨report', check', unchanged⟩ := fixed_of_silent (c := c) fix read' regular
    rw [c.check_of_tokenize read'] at check'
    obtain rfl := Except.ok.inj check'
    exact ⟨neat, fun silent => (unchanged silent).2.2 neat⟩

end Source

/-- A statement, a block behind a comment and a statement over several rows, mended in one pass. -/
theorem second_pass_of_block :
    let source := "import os,sys  \n\n\n\n# c \ndef f(a) :\n\treturn [a,\n  1] \n\n".toList
    let c : Checker := ⟨⟨RowRule.all, StatementRule.all⟩, { fix := true }⟩
    ∃ report fixed report', c.check source = .ok report ∧ report.fixed = some fixed ∧
      fixed ≠ source ∧ c.check fixed = .ok report' ∧ report'.fixes = [] ∧
      report'.fixed = some fixed := by
  intro source c
  let mended : Text := "import os, sys\n\n\n# c\ndef f(a):\n    return [a,\n  1]\n".toList
  obtain ⟨tokens, read⟩ : ∃ tokens, (tokenize source).toOption = some tokens :=
    Option.isSome_iff_exists.mp (by decide +kernel)
  have orderly : IsOrderly (Rows.ofSource source)
      (Runs.of ((tokenize source).toOption.getD [])).ended := by
    decide +kernel
  obtain ⟨tokens', read'⟩ : ∃ tokens', (tokenize mended).toOption = some tokens' :=
    Option.isSome_iff_exists.mp (by decide +kernel)
  have orderly' : IsOrderly (Rows.ofSource mended)
      (Runs.of ((tokenize mended).toOption.getD [])).ended := by
    decide +kernel
  have regular : IsRegular (Rows.ofSource mended)
      (Runs.of ((tokenize mended).toOption.getD [])).ended := by
    decide +kernel
  have first : (c.check source).toOption.bind FileReport.fixed = some mended := by decide +kernel
  have silent : (c.check mended).toOption.map FileReport.fixes = some [] := by decide +kernel
  rw [read] at orderly
  rw [read'] at orderly' regular
  obtain ⟨report, fixed, check, written, again⟩ :=
    fixed_of_second_pass (c := c) rfl (by decide) (eq_ok_of_toOption read) orderly
  rw [check] at first
  obtain rfl : fixed = mended := Option.some.inj (written.symm.trans first)
  obtain ⟨report', check', -, unchanged⟩ := again tokens' (eq_ok_of_toOption read')
  rw [check'] at silent
  have silent := Option.some.inj silent
  exact ⟨report, mended, report', check, written, by decide, check', silent,
    (unchanged orderly' regular).2 silent⟩

/-- The rule on white space behind brackets takes one space of two in each pass. -/
theorem second_pass_takes_space :
    let source := "f(  a)\n".toList
    let c : Checker := ⟨⟨RowRule.all, StatementRule.all⟩, { fix := true }⟩
    ∃ report report', c.check source = .ok report ∧ report.fixed = some "f( a)\n".toList ∧
      c.check "f( a)\n".toList = .ok report' ∧ report'.fixed = some "f(a)\n".toList := by
  intro source c
  obtain ⟨report, check⟩ : ∃ report, (c.check source).toOption = some report :=
    Option.isSome_iff_exists.mp (by decide +kernel)
  obtain ⟨report', check'⟩ : ∃ report', (c.check "f( a)\n".toList).toOption = some report' :=
    Option.isSome_iff_exists.mp (by decide +kernel)
  have first : (c.check source).toOption.bind FileReport.fixed = some "f( a)\n".toList := by
    decide +kernel
  have second : (c.check "f( a)\n".toList).toOption.bind FileReport.fixed =
      some "f(a)\n".toList := by
    decide +kernel
  rw [check] at first
  rw [check'] at second
  exact ⟨report, report', eq_ok_of_toOption check, first, eq_ok_of_toOption check', second⟩

/-- Where tabs are not mended, spaces in the place of the first ones make the others mixed
    indentation. -/
example :
    let c : Checker := ⟨⟨RowRule.all, StatementRule.all⟩, { fix := true, ignore := ["W191"] }⟩
    let fixed (source : Text) := (c.check source).toOption.bind FileReport.fixed
    let first := "if a:\n      b = 1\nif c:\n\td = 1\n".toList
    fixed "if a:\n\t  b = 1\nif c:\n\td = 1\n".toList = some first ∧
      fixed first = some "if a:\n      b = 1\nif c:\n    d = 1\n".toList := by
  decide +kernel

/-- Where a comment stands on a row of its own inside a statement, a second pass takes away again the
    blank lines that the first has put in front of the statement, and announces nothing. -/
example :
    let c : Checker := ⟨⟨RowRule.all, StatementRule.all⟩, { fix := true }⟩
    let source := "x = 1\ndef f(a,\n      # c\n      b):\n    pass\n".toList
    let first := "x = 1\n\n\ndef f(a,\n      # c\n      b):\n    pass\n".toList
    (c.check source).toOption.bind FileReport.fixed = some first ∧
      (c.check first).toOption.map (fun r => (r.fixes, r.fixed)) = some ([], some source) := by
  decide +kernel

end StyleGuide
