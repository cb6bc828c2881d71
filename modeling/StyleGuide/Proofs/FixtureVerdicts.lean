import StyleGuide.Proofs.Checker.Run
import StyleGuide.Proofs.Report.Tally
import StyleGuide.Proofs.SelfTest.Sections

/-! # Verdicts on the sections of a fixture file

A report whose counts are empty tells the codes of one section only. So each section passes on its
own account, and since the counts are forgotten behind it, the next one finds them empty again.
-/

namespace StyleGuide.Fixture

/-- The rows of the section can be read, and the codes that are reported on them are those that the
    section declares, `Okay` apart. -/
def Section.Agrees (s : Section) (c : Checker) : Prop :=
  ∃ tokens file, tokenize s.source = .ok tokens ∧ c.check s.source = .ok file ∧
    ∀ code, code ∈ file.violations.map (fun v => v.code.text) ↔ code ∈ s.declared ∧ code ≠ "Okay"

variable {c : Checker} {name : String} {verbose : Bool} {state : State} {s : Section}
  {file : FileReport}

theorem agrees_iff_of_check (h : c.check s.source = .ok file) :
    s.Agrees c ↔ (∀ v ∈ file.violations, v.code.text ∈ s.expected) ∧
      ∀ code ∈ s.expected, code ∈ file.violations.map fun v => v.code.text := by
  have expected (code : String) : code ∈ s.expected ↔ code ∈ s.declared ∧ code ≠ "Okay" := by
    simp [Section.expected]
  constructor
  · rintro ⟨-, file', -, h', same⟩
    obtain rfl := Except.ok.inj (h.symm.trans h')
    refine ⟨fun v hv => ?_, fun code hc => (same code).mpr ((expected code).mp hc)⟩
    exact (expected _).mpr ((same _).mp (List.mem_map.mpr ⟨v, hv, rfl⟩))
  · rintro ⟨known, found⟩
    obtain ⟨tokens, read⟩ := c.tokenize_of_check h
    refine ⟨tokens, file, read, h, fun code => ⟨fun hc => ?_, fun hc => ?_⟩⟩
    · obtain ⟨v, hv, rfl⟩ := List.mem_map.mp hc
      exact (expected _).mp (known v hv)
    · exact found code ((expected code).mpr hc)

theorem not_agrees_of_error {e : SyntaxError} (h : c.check s.source = .error e) : ¬s.Agrees c := by
  rintro ⟨-, file, -, h', -⟩
  rw [h] at h'
  cases h'

instance (s : Section) (c : Checker) : Decidable (s.Agrees c) :=
  match h : c.check s.source with
  | .ok _ => decidable_of_iff _ (agrees_iff_of_check h).symm
  | .error _ => .isFalse (not_agrees_of_error h)

/-- A section that finds no counts passes if the codes agree, and leaves no counts. -/
theorem check_of_clear (clear : state.report.tallies = []) :
    (check c name verbose state s).report.tallies = [] ∧
      (check c name verbose state s).summary = state.summary.add (decide (s.Agrees c)) := by
  refine ⟨rfl, ?_⟩
  simp only [check]
  cases h : c.check s.source with
  | error e => simp [not_agrees_of_error h]
  | ok file =>
      -- the counts are those of this section alone
      have tallies : Tally.addAll state.report.tallies file.violations =
          Tally.table Code.all file.violations := by
        rw [clear, ← Tally.table_nil, Tally.addAll_table, List.nil_append]
      have unexpected :
          (file.violations.filter fun v => !Report.isExpected s.expected v).length = 0 ↔
            ∀ v ∈ file.violations, v.code.text ∈ s.expected := by
        simp [Report.isExpected]
      have missing : (s.expected.filter fun code =>
          !Tally.has (Tally.table Code.all file.violations) code).isEmpty ↔
            ∀ code ∈ s.expected, code ∈ file.violations.map fun v => v.code.text := by
        simp [Tally.has_table_text]
      simp only [Report.addCase, Report.has, tallies, unexpected, missing, agrees_iff_of_check h]

/-- Each section is judged on its own account, so the sections that pass and those that fail are
    counted. -/
theorem foldl_check_of_clear (clear : state.report.tallies = []) (sections : List Section) :
    let final := sections.foldl (check c name verbose) state
    final.report.tallies = [] ∧
      final.summary.passed = state.summary.passed + sections.countP (·.Agrees c) ∧
      final.summary.failed = state.summary.failed + sections.countP (¬·.Agrees c) := by
  induction sections generalizing state with
  | nil => exact ⟨clear, rfl, rfl⟩
  | cons s sections ih =>
      obtain ⟨clear', judged⟩ := @check_of_clear c name verbose state s clear
      obtain ⟨empty, passed, failed⟩ := ih clear'
      dsimp only
      rw [List.foldl_cons, passed, failed, judged, List.countP_cons, List.countP_cons]
      by_cases agrees : s.Agrees c
      · simp only [agrees, TestSummary.add]
        exact ⟨empty, by simp [Nat.add_assoc, Nat.add_comm 1], by simp⟩
      · simp only [agrees, TestSummary.add]
        exact ⟨empty, by simp, by simp [Nat.add_assoc, Nat.add_comm 1]⟩

/-- Fixture verdicts are exact, whatever the checker and the options of the report. The sections
    that are judged are those that the rows of the file make up, each of them once and on its own
    account: it passes if the reported codes agree with the declared ones. Behind the last one the
    report has no counts again. -/
theorem testFixture_verdicts (c : Checker) (name : String) (contents : Text) (verbose : Bool)
    {report : Report} (clear : report.tallies = []) :
    let rows := Text.rows contents
    let judged := (opening? rows).toList ++ (declarations rows).map (sectionAt rows)
    let final := testFixture c name contents verbose report
    final = judged.foldl (check c name verbose) ⟨report, {}, []⟩ ∧
      (∀ before s after, judged = before ++ s :: after →
        let state := before.foldl (check c name verbose) ⟨report, {}, []⟩
        (check c name verbose state s).summary = state.summary.add (decide (s.Agrees c))) ∧
      final.summary.passed = judged.countP (·.Agrees c) ∧
      final.summary.failed = judged.countP (¬·.Agrees c) ∧
      final.summary.passed + final.summary.failed =
        (opening? rows).toList.length + (declarations rows).length ∧
      final.report.tallies = [] := by
  intro rows judged final
  have whole : final = judged.foldl (check c name verbose) ⟨report, {}, []⟩ :=
    congrArg (List.foldl _ _) (sections_eq contents)
  obtain ⟨empty, passed, failed⟩ :=
    @foldl_check_of_clear c name verbose ⟨report, {}, []⟩ clear judged
  rw [← whole, Nat.zero_add] at passed failed
  rw [← whole] at empty
  refine ⟨whole, fun before s after _ => ?_, passed, failed, ?_, empty⟩
  · exact (check_of_clear (foldl_check_of_clear clear before).1).2
  · have split := List.length_eq_countP_add_countP (l := judged) fun s => decide (s.Agrees c)
    simp only [decide_eq_true_eq] at split
    rw [passed, failed, ← split, List.length_append, List.length_map]

/-- The rows in front of the first declaration and four of the five declarations are judged. One
    section cannot be read, and in the next one a declared code is not reported. -/
theorem testFixture_verdicts_of_five :
    let contents := ("x = 1\n#: E225\nx=1\n#:\ny=1\n#: Okay\nx = (\n" ++
      "#: E225 E999\nx=1\n#: W292 Okay\nx = 1").toList
    let c : Checker := ⟨.ofFilter .allowAll, { fix := false }⟩
    let final := testFixture c "f.py" contents false {}
    (sections contents).map (fun s => (s.declaredAt, decide (s.Agrees c))) =
        [(0, true), (1, true), (5, false), (7, false), (9, true)] ∧
      final.summary.passed = 3 ∧ final.summary.failed = 2 ∧ final.report.tallies = [] := by
  intro contents c final
  obtain ⟨-, -, passed, failed, -, empty⟩ :=
    @testFixture_verdicts c "f.py" contents false {} rfl
  refine ⟨by decide +kernel, passed.trans ?_, failed.trans ?_, empty⟩ <;> decide +kernel

end StyleGuide.Fixture
