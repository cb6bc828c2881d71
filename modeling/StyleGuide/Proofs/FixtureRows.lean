import StyleGuide.Proofs.Checker.Quotes
import StyleGuide.Proofs.SelfTest.Sections

/-! # Rows of a fixture file in reports

A section is checked as a source of its own, whose rows count from one. A report adds the number of
rows that come before the section, and takes for it one more than the index of the declaration. So a
violation behind a declaration is printed with the number that its row has in the file, and one in
the rows before the first declaration with the number of the next row.
-/

namespace StyleGuide

/-- The violation as many rows further down. -/
def Violation.moved (n : Nat) (v : Violation) : Violation := { v with row := n + v.row }

/-- The report with its violations as many rows further down. -/
def FileReport.moved (n : Nat) (file : FileReport) : FileReport :=
  { file with violations := file.violations.map (Violation.moved n) }

section Moved

variable {n : Nat} {v : Violation} {path : String} {expected : List String} {file : FileReport}

theorem Violation.lines_moved (o : ReportOptions) :
    v.lines o path n = (v.moved n).lines o path 0 := by
  simp [lines, moved, text]

theorem Tally.add_moved (n : Nat) (v : Violation) (ts : List Tally) :
    add (v.moved n) ts = add v ts := by
  induction ts with
  | nil => rfl
  | cons t ts ih =>
      rw [add, add, ih]
      rfl

theorem Tally.addAll_moved (n : Nat) (vs : List Violation) (ts : List Tally) :
    addAll ts (vs.map (Violation.moved n)) = addAll ts vs := by
  simp only [addAll, List.foldl_map, add_moved]

theorem Report.linesFrom_moved (o : ReportOptions) (fixes : List FixNotice) (ts : List Tally)
    (i : Nat) (vs : List Violation) :
    linesFrom o path fixes expected n ts i vs =
      linesFrom o path fixes expected 0 ts i (vs.map (Violation.moved n)) := by
  induction vs generalizing ts i with
  | nil => rfl
  | cons v vs ih =>
      rw [List.map_cons, linesFrom, linesFrom, ih, Violation.lines_moved, Tally.add_moved]
      rfl

/-- A part of a file behind `n` rows is reported as a file whose violations are `n` rows further
    down. -/
theorem Report.addCase_moved (r : Report) (n : Nat) :
    r.addCase path file expected n = r.addCase path (file.moved n) expected 0 := by
  have unexpected : ((file.violations.map (Violation.moved n)).filter fun v =>
      !isExpected expected v).length = (file.violations.filter fun v =>
      !isExpected expected v).length := by
    rw [List.filter_map, List.length_map]
    rfl
  simp only [addCase, FileReport.moved, Tally.addAll_moved, unexpected, ← linesFrom_moved]

end Moved

namespace Fixture

variable {c : Checker} {name : String} {verbose : Bool} {contents : Text} {state : State}
  {s : Section} {file : FileReport} {v : Violation} {above below : List Text}

/-- A row of a section is one of the file. -/
theorem shown_of_rows (whole : Text.rows contents = above ++ Text.rows s.source ++ below)
    (quotes : v.Quotes (Rows.ofSource s.source)) :
    (Rows.ofSource contents).shown (above.length + v.row) = v.sourceLine := by
  obtain ⟨first, last, line⟩ := quotes
  obtain ⟨n, hn⟩ : ∃ n, v.row = n + 1 := ⟨v.row - 1, by omega⟩
  have size : (Rows.ofSource s.source).size = (Text.rows s.source).length := by simp [Rows.ofSource]
  have row : (Rows.ofSource contents).row (above.length + (n + 1)) =
      (Rows.ofSource s.source).row (n + 1) := by
    rw [← Nat.add_assoc, Text.row_ofSource, Text.row_ofSource, whole, List.append_assoc,
      List.getElem?_append_right (Nat.le_add_right ..), Nat.add_sub_cancel_left,
      List.getElem?_append_left (by omega)]
  rw [line, hn, Rows.shown, row, Rows.shown]

/-- A section that can be read is reported as if its violations were as many rows further down as
    the declaration and the rows in front of it. -/
theorem exists_lines_check (name : String) (verbose : Bool) (state : State)
    (checked : c.check s.source = .ok file) :
    ∃ more, (check c name verbose state s).lines = state.lines ++
      (state.report.addCase name (file.moved (s.declaredAt + 1)) s.expected 0).2.2 ++ more := by
  simp only [check, checked, ← Report.addCase_moved, List.append_assoc]
  exact ⟨_, rfl⟩

/-- What has been printed stays. -/
theorem lines_prefix_foldl (name : String) (verbose : Bool) (state : State)
    (sections : List Section) :
    state.lines <+: (sections.foldl (check c name verbose) state).lines := by
  induction sections generalizing state with
  | nil => exact List.prefix_rfl
  | cons s sections ih =>
      refine List.IsPrefix.trans ?_ (ih _)
      simp only [check, List.append_assoc]
      exact List.prefix_append _ _

/-- For each section of a fixture file the report prints the violations as many rows further down
    as the declaration and the rows in front of it. This is the row of the file that a violation
    quotes exactly if the section is not the one in front of the first declaration. -/
theorem printed_row_iff (c : Checker) (name : String) (verbose : Bool) (report : Report)
    {before after : List Section} (split : sections contents = before ++ s :: after)
    (checked : c.check s.source = .ok file) :
    let state := before.foldl (check c name verbose) ⟨report, {}, []⟩
    ∃ above below more, Text.rows contents = above ++ Text.rows s.source ++ below ∧
      s.StandsBehind above ∧
      (testFixture c name contents verbose report).lines = state.lines ++
        (state.report.addCase name (file.moved (s.declaredAt + 1)) s.expected 0).2.2 ++ more ∧
      ∀ v ∈ file.violations, 1 ≤ v.row ∧ v.row ≤ (Text.rows s.source).length ∧
        (Rows.ofSource contents).shown (above.length + v.row) = v.sourceLine ∧
        ((v.moved (s.declaredAt + 1)).row = above.length + v.row ↔ above ≠ []) := by
  intro state
  have mem : s ∈ sections contents := by simp [split]
  obtain ⟨above, below, whole, stands⟩ := exists_rows_of_mem mem
  obtain ⟨more, lines⟩ := exists_lines_check name verbose state checked
  have run : (testFixture c name contents verbose report).lines =
      (after.foldl (check c name verbose) (check c name verbose state s)).lines := by
    rw [testFixture, split, List.foldl_append, List.foldl_cons]
  obtain ⟨later, rest⟩ :=
    lines_prefix_foldl (c := c) name verbose (check c name verbose state s) after
  refine ⟨above, below, more ++ later, whole, stands, ?_, fun v hv => ?_⟩
  · rw [run, ← rest, lines, List.append_assoc]
  · have quotes := Checker.quotes_of_check checked v hv
    refine ⟨quotes.first, ?_, shown_of_rows whole quotes, ?_⟩
    · simpa [Rows.ofSource] using quotes.last
    · cases stands with
      | opening index => simp [Violation.moved, index]
      | declaration _ index => simp [Violation.moved, index]

/-- Behind a declaration the printed row is the one that is quoted. -/
theorem printed_row_behind_declaration :
    let contents := "y = 1\n#: Okay\nz = 2\nx=1\n".toList
    let s : Section := ⟨1, ["Okay"], "z = 2\nx=1\n".toList⟩
    let c : Checker := ⟨.ofFilter .allowAll, { fix := false }⟩
    sections contents = [⟨0, ["Okay"], "y = 1\n".toList⟩] ++ s :: [] ∧
      (testFixture c "f.py" contents false {}).lines =
        ["f.py:4:2: E225 missing whitespace around operator"] ∧
      ∃ file, c.check s.source = .ok file ∧ ∃ v ∈ file.violations,
        (v.moved (s.declaredAt + 1)).row = 4 ∧
          (Rows.ofSource contents).shown 4 = v.sourceLine := by
  intro contents s c
  have split : sections contents = [⟨0, ["Okay"], "y = 1\n".toList⟩] ++ s :: [] := by
    decide +kernel
  obtain ⟨file, checked, v, hv, row⟩ :
      ∃ file ∈ (c.check s.source).toOption, ∃ v ∈ file.violations, v.row = 2 := by
    decide +kernel
  have checked := eq_ok_of_toOption checked
  obtain ⟨above, -, -, -, stands, -, quoted⟩ := printed_row_iff c "f.py" false {} split checked
  obtain ⟨-, -, shown, iff⟩ := quoted v hv
  have printed : (v.moved (s.declaredAt + 1)).row = 4 := by simp [Violation.moved, row, s]
  have ne : above ≠ [] := by
    cases stands with
    | opening index => cases index
    | declaration => simp
  refine ⟨split, by decide +kernel, file, checked, v, hv, printed, ?_⟩
  rw [← shown, ← iff.mpr ne, printed]

/-- The only row of the file stands in front of any declaration, and the row behind it, which does
    not exist, is printed. -/
theorem printed_row_of_opening :
    let contents := "x=1\n".toList
    let c : Checker := ⟨.ofFilter .allowAll, { fix := false }⟩
    (testFixture c "f.py" contents false {}).lines =
        ["f.py:2:2: E225 missing whitespace around operator"] ∧
      (Rows.ofSource contents).shown 1 = "x=1".toList ∧ (Rows.ofSource contents).size = 1 := by
  decide +kernel

end Fixture

end StyleGuide
