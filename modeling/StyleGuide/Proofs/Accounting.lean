import Mathlib.Data.List.DropRight
import StyleGuide.Machine
import StyleGuide.Proofs.Report.ExitStatus
import StyleGuide.Proofs.Report.Tally

/-! # What a report says of the files that it was given

Files, parts of files and resets come in any order. What a report counts, and what it prints, is
what the violations come to that were added since the last reset.
-/

namespace StyleGuide.Report

/-- What is done to a report. -/
inductive Call where
  | addFile (path : String) (file : FileReport)
  | addCase (path : String) (file : FileReport) (expected : List String) (lineOffset : Nat)
  | resetCounts

namespace Call

/-- Whether the counts are forgotten. -/
def isReset : Call → Bool
  | .resetCounts => true
  | _ => false

/-- The violations that are added. -/
def violations : Call → List Violation
  | .addFile _ file | .addCase _ file _ _ => file.violations
  | .resetCounts => []

/-- The violations that calls have added since the last reset. -/
def merged (calls : List Call) : List Violation :=
  (calls.rtakeWhile fun call => !call.isReset).flatMap violations

theorem merged_concat_of_reset {call : Call} (reset : call.isReset) (calls : List Call) :
    merged (calls ++ [call]) = [] := by
  rw [merged, List.rtakeWhile_concat_neg _ _ _ (by simp [reset])]
  rfl

theorem merged_concat {call : Call} (adds : call.isReset = false) (calls : List Call) :
    merged (calls ++ [call]) = merged calls ++ call.violations := by
  rw [merged, List.rtakeWhile_concat_pos _ _ _ (by simp [adds]), List.flatMap_append]
  simp [merged]

end Call

/-- The report behind a call. -/
def call (r : Report) : Call → Report
  | .addFile path file => (r.addFile path file).1
  | .addCase path file expected lineOffset => (r.addCase path file expected lineOffset).1
  | .resetCounts => r.resetCounts

/-- The report behind some calls, the first of which finds a new one. -/
def after (o : ReportOptions) (calls : List Call) : Report := calls.foldl call { options := o }

variable {o : ReportOptions} {calls : List Call}

theorem after_concat (o : ReportOptions) (calls : List Call) (c : Call) :
    after o (calls ++ [c]) = (after o calls).call c := by
  rw [after, List.foldl_concat, after]

theorem options_after (o : ReportOptions) (calls : List Call) : (after o calls).options = o := by
  induction calls using List.reverseRecOn with
  | nil => rfl
  | append_singleton calls c ih =>
      rw [after_concat]
      cases c <;> exact ih

/-- The tallies of a report tell the violations since the last reset. -/
theorem tallies_after (o : ReportOptions) (calls : List Call) :
    (after o calls).tallies = Tally.table Code.all (Call.merged calls) := by
  induction calls using List.reverseRecOn with
  | nil => rfl
  | append_singleton calls c ih =>
      rw [after_concat]
      cases c with
      | resetCounts =>
          rw [Call.merged_concat_of_reset rfl, Tally.table_nil]
          rfl
      | addFile path file | addCase path file expected lineOffset =>
          rw [Call.merged_concat rfl, ← Tally.addAll_table, ← ih]
          rfl

/-! ## What is printed -/

/-- No violation in front of this one has its code. -/
def IsEarliest (before : List Violation) (v : Violation) : Prop := ∀ u ∈ before, u.code ≠ v.code

instance (before : List Violation) (v : Violation) : Decidable (IsEarliest before v) :=
  inferInstanceAs (Decidable (∀ u ∈ before, u.code ≠ v.code))

/-- The lines that announce the changes made for the violation with this index. -/
def noticeLines (fixes : List FixNotice) (index : Nat) : List String :=
  (fixes.filter (·.violation = index)).flatMap FixNotice.lines

theorem not_has_table {before : List Violation} {v : Violation} :
    (!Tally.has (Tally.table Code.all before) v.code.text) = decide (IsEarliest before v) := by
  have seen := Tally.has_table before v.code
  rw [Bool.eq_iff_iff, Bool.not_eq_true', Bool.eq_false_iff, ne_eq, seen, decide_eq_true_eq]
  simp [IsEarliest]

/-- Each violation is shown if every occurrence is asked for or it is the first of its code, and
    with it the changes that were made for it. -/
theorem linesFrom_eq (loud : o.quiet = 0) (path : String) (fixes : List FixNotice)
    (seen : List Violation) {all : List Violation} (done rest : List Violation)
    (whole : all = done ++ rest) :
    linesFrom o path fixes [] 0 (Tally.table Code.all (seen ++ done)) done.length rest =
      (rest.zipIdx done.length).flatMap fun (v, i) =>
        (if o.everyOccurrence ∨ IsEarliest (seen ++ all.take i) v then v.lines o path 0 else []) ++
          noticeLines fixes i := by
  induction rest generalizing done with
  | nil => rfl
  | cons v rest ih =>
      have counted : Tally.add v (Tally.table Code.all (seen ++ done)) =
          Tally.table Code.all (seen ++ (done ++ [v])) := by
        rw [Tally.add_table Code.pairwise_rank (Code.mem_all _), List.append_assoc]
      have first : all.take done.length = done := by rw [whole, List.take_left]
      have later := ih (done ++ [v]) (by rw [whole, List.append_assoc]; rfl)
      rw [List.length_append, List.length_singleton] at later
      rw [linesFrom, counted, later, List.zipIdx_cons, List.flatMap_cons, not_has_table]
      simp only [loud, isExpected, first, noticeLines]
      simp

/-! ## The report behind any calls -/

/-- What a report says of the violations since the last reset. -/
structure Accounts (r : Report) (vs : List Violation) : Prop where
  count (start : String) :
    r.count start = vs.countP fun v => start.toList.isPrefixOf v.code.text.toList
  sorted : r.codes.Pairwise (·.text < ·.text)
  codes (c : Code) : c ∈ r.codes ↔ 0 < vs.countP (·.code = c)
  statistics (start : String) : r.statistics start =
    (r.codes.filter fun c => start.toList.isPrefixOf c.text.toList).map fun c =>
      let message := (vs.find? (·.code = c)).elim "" Violation.message
      s!"{leftAligned (toString (vs.countP (·.code = c)))} {c.text} {message}"
  unexpected (path : String) (file : FileReport) (expected : List String) (lineOffset : Nat) :
    (r.addCase path file expected lineOffset).2.1 =
      file.violations.countP fun v => v.code.text ∉ expected

theorem accounts_of_tallies {r : Report} {vs : List Violation}
    (tallies : r.tallies = Tally.table Code.all vs) : r.Accounts vs := by
  have codes : r.codes = Code.all.filter (· ∈ vs.map Violation.code) := by
    rw [Report.codes, tallies, Tally.table, List.map_map]
    exact List.map_id _
  refine ⟨fun start => ?_, ?_, fun c => ?_, fun start => ?_, ?_⟩
  · have counted := Tally.total_addAll start vs []
    have whole := Tally.addAll_table [] vs
    rw [Tally.table_nil, List.nil_append] at whole
    rw [Report.count, tallies, ← whole, counted]
    simp [Tally.total, Tally.startingWith]
  · rw [codes]
    exact Code.pairwise_text.sublist List.filter_sublist
  · simp [codes, Code.mem_all, List.countP_pos_iff]
  · rw [Report.statistics, codes, tallies, Tally.table, Tally.startingWith, List.filter_map,
      List.map_map]
    rfl
  · intro path file expected lineOffset
    rw [addCase, List.countP_eq_length_filter]
    simp [isExpected]

end StyleGuide.Report
