import StyleGuide.Proofs.Checker.Run
import StyleGuide.Proofs.Text.Trim

/-! # The mended rows

What the rules make of a row depends on the rows in front of it alone, not on what has been found.
They change nothing but the white space at its ends.
-/

namespace StyleGuide

section Rules

variable {ctx : RowContext} {rule : RowRule} {finding : Finding} {description : String} {new : Text}

theorem trim_untabify (row : Text) : Text.trim (untabify row) = Text.trim row := by
  have whole : indentation row ++ row.drop (indentation row).length = row :=
    List.prefix_iff_eq_append.mp (List.takeWhile_prefix _)
  have blank : ∀ c ∈ indentation row, Text.isBlank c := by
    intro c hc
    have : c = ' ' ∨ c = '\t' := by simpa using List.mem_takeWhile_imp hc
    rcases this with rfl | rfl <;> decide
  apply Text.trim_congr_trimStart
  conv_rhs => rw [← whole, Text.trimStart_append blank]
  refine Text.trimStart_append (fun c hc => ?_) _
  obtain ⟨d, hd, hc⟩ := List.mem_flatMap.mp hc
  split at hc
  · rw [List.eq_of_mem_replicate (n := 4) (a := ' ') hc]
    decide
  · rw [List.mem_singleton.mp hc]
    exact blank d hd

theorem TrailingWhitespace.trim_strip (row : Text) : Text.trim (strip row) = Text.trim row := by
  apply Text.trim_congr_trimEnd
  simp only [strip]
  split
  · rw [Text.trimEnd_concat (by decide), Text.trimEnd_dropEndWhile]
    intro c hc
    simp only [Bool.or_eq_true, beq_iff_eq] at hc
    obtain ((rfl | rfl) | rfl) | rfl := hc <;> decide
  · rfl

/-- The rules for rows change only white space at the ends of a row. -/
theorem RowRule.trim_of_fix (found : rule.check ctx = some finding)
    (fixed : rule.fix ctx = some ⟨description, .line new⟩) :
    Text.trim new = Text.trim ctx.row := by
  cases rule with
  | lineLength => cases fixed
  | missingNewline =>
      cases fixed
      exact Text.trim_congr_trimEnd (Text.trimEnd_concat (by decide) _)
  | tabIndentation | mixedIndentation =>
      cases fixed
      exact trim_untabify _
  | trailingBlankLine =>
      cases fixed
      simp only [check, TrailingBlankLine.check] at found
      split at found
      · next h =>
          have none : Text.trimEnd ctx.row = [] :=
            List.rdropWhile_eq_nil_iff.mpr (List.all_eq_true.mp h.2)
          exact Text.trim_congr_trimEnd none.symm
      · cases found
  | trailingWhitespace =>
      cases fixed
      exact TrailingWhitespace.trim_strip _

end Rules

namespace Pass

variable {p : Pass} {s t : CheckState}

/-- A rule leaves a row as it is or puts the fix of what it finds in its place. -/
theorem row_applyRowRule_cases (indentChar : Option Char) (number : Nat) (s : RowState)
    (rule : RowRule) :
    let ctx : RowContext := ⟨s.row, indentChar, number, p.rows.size, p.config.maxLineLength⟩
    let u := p.applyRowRule indentChar number s rule
    u.row = s.row ∨ ∃ finding description, rule.check ctx = some finding ∧
      rule.fix ctx = some ⟨description, .line u.row⟩ := by
  simp only [applyRowRule]
  split
  · exact .inl rfl
  · next finding found =>
      split
      · exact .inl rfl
      · split
        · next description new fixed =>
            split
            · exact .inl rfl
            · split at fixed
              · exact .inr ⟨finding, description, found, fixed⟩
              · cases fixed
        · exact .inl rfl

theorem trim_applyRowRule (indentChar : Option Char) (number : Nat) (s : RowState)
    (rule : RowRule) :
    Text.trim (p.applyRowRule indentChar number s rule).row = Text.trim s.row := by
  rcases row_applyRowRule_cases (p := p) indentChar number s rule with
    same | ⟨finding, description, found, fixed⟩
  · rw [same]
  · exact rule.trim_of_fix found fixed

theorem trim_foldl_applyRowRule (indentChar : Option Char) (number : Nat) (rules : List RowRule)
    (s : RowState) :
    Text.trim (rules.foldl (p.applyRowRule indentChar number) s).row = Text.trim s.row := by
  induction rules generalizing s with
  | nil => rfl
  | cons rule rules ih => rw [List.foldl_cons, ih, trim_applyRowRule]

/-- What a rule makes of a row does not depend on what has been found. -/
theorem row_applyRowRule_congr (indentChar : Option Char) (number : Nat) {s t : RowState}
    (h : s.row = t.row) (rule : RowRule) :
    (p.applyRowRule indentChar number s rule).row =
      (p.applyRowRule indentChar number t rule).row := by
  obtain ⟨row, f⟩ := s
  obtain ⟨row', g⟩ := t
  obtain rfl : row = row' := h
  simp only [applyRowRule]
  split
  · rfl
  · split
    · rfl
    · split
      · split <;> rfl
      · rfl

theorem row_foldl_applyRowRule_congr (indentChar : Option Char) (number : Nat)
    (rules : List RowRule) {s t : RowState} (h : s.row = t.row) :
    (rules.foldl (p.applyRowRule indentChar number) s).row =
      (rules.foldl (p.applyRowRule indentChar number) t).row := by
  induction rules generalizing s t with
  | nil => exact h
  | cons rule rules ih => exact ih (row_applyRowRule_congr indentChar number h rule)

/-- Two states have come to the same row in the same way. -/
structure SameRows (s t : CheckState) : Prop where
  fixedRows : s.fixedRows = t.fixedRows
  indentChar : s.indentChar = t.indentChar

theorem SameRows.checkRow (h : SameRows s t) : SameRows (p.checkRow s) (p.checkRow t) := by
  obtain ⟨rows, char⟩ := h
  constructor
  · simp only [Pass.checkRow, rows, char]
    exact congrArg _ (row_foldl_applyRowRule_congr _ _ _ rfl)
  · simp only [Pass.checkRow, rows, char]

/-- The state with the first `n` rows checked and nothing else done. -/
def checkedRows (p : Pass) (n : Nat) : CheckState :=
  (List.range n).foldl (fun s _ => p.checkRow s) .initial

/-- The rows with all changes that the rules make. -/
def mendedRows (p : Pass) : Array Text := (p.checkedRows p.rows.size).fixedRows

theorem checkedRows_succ (n : Nat) : p.checkedRows (n + 1) = p.checkRow (p.checkedRows n) := by
  rw [checkedRows, List.range_succ, List.foldl_append]
  rfl

@[simp] theorem size_checkedRows (n : Nat) : (p.checkedRows n).fixedRows.size = n := by
  induction n with
  | zero => rfl
  | succ n ih => rw [checkedRows_succ, Pass.checkRow, Array.size_push, ih]

theorem checkedRows_prefix {n m : Nat} (le : n ≤ m) :
    (p.checkedRows n).fixedRows.toList <+: (p.checkedRows m).fixedRows.toList := by
  induction le with
  | refl => exact List.prefix_rfl
  | step _ ih =>
      refine ih.trans ?_
      rw [checkedRows_succ, Pass.checkRow, Array.toList_push]
      exact List.prefix_append _ _

/-- The rules change only the white space at the ends of the rows. -/
theorem trim_checkedRows (n : Nat) : ∀ i < n,
    Text.trim ((p.checkedRows n).fixedRows[i]?.getD []) = Text.trim (p.rows.row (i + 1)) := by
  induction n with
  | zero => exact fun _ => nofun
  | succ n ih =>
      intro i lt
      rw [checkedRows_succ, Pass.checkRow, Array.getElem?_push, size_checkedRows]
      split
      · next eq =>
          subst eq
          exact trim_foldl_applyRowRule _ _ _ _
      · exact ih i (by omega)

theorem trim_mendedRows {n : Nat} (pos : 0 < n) (le : n ≤ p.rows.size) :
    Text.trim (p.mendedRows[n - 1]?.getD []) = Text.trim (p.rows.row n) := by
  have := trim_checkedRows (p := p) p.rows.size (n - 1) (by omega)
  rwa [Nat.sub_add_cancel pos] at this

/-- The rows checked so far are the first of the mended rows. -/
structure OnTrack (p : Pass) (s : CheckState) : Prop where
  same : SameRows s (p.checkedRows s.fixedRows.size)
  le : s.fixedRows.size ≤ p.rows.size

theorem OnTrack.initial : p.OnTrack .initial := ⟨⟨rfl, rfl⟩, Nat.zero_le _⟩

theorem OnTrack.of_same (h : p.OnTrack s) (same : SameRows t s) : p.OnTrack t := by
  obtain ⟨⟨rows, char⟩, le⟩ := h
  obtain ⟨rows', char'⟩ := same
  exact ⟨⟨by rw [rows']; exact rows, by rw [rows']; exact char'.trans char⟩, by rw [rows']; exact le⟩

theorem OnTrack.prefix (h : p.OnTrack s) : s.fixedRows.toList <+: p.mendedRows.toList := by
  rw [h.same.fixedRows]
  exact checkedRows_prefix h.le

@[simp] theorem size_mendedRows : p.mendedRows.size = p.rows.size := size_checkedRows _

/-- As far as the rows have been checked, they are the mended rows. -/
theorem OnTrack.take_eq (h : p.OnTrack s) {n : Nat} (le : min n p.rows.size ≤ s.fixedRows.size) :
    s.fixedRows.toList.take n = p.mendedRows.toList.take n := by
  obtain ⟨more, eq⟩ := h.prefix
  have size : (s.fixedRows.toList ++ more).length = p.rows.size := by
    rw [eq, Array.length_toList, size_mendedRows]
  rw [List.length_append, Array.length_toList] at size
  rw [← eq]
  by_cases le' : n ≤ s.fixedRows.size
  · rw [List.take_append_of_le_length (by simpa using le')]
  · have none : more = [] := List.eq_nil_of_length_eq_zero (by omega)
    rw [none, List.append_nil]

theorem OnTrack.checkRow (h : p.OnTrack s) (lt : s.fixedRows.size < p.rows.size) :
    p.OnTrack (p.checkRow s) := by
  have size : (p.checkRow s).fixedRows.size = s.fixedRows.size + 1 := by
    rw [Pass.checkRow, Array.size_push]
  refine ⟨?_, by omega⟩
  rw [size, checkedRows_succ]
  exact h.same.checkRow

/-- Checking the rows up to a number goes on with those that have not been checked. -/
theorem OnTrack.checkRowsThrough (h : p.OnTrack s) (n : Nat) :
    p.OnTrack (p.checkRowsThrough n s) ∧
      min n p.rows.size ≤ (p.checkRowsThrough n s).fixedRows.size ∧
      s.fixedRows.size ≤ (p.checkRowsThrough n s).fixedRows.size := by
  have row (u : CheckState) (_ : s.fixedRows.size ≤ u.fixedRows.size)
      (lt : u.fixedRows.size < min n p.rows.size) (track : p.OnTrack u) :
      p.OnTrack (p.checkRow u) := track.checkRow (by omega)
  obtain ⟨track, size⟩ := checkRowsThrough_induction n h row
  exact ⟨track, by omega, by omega⟩

end Pass

end StyleGuide
