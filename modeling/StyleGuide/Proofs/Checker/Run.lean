import Mathlib.Data.List.Induction
import StyleGuide.Checker

/-! # Checked rows and the tokens of the current statement

The pass checks the rows in order, as far as it has to. It collects the tokens of a statement as
they come, so they are always the last of the tokens seen so far.
-/

namespace StyleGuide

namespace Pass

variable {p : Pass} {s : CheckState} {t : Token}

@[simp] theorem size_checkRow : (p.checkRow s).fixedRows.size = s.fixedRows.size + 1 :=
  Array.size_push _

/-- What the check of each row keeps, the check of the rows up to a number keeps. -/
theorem checkRowsThrough_induction {P : CheckState → Prop} (n : Nat) (start : P s)
    (row : ∀ u, s.fixedRows.size ≤ u.fixedRows.size → u.fixedRows.size < min n p.rows.size →
      P u → P (p.checkRow u)) :
    P (p.checkRowsThrough n s) ∧
      (p.checkRowsThrough n s).fixedRows.size = max s.fixedRows.size (min n p.rows.size) := by
  have fold (k : Nat) (le : k ≤ min n p.rows.size - s.fixedRows.size) :
      let u := (List.range k).foldl (fun s _ => p.checkRow s) s
      P u ∧ u.fixedRows.size = s.fixedRows.size + k := by
    induction k with
    | zero => exact ⟨start, rfl⟩
    | succ k ih =>
        obtain ⟨kept, size⟩ := ih (by omega)
        simp only [List.range_succ, List.foldl_append, List.foldl_cons, List.foldl_nil]
        refine ⟨row _ (by omega) (by omega) kept, ?_⟩
        rw [size_checkRow, size, Nat.add_assoc]
  obtain ⟨kept, size⟩ := fold _ (Nat.le_refl _)
  rw [checkRowsThrough]
  exact ⟨kept, by omega⟩

theorem size_checkRowsThrough (n : Nat) (s : CheckState) :
    (p.checkRowsThrough n s).fixedRows.size = max s.fixedRows.size (min n p.rows.size) :=
  (checkRowsThrough_induction (P := fun _ => True) n trivial fun _ _ _ _ => trivial).2

@[simp] theorem run_checkRow : (p.checkRow s).run = s.run := rfl

@[simp] theorem run_checkRowsThrough (row : Nat) : (p.checkRowsThrough row s).run = s.run := by
  apply (checkRowsThrough_induction (P := fun u => u.run = s.run) row rfl _).1
  intro u _ _ same
  exact run_checkRow.trans same

@[simp] theorem run_receive : (p.receive s t).run = s.run.push t := by simp [receive]

@[simp] theorem run_noteComment (isFirst : Bool) : (noteComment t isFirst s).run = s.run := by
  simp only [noteComment]
  split <;> rfl

/-- A token joins the run, or the run begins anew behind it. -/
theorem run_step : (p.step s t).run = #[] ∨ (p.step s t).run = s.run.push t := by
  simp only [step]
  split
  · split
    · exact .inr run_receive
    · split <;> exact .inr run_receive
  · split
    · exact .inl rfl
    · exact .inr run_receive
  · split
    · exact .inl rfl
    · exact .inr run_receive
  · exact .inr (by simp)
  · exact .inl rfl
  · exact .inr run_receive

/-- The run is the last part of the tokens seen. -/
theorem run_after_suffix (tokens : List Token) : (p.after tokens).run.toList <:+ tokens := by
  induction tokens using List.reverseRecOn with
  | nil => exact List.suffix_rfl
  | append_singleton tokens t ih =>
      rw [after, List.foldl_append, ← after]
      rcases run_step (p := p) (s := p.after tokens) (t := t) with h | h
      · simp [h]
      · simp only [List.foldl_cons, List.foldl_nil, h, Array.toList_push]
        obtain ⟨before, whole⟩ := ih
        exact ⟨before, by rw [← List.append_assoc, whole]⟩

/-- The state in which the pass looks at the token behind those seen. -/
def reach (p : Pass) (seen : List Token) (t : Token) : CheckState := p.receive (p.after seen) t

theorem run_reach_infix (p : Pass) (seen ahead : List Token) (t : Token) :
    (p.reach seen t).run.toList <:+: seen ++ t :: ahead := by
  obtain ⟨before, whole⟩ := p.run_after_suffix seen
  refine ⟨before, ahead, ?_⟩
  simp only [reach, run_receive, Array.toList_push]
  conv_rhs => rw [← whole]
  simp

end Pass

/-- A source that has tokens has a report. -/
theorem Checker.check_of_tokenize (c : Checker) {source : Text} {tokens : List Token}
    (read : tokenize source = .ok tokens) :
    c.check source = .ok ((c.pass source).report ((c.pass source).after tokens)) := by
  simp only [check, read]
  rfl

/-- A source that has a report has tokens. -/
theorem Checker.tokenize_of_check (c : Checker) {source : Text} {report : FileReport}
    (h : c.check source = .ok report) : ∃ tokens, tokenize source = .ok tokens := by
  cases read : tokenize source with
  | error e =>
      rw [check, read] at h
      cases h
  | ok tokens => exact ⟨tokens, rfl⟩

/-- A report holds a mended source if the check mends, and only then. -/
theorem Checker.isSome_fixed {c : Checker} {source : Text} {report : FileReport}
    (h : c.check source = .ok report) : report.fixed.isSome = c.config.fix := by
  cases read : tokenize source with
  | error e =>
      rw [check, read] at h
      cases h
  | ok tokens =>
      rw [c.check_of_tokenize read] at h
      obtain rfl := Except.ok.inj h
      have same : (c.pass source).config = c.config := rfl
      cases fix : c.config.fix <;> simp [Pass.report, same, fix]

end StyleGuide
