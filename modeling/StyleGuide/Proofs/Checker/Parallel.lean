import StyleGuide.Proofs.Checker.Reading

/-! # Two passes side by side

Two passes that mend nothing take in tokens that go in pairs. They stay in step as long as the
tokens of a pair count alike and the statements that they end have the same outline: all that a
pass remembers of the tokens behind it, but for the rows, it remembers in the same way.
-/

namespace StyleGuide

/-- Two tokens that play the same part in the layout of their sources. -/
structure Token.CountsAs (t u : Token) : Prop where
  kind : t.kind = u.kind
  operator : t.kind = .operator → t.text = u.text
  beginsRow : t.beginsRow = u.beginsRow

namespace Token.CountsAs

variable {t u : Token}

theorem refl (t : Token) : t.CountsAs t := ⟨rfl, fun _ => rfl, rfl⟩

theorem isOperator_eq (h : t.CountsAs u) (text : String) :
    t.isOperator text = u.isOperator text := by
  by_cases kind : t.kind = .operator
  · rw [isOperator, isOperator, ← h.kind, h.operator kind]
  · have kind' : u.kind ≠ .operator := h.kind ▸ kind
    rw [isOperator, isOperator, beq_false_of_ne kind, beq_false_of_ne kind', Bool.false_and,
      Bool.false_and]

theorem depthBehind_eq (h : t.CountsAs u) (d : Nat) : t.depthBehind d = u.depthBehind d := by
  have opens : t.opensBracket = u.opensBracket := by simp only [opensBracket, h.isOperator_eq]
  have closes : t.closesBracket = u.closesBracket := by
    simp only [closesBracket, h.isOperator_eq]
  rw [depthBehind, depthBehind, opens, closes]

theorem endsRun_eq (h : t.CountsAs u) (d : Nat) : t.endsRun d = u.endsRun d := by
  rw [endsRun, endsRun, h.kind]

theorem endsStatement_eq (h : t.CountsAs u) (d : Nat) :
    t.endsStatement d = u.endsStatement d := by
  rw [endsStatement, endsStatement, h.kind]

end Token.CountsAs

namespace Pass

/-- What later statements see of the statement that tokens hold: its logical line and its
    indentation. -/
def outline (p : Pass) (run : List Token) : Option (Text × Nat) :=
  (LogicalLine.ofTokens? p.rows run).map fun line => (line.text, p.indentOf line)

/-- Two passes have taken in tokens that go in pairs and remember the same of them. -/
structure InStep (R : Token → Token → Prop) (s t : CheckState) : Prop where
  indentLevel : s.indentLevel = t.indentLevel
  previous : s.previous = t.previous
  blankLines : s.blankLines = t.blankLines
  blankLinesBeforeComment : s.blankLinesBeforeComment = t.blankLinesBeforeComment
  depth : s.depth = t.depth
  run : List.Forall₂ R s.run.toList t.run.toList

namespace InStep

variable {R : Token → Token → Prop} {p q : Pass} {s t : CheckState} {a b : Token}

theorem initial : InStep R .initial .initial := ⟨rfl, rfl, rfl, rfl, rfl, .nil⟩

theorem run_eq (h : InStep Eq s t) : s.run.toList = t.run.toList := by
  rw [← List.forall₂_eq_eq_eq]
  exact h.run

theorem checkRowsThrough (h : InStep R s t) (n m : Nat) :
    InStep R (p.checkRowsThrough n s) (q.checkRowsThrough m t) := by
  rw [checkRowsThrough_eq, q.checkRowsThrough_eq]
  exact ⟨h.indentLevel, h.previous, h.blankLines, h.blankLinesBeforeComment, h.depth, h.run⟩

theorem receive (h : InStep R s t) (pair : R a b) :
    InStep R (p.receive s a) (q.receive t b) := by
  obtain ⟨level, previous, blank, before, depth, run⟩ :=
    h.checkRowsThrough (p := p) (q := q) a.stop.row b.stop.row
  refine ⟨level, previous, blank, before, depth, ?_⟩
  simp only [Pass.receive, Array.toList_push]
  exact List.rel_append run (.cons pair .nil)

theorem flushComment (h : InStep R s t) : InStep R (p.flushComment s) (q.flushComment t) := by
  cases hs : s.pending <;> cases ht : t.pending <;> simp only [Pass.flushComment, hs, ht] <;> exact
    ⟨h.indentLevel, h.previous, h.blankLines, h.blankLinesBeforeComment, h.depth, h.run⟩

theorem noteComment (h : InStep R s t) (kind : a.kind = .comment) (counts : a.CountsAs b)
    (isFirst isFirst' : Bool) :
    InStep R (noteComment a isFirst s) (noteComment b isFirst' t) := by
  have begins : Text.isAllBlank (Text.takeBytes a.start.column a.line) =
      Text.isAllBlank (Text.takeBytes b.start.column b.line) := by
    simpa [Token.beginsRow, ← counts.kind, kind] using counts.beginsRow
  simp only [Pass.noteComment, begins]
  split
  · exact ⟨h.indentLevel, h.previous, rfl, by rw [h.blankLinesBeforeComment, h.blankLines],
      h.depth, h.run⟩
  · exact ⟨h.indentLevel, h.previous, h.blankLines, h.blankLinesBeforeComment, h.depth, h.run⟩

theorem checkStatement (h : InStep R s t) (reads : p.config.fix = false)
    (reads' : q.config.fix = false) (same : p.outline s.run.toList = q.outline t.run.toList) :
    InStep R (p.checkStatement s) (q.checkStatement t) := by
  simp only [outline] at same
  cases hs : LogicalLine.ofTokens? p.rows s.run.toList with
  | none =>
      cases ht : LogicalLine.ofTokens? q.rows t.run.toList with
      | none => rwa [checkStatement_of_none hs, checkStatement_of_none ht]
      | some line => simp [hs, ht] at same
  | some line =>
      cases ht : LogicalLine.ofTokens? q.rows t.run.toList with
      | none => simp [hs, ht] at same
      | some line' =>
          rw [hs, ht, Option.map_some, Option.map_some] at same
          obtain ⟨text, level⟩ := Prod.mk.inj (Option.some.inj same)
          rw [checkStatement_of_reading reads hs, checkStatement_of_reading reads' ht]
          exact ⟨level, text, h.blankLines, h.blankLinesBeforeComment, h.depth, h.run⟩

/-- Two passes stay in step over a pair of tokens that count alike. -/
theorem step (h : InStep R s t) (reads : p.config.fix = false) (reads' : q.config.fix = false)
    (pair : R a b) (counts : a.CountsAs b)
    (same : a.endsStatement s.depth →
      p.outline (s.run.toList ++ [a]) = q.outline (t.run.toList ++ [b])) :
    InStep R (p.step s a) (q.step t b) := by
  have received := h.receive (p := p) (q := q) pair
  have size : s.run.size = t.run.size := by simpa using h.run.length_eq
  rcases a.endsRun_cases s.depth with ⟨goes, -⟩ | ⟨-, -, kind, closed⟩ | ⟨-, ends, kinds⟩
  · have goes' : b.endsRun t.depth = false := by rw [← h.depth, ← counts.endsRun_eq, goes]
    rw [step_of_not_endsRun goes, step_of_not_endsRun goes', ← counts.kind, ← counts.depthBehind_eq,
      ← h.depth]
    split
    · next kind => exact received.noteComment kind counts _ _
    · exact ⟨received.indentLevel, received.previous, received.blankLines,
        received.blankLinesBeforeComment, rfl, received.run⟩
  · rw [step_rowBreak kind closed, step_rowBreak (counts.kind ▸ kind) (h.depth ▸ closed), ← size,
      ← h.blankLines]
    have flushed := received.flushComment (p := p) (q := q)
    exact ⟨flushed.indentLevel, flushed.previous, rfl, flushed.blankLinesBeforeComment,
      flushed.depth, .nil⟩
  · have checked := received.checkStatement (p := p) (q := q) reads reads'
      (by simpa using same ends)
    rcases kinds with ⟨kind, closed⟩ | kind
    · rw [step_newline kind closed, step_newline (counts.kind ▸ kind) (h.depth ▸ closed)]
      exact ⟨checked.indentLevel, checked.previous, rfl, rfl, checked.depth, .nil⟩
    · rw [step_endMarker kind, step_endMarker (counts.kind ▸ kind)]
      exact ⟨checked.indentLevel, checked.previous, checked.blankLines,
        checked.blankLinesBeforeComment, checked.depth, .nil⟩

end InStep

/-- Behind these tokens two passes are in step and have found the same, as far as a view of the
    violations shows. -/
structure Parallel {α : Type} (R : Token → Token → Prop) (view : Violation → Option α) (p q : Pass)
    (ts us : List Token) : Prop where
  inStep : InStep R (p.after ts) (q.after us)
  found : (p.found ts).filterMap view = (q.found us).filterMap view

namespace Parallel

variable {α : Type} {R : Token → Token → Prop} {view : Violation → Option α} {p q : Pass}
  {ts us : List Token} {t u : Token}

theorem nil : Parallel R view p q [] [] := ⟨.initial, rfl⟩

theorem concat (h : Parallel R view p q ts us) (reads : p.config.fix = false)
    (reads' : q.config.fix = false) (pair : R t u) (counts : t.CountsAs u)
    (rows : (p.rowsFound (p.after ts).fixedRows.size t.stop.row).filterMap view =
      (q.rowsFound (q.after us).fixedRows.size u.stop.row).filterMap view)
    (same : t.endsStatement (p.after ts).depth → InStep R (p.reach ts t) (q.reach us u) →
      p.outline (p.reach ts t).run.toList = q.outline (q.reach us u).run.toList ∧
        (p.statementFound (p.reach ts t)).filterMap view =
          (q.statementFound (q.reach us u)).filterMap view) :
    Parallel R view p q (ts ++ [t]) (us ++ [u]) := by
  have ends : t.endsStatement (p.after ts).depth = u.endsStatement (q.after us).depth := by
    rw [counts.endsStatement_eq, h.inStep.depth]
  have reached := h.inStep.receive (p := p) (q := q) pair
  constructor
  · rw [after, after, List.foldl_append, List.foldl_append]
    refine h.inStep.step reads reads' pair counts fun ended => ?_
    simpa [reach] using (same ended reached).1
  · rw [found_concat, found_concat, List.filterMap_append, List.filterMap_append, h.found, foundIn,
      foundIn, List.filterMap_append, List.filterMap_append, rows, ends]
    congr 2
    by_cases ended : t.endsStatement (p.after ts).depth
    · rw [if_pos (ends ▸ ended), if_pos (ends ▸ ended)]
      exact (same ended reached).2
    · rw [if_neg (ends ▸ ended), if_neg (ends ▸ ended)]

end Parallel

end Pass

end StyleGuide
