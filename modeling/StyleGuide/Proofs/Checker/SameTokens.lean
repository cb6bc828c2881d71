import StyleGuide.Proofs.Checker.Parallel
import StyleGuide.Proofs.LogicalLine.Resolve
import StyleGuide.Proofs.Rule.Place

/-! # Two passes over the same tokens

What a pass finds in tokens depends on no rows but those up to the tokens. So two passes that see
these rows alike find the same in the same tokens, as far as their rules are the same.
-/

namespace StyleGuide

theorem Rows.indentChar_congr {rows rows' : Rows} {n : Nat}
    (h : ∀ i ≤ n, rows.row i = rows'.row i) : rows.indentChar n = rows'.indentChar n := by
  induction n with
  | zero => rfl
  | succ n ih =>
      rw [indentChar_succ, indentChar_succ, ih fun i le => h i (Nat.le_succ_of_le le),
        h (n + 1) (Nat.le_refl _)]

namespace Pass

variable {α : Type} {view : Violation → Option α} {p q : Pass} {s t : CheckState} {n : Nat}
  {ts : List Token} {line : LogicalLine}

/-! ## How far the rows have been checked -/

theorem size_step (s : CheckState) (t : Token) :
    (p.step s t).fixedRows.size = max s.fixedRows.size (min t.stop.row p.rows.size) := by
  rw [(sameRows_step s t).fixedRows]
  exact size_checkRowsThrough _ _

theorem size_after_nil (p : Pass) : (p.after []).fixedRows.size = 0 := rfl

theorem size_after_concat (ts : List Token) (t : Token) : (p.after (ts ++ [t])).fixedRows.size =
    max (p.after ts).fixedRows.size (min t.stop.row p.rows.size) := by
  rw [after, List.foldl_append]
  exact size_step _ _

theorem size_after_le (within : ∀ t ∈ ts, t.stop.row ≤ n) : (p.after ts).fixedRows.size ≤ n := by
  induction ts using List.reverseRecOn with
  | nil => exact Nat.zero_le n
  | append_singleton ts t ih =>
      have first := ih fun u hu => within u (List.mem_append_left _ hu)
      have last := within t (by simp)
      rw [size_after_concat]
      omega

/-! ## What is shared -/

/-- As far as the row with the number `n`, two passes that mend nothing see the same rows. -/
structure Shares (p q : Pass) (n : Nat) : Prop where
  reads : p.config.fix = false
  reads' : q.config.fix = false
  tabSize : p.config.tabSize = q.config.tabSize
  row : ∀ i ≤ n, p.rows.row i = q.rows.row i
  size : min n p.rows.size = min n q.rows.size

/-- Tokens on the rows up to number `n`. -/
def Within (n : Nat) (ts : List Token) : Prop := ∀ t ∈ ts, t.start.row ≤ n ∧ t.stop.row ≤ n

theorem Within.of_subset {us : List Token} (h : Within n ts) (sub : us ⊆ ts) : Within n us :=
  fun t ht => h t (sub ht)

namespace Shares

theorem sameAt (h : Shares p q n) (within : Within n ts) :
    LogicalLine.SameAt p.rows q.rows ts :=
  fun t ht => ⟨h.row _ (within t ht).1, h.row _ (within t ht).2⟩

theorem shown_eq (h : Shares p q n) {i : Nat} (le : i ≤ n) : p.rows.shown i = q.rows.shown i := by
  rw [Rows.shown, Rows.shown, h.row i le]

theorem indentOf_eq (h : Shares p q n) (within : Within n ts)
    (hl : LogicalLine.ofTokens? p.rows ts = some line) : p.indentOf line = q.indentOf line := by
  obtain ⟨first, rest, content, -⟩ := LogicalLine.exists_of_ofTokens? hl
  have mem : first ∈ ts := List.mem_of_mem_filter (p := Token.isContent) (by rw [content]; simp)
  have row : line.start.row ≤ n := by
    rw [LogicalLine.start_of_ofTokens? hl content]
    exact (within first mem).1
  rw [indentOf, indentOf, h.tabSize, h.shown_eq row]

theorem outline_eq (h : Shares p q n) (within : Within n ts) : p.outline ts = q.outline ts := by
  rw [outline, outline, ← LogicalLine.ofTokens?_congr (h.sameAt within)]
  cases hl : LogicalLine.ofTokens? p.rows ts with
  | none => rfl
  | some line => rw [Option.map_some, Option.map_some, h.indentOf_eq within hl]

/-- A rule finds the same in a statement that lies on the shared rows. -/
theorem statementViolation?_eq (h : Shares p q n) {ctx : StatementContext}
    (within : Within n ctx.tokens) (hl : LogicalLine.ofTokens? p.rows ctx.tokens = some line)
    (rule : StatementRule) :
    p.statementViolation? line ctx rule = q.statementViolation? line ctx rule := by
  rw [statementViolation?, statementViolation?]
  cases found : rule.check ctx with
  | none => rfl
  | some f =>
      have place : p.placeIn line f.place = q.placeIn line f.place ∧
          (p.placeIn line f.place).row ≤ n := by
        have points := (StatementRule.points_of_check found).2
        generalize f.place = place at points
        cases points with
        | offset whole exposed =>
            refine ⟨LogicalLine.resolve_congr hl (h.sameAt within) _, ?_⟩
            obtain ⟨t, ht, row⟩ := LogicalLine.exists_row_resolve hl _
            rw [placeIn, row]
            exact (within t ht).1
        | start mem => exact ⟨rfl, (within _ mem).1⟩
        | stop mem => exact ⟨rfl, (within _ mem).2⟩
        | comment mem => exact ⟨rfl, (within _ mem).1⟩
        | behind sub => exact ⟨rfl, (within _ (sub.subset (by simp))).2⟩
        | nowhere => exact ⟨rfl, Nat.zero_le n⟩
      simp only [Option.map_some, place.1.symm, h.shown_eq place.2]

theorem contextOf_eq (h : Shares p q n) (step : InStep Eq s t) (char : s.indentChar = t.indentChar)
    (within : Within n s.run.toList) (hl : LogicalLine.ofTokens? p.rows s.run.toList = some line) :
    p.contextOf s line = q.contextOf t line := by
  have run := step.run_eq
  have level := h.indentOf_eq within hl
  simp only [indentOf] at level
  simp only [contextOf, level, step.previous, step.indentLevel, step.blankLines,
    step.blankLinesBeforeComment, char, run]

/-- The violations that a choice of rules finds, where each has one of the codes of its rule. -/
theorem statementFound_eq (h : Shares p q n) (step : InStep Eq s t)
    (char : s.indentChar = t.indentChar) (within : Within n s.run.toList)
    (rules : ∀ g : StatementRule → Option Violation,
      (∀ rule v, g rule = some v → v.code ∈ rule.codes) →
        (p.registry.statementRules.filterMap g).filterMap view =
          (q.registry.statementRules.filterMap g).filterMap view) :
    (p.statementFound s).filterMap view = (q.statementFound t).filterMap view := by
  have run := step.run_eq
  have same := LogicalLine.ofTokens?_congr (h.sameAt within)
  rw [statementFound, statementFound, ← run, ← same]
  cases hl : LogicalLine.ofTokens? p.rows s.run.toList with
  | none => rfl
  | some line =>
      have each : p.statementViolation? line (p.contextOf s line) =
          q.statementViolation? line (q.contextOf t line) := by
        funext rule
        rw [← h.contextOf_eq step char within hl]
        have inContext : Within n (p.contextOf s line).tokens := within
        exact h.statementViolation?_eq inContext hl rule
      simp only [each]
      refine rules _ fun rule v hv => ?_
      obtain ⟨f, found, rfl⟩ := Option.map_eq_some_iff.mp hv
      exact (StatementRule.points_of_check found).1

theorem rowsFound_eq (h : Shares p q n) {m : Nat} (le : m ≤ n) (k : Nat)
    (rules : ∀ i ≤ n, (p.rowViolations i).filterMap view = (q.rowViolations i).filterMap view) :
    (p.rowsFound k m).filterMap view = (q.rowsFound k m).filterMap view := by
  have size : min m p.rows.size = min m q.rows.size := by
    have := h.size
    omega
  rw [rowsFound, rowsFound, size, List.filterMap_flatMap, List.filterMap_flatMap]
  refine List.flatMap_congr fun i hi => rules i ?_
  have := List.mem_range'_1.mp hi
  omega

/-- Two passes find the same in tokens on the rows that they share. -/
theorem parallel (h : Shares p q n) (within : Within n ts)
    (rowRules : ∀ i ≤ n, (p.rowViolations i).filterMap view = (q.rowViolations i).filterMap view)
    (rules : ∀ g : StatementRule → Option Violation,
      (∀ rule v, g rule = some v → v.code ∈ rule.codes) →
        (p.registry.statementRules.filterMap g).filterMap view =
          (q.registry.statementRules.filterMap g).filterMap view) :
    Parallel Eq view p q ts ts ∧
      (p.after ts).fixedRows.size = (q.after ts).fixedRows.size := by
  induction ts using List.reverseRecOn with
  | nil => exact ⟨.nil, by rw [size_after_nil, size_after_nil]⟩
  | append_singleton ts t ih =>
      obtain ⟨before, size⟩ := ih (within.of_subset (List.subset_append_left ..))
      have stop := (within t (by simp)).2
      have inRun : Within n (p.reach ts t).run.toList :=
        within.of_subset (p.run_reach_infix ts [] t).subset
      constructor
      · refine before.concat h.reads h.reads' rfl (.refl t) ?_ fun _ step => ⟨?_, ?_⟩
        · rw [size]
          exact h.rowsFound_eq stop _ rowRules
        · rw [← step.run_eq]
          exact h.outline_eq inRun
        · refine h.statementFound_eq step ?_ inRun rules
          have track := (p.reaches_after ts).track.checkRowsThrough t.stop.row
          have track' := (q.reaches_after ts).track.checkRowsThrough t.stop.row
          have reached : (p.reach ts t).fixedRows.size = (q.reach ts t).fixedRows.size := by
            have := h.size
            simp only [reach, receive, size_checkRowsThrough, size]
            omega
          have le : (p.reach ts t).fixedRows.size ≤ n := by
            have := size_after_le (p := p) fun u hu => (within u (List.mem_append_left _ hu)).2
            simp only [reach, receive, size_checkRowsThrough]
            omega
          have left := (track.1.of_same (t := p.reach ts t) ⟨rfl, rfl⟩).indentChar_eq
          have right := (track'.1.of_same (t := q.reach ts t) ⟨rfl, rfl⟩).indentChar_eq
          rw [left, right, ← reached]
          exact Rows.indentChar_congr fun i hi => h.row i (Nat.le_trans hi le)
      · rw [size_after_concat, size_after_concat, size]
        have := h.size
        omega

end Shares

end Pass

end StyleGuide
