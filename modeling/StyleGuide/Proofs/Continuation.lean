import Mathlib.Data.List.DropRight
import StyleGuide.Proofs.Checker.SameTokens
import StyleGuide.Proofs.Statements
import StyleGuide.Proofs.TokenStream.Extension

/-! # What follows in a source

A source that goes on behind a newline keeps its tokens, but for the marks at its end, and what has
been found in it, but for a blank row at its end.
-/

namespace StyleGuide

/-- Marks at the end of a source: those that close its blocks, and the last token. -/
def Token.isEndMark (t : Token) : Bool := t.kind == .dedent || t.kind == .endMarker

/-- A violation that does not depend on what follows. -/
def Violation.isLasting (v : Violation) : Bool := v.code != .w391

/-- Only the rule for the last row sees how many rows there are. -/
theorem RowRule.check_congr_total {rule : RowRule} (h : rule ≠ .trailingBlankLine)
    (ctx : RowContext) (n : Nat) : rule.check { ctx with total := n } = rule.check ctx := by
  cases rule with
  | trailingBlankLine => exact absurd rfl h
  | lineLength | missingNewline | tabIndentation | mixedIndentation | trailingWhitespace => rfl

theorem ScanState.isEndMark_of_mem_endMarks {s : ScanState} {a : Text} {t : Token}
    (ended : a = [] ∨ a.getLast? = some '\n') (h : t ∈ s.endMarks (Text.rows a)) :
    t.isEndMark := by
  have last : lacksNewline ((Text.rows a).getLast?.getD []) = false := by
    cases hl : (Text.rows a).getLast? with
    | none => rfl
    | some line =>
        have := Text.getLast?_of_mem_rows ended line (List.mem_of_getLast? hl)
        simp [lacksNewline, this]
  simp only [endMarks, last, List.mem_append, List.mem_map, List.mem_singleton] at h
  obtain (h | ⟨w, -, rfl⟩) | rfl := h
  · cases h
  · rfl
  · rfl

namespace Pass

variable {p : Pass} {s : CheckState} {ts : List Token} {k m : Nat}

theorem rowsFound_eq_nil (h : p.rows.size ≤ k) : p.rowsFound k m = [] := by
  have none : min m p.rows.size - k = 0 := by omega
  rw [rowsFound, none]
  rfl

theorem statementFound_eq_nil (bare : ∀ t ∈ s.run.toList, t.isContent = false) :
    p.statementFound s = [] := by
  have none : s.run.toList.filter Token.isContent = [] :=
    List.filter_eq_nil_iff.mpr fun t ht => by simp [bare t ht]
  rw [statementFound, LogicalLine.ofTokens?, none]

/-- Behind the last row tokens without content find nothing. -/
theorem foundFrom_eq_nil (checked : p.rows.size ≤ s.fixedRows.size)
    (bare : ∀ t ∈ s.run.toList ++ ts, t.isContent = false) : p.foundFrom s ts = [] := by
  induction ts generalizing s with
  | nil => rfl
  | cons t ts ih =>
      have run : ∀ u ∈ (p.receive s t).run.toList, u.isContent = false := by
        intro u hu
        refine bare u ?_
        simp only [run_receive, Array.toList_push, List.mem_append, List.mem_singleton] at hu
        rcases hu with hu | rfl <;> simp [*]
      have rest : p.foundFrom (p.step s t) ts = [] := by
        refine ih ?_ fun u hu => ?_
        · rw [size_step]
          omega
        · rcases List.mem_append.mp hu with hu | hu
          · rcases run_step (p := p) (s := s) (t := t) with h | h
            · simp [h] at hu
            · exact run u (by rw [run_receive, ← h]; exact hu)
          · exact bare u (by simp [hu])
      rw [foundFrom, rest, foundIn, rowsFound_eq_nil checked, statementFound_eq_nil run]
      split <;> rfl

theorem size_foldl_step_le (s : CheckState) (ts : List Token) :
    s.fixedRows.size ≤ (ts.foldl p.step s).fixedRows.size := by
  induction ts generalizing s with
  | nil => exact Nat.le_refl _
  | cons t ts ih =>
      refine Nat.le_trans ?_ (ih _)
      rw [size_step]
      exact Nat.le_max_left ..

/-- A pass that has checked all rows and has no statement open has found what there is. -/
theorem allFound_eq_found {marks : List Token} (checked : p.rows.size ≤ (p.after ts).fixedRows.size)
    (bare : ∀ t ∈ (p.after ts).run.toList ++ marks, t.isContent = false) :
    p.allFound (ts ++ marks) = p.found ts := by
  have size : p.rows.size ≤ (p.after (ts ++ marks)).fixedRows.size := by
    rw [after, List.foldl_append]
    exact Nat.le_trans checked (size_foldl_step_le _ marks)
  rw [allFound, found_append, foundFrom_eq_nil checked bare, rowsFound_eq_nil size,
    List.append_nil, List.append_nil]

end Pass

section

variable {a b : Text} {tokens tokens' : List Token}

/-- The tokens of a source up to its end, which a longer source has as well. -/
structure Continues (a b : Text) (tokens tokens' : List Token) (ts : List Token) : Prop where
  marks : ∃ marks, tokens = ts ++ marks ∧ ∀ t ∈ marks, t.isEndMark
  more : ts <+: tokens'
  within : Pass.Within (Text.rows a).length ts
  reached : a ≠ [] → ∃ t ∈ ts, t.stop.row = (Text.rows a).length
  current : (Runs.of ts).current = []

/-- Reading a source goes on where reading its first part has stopped. -/
theorem exists_continues (ended : a = [] ∨ a.getLast? = some '\n')
    (read : tokenize a = .ok tokens) (read' : tokenize (a ++ b) = .ok tokens') :
    ∃ ts, Continues a b tokens tokens' ts := by
  obtain ⟨s, fold, finished⟩ := ScanState.exists_of_bind_eq_ok read
  obtain ⟨s', fold', finished'⟩ := ScanState.exists_of_bind_eq_ok read'
  obtain ⟨plain, zero, rfl⟩ := ScanState.finish_eq_ok finished
  obtain ⟨-, -, rfl⟩ := ScanState.finish_eq_ok finished'
  rw [Text.rows_append_of_getLast? ended, List.foldlM_append, fold] at fold'
  have later := ScanState.tokens_prefix_of_feedsAll (ScanState.feedsAll_of_foldlM fold')
  have whole : Text.rows a = [] ++ (Text.rows a ++ []) := by simp
  obtain ⟨settled, row⟩ := ScanState.isSettled_of_feedsAll (ScanState.feedsAll_of_foldlM fold)
    (Text.getLast?_of_mem_rows ended) whole rfl (ScanState.isSettled_initial _)
  rw [List.length_nil, Nat.zero_add] at row
  refine ⟨s.tokens.toList, ⟨_, rfl, fun t ht => ScanState.isEndMark_of_mem_endMarks ended ht⟩,
    later.trans (List.prefix_append _ _), fun t ht => ?_, fun ne => ?_,
    (settled.ready plain zero).current⟩
  · have := settled.read.tokens t ht
    omega
  · have pos : 0 < (Text.rows a).length := by
      refine List.length_pos_iff.mpr fun none => ne ?_
      rw [← Text.flatten_rows a, none]
      rfl
    have := settled.reached (by omega) plain zero
    rwa [row] at this

/-- The passes over a source and over a longer one see the same rows as far as the first goes. -/
theorem shares_append (ended : a = [] ∨ a.getLast? = some '\n') (c : Checker)
    (reads : c.config.fix = false) :
    Pass.Shares (c.pass a) (c.pass (a ++ b)) (Text.rows a).length where
  reads := reads
  reads' := reads
  tabSize := rfl
  row i le := by
    simp only [Checker.pass, Rows.row, Rows.ofSource, Text.rows_append_of_getLast? ended]
    split
    · rfl
    · rw [List.getElem?_toArray, List.getElem?_toArray, List.getElem?_append_left (by omega)]
  size := by
    simp [Checker.pass, Rows.ofSource, Text.rows_append_of_getLast? ended]

/-- In a row that is followed by more, the rules find what they find without it, but for a blank row
    at the end. -/
theorem rowViolations_append (ended : a = [] ∨ a.getLast? = some '\n') (c : Checker)
    (reads : c.config.fix = false) {i : Nat} (le : i ≤ (Text.rows a).length) :
    ((c.pass a).rowViolations i).filter Violation.isLasting =
      ((c.pass (a ++ b)).rowViolations i).filter Violation.isLasting := by
  have shares := shares_append (b := b) ended c reads
  have char : (c.pass a).rows.indentChar i = (c.pass (a ++ b)).rows.indentChar i :=
    Rows.indentChar_congr fun j hj => shares.row j (Nat.le_trans hj le)
  have ctx : (c.pass (a ++ b)).rowContext i =
      { (c.pass a).rowContext i with total := (c.pass (a ++ b)).rows.size } := by
    simp only [Pass.rowContext, shares.row i le, char]
    rfl
  rw [Pass.rowViolations, Pass.rowViolations, List.filter_filterMap, List.filter_filterMap]
  refine List.filterMap_congr fun rule _ => ?_
  simp only [Pass.rowViolation?, ctx, shares.row i le, shares.shown_eq le]
  by_cases last : rule = .trailingBlankLine
  · -- what this rule finds is left out on both sides
    have gone {ctx : RowContext} {v : Finding → Violation} (hv : ∀ f, (v f).code = f.code) :
        ((rule.check ctx).map v).filter Violation.isLasting = none := by
      cases found : rule.check ctx with
      | none => rfl
      | some f =>
          have code := (RowRule.points_of_check found).code
          rw [last, RowRule.codes, List.mem_singleton] at code
          have shown : (v f).isLasting = false := by
            rw [Violation.isLasting, hv, code]
            rfl
          simp [shown]
    rw [gone fun _ => rfl, gone fun _ => rfl]
  · rw [RowRule.check_congr_total last ((c.pass a).rowContext i) (c.pass (a ++ b)).rows.size]

/-- What is found in a source is found in every longer one, but for a blank row at the end. -/
theorem found_prefix {ts : List Token} (ended : a = [] ∨ a.getLast? = some '\n')
    (h : Continues a b tokens tokens' ts) (c : Checker) (reads : c.config.fix = false) :
    ((c.pass a).allFound tokens).filter Violation.isLasting <+:
      ((c.pass (a ++ b)).allFound tokens').filter Violation.isLasting := by
  have shares := shares_append (b := b) ended c reads
  have same : ((c.pass a).found ts).filter Violation.isLasting =
      ((c.pass (a ++ b)).found ts).filter Violation.isLasting := by
    have rowRules : ∀ i ≤ (Text.rows a).length,
        ((c.pass a).rowViolations i).filterMap (Option.guard Violation.isLasting) =
          ((c.pass (a ++ b)).rowViolations i).filterMap (Option.guard Violation.isLasting) := by
      intro i le
      rw [List.filterMap_eq_filter]
      exact rowViolations_append ended c reads le
    obtain ⟨parallel, -⟩ := shares.parallel h.within rowRules fun _ _ => rfl
    rw [← List.filterMap_eq_filter, parallel.found]
  obtain ⟨marks, rfl, isEndMark⟩ := h.marks
  obtain ⟨more, rfl⟩ := h.more
  have all : (c.pass a).allFound (ts ++ marks) = (c.pass a).found ts := by
    refine Pass.allFound_eq_found ?_ fun t ht => ?_
    · by_cases ne : a = []
      · subst ne
        exact Nat.zero_le _
      · obtain ⟨t, ht, row⟩ := h.reached ne
        have := ((c.pass a).reaches_after ts).reached t ht
        simpa [row, Checker.pass, Rows.ofSource] using this
    · have run := ((c.pass a).agrees_after ts).1.run
      rw [run, h.current, List.nil_append] at ht
      have := isEndMark t ht
      simp only [Token.isEndMark, Bool.or_eq_true, beq_iff_eq] at this
      rcases this with kind | kind <;> simp [Token.isContent, kind, Token.Kind.isLayout]
  rw [all, same, Pass.allFound, Pass.found_append, List.append_assoc]
  exact (List.prefix_append _ _).filter _

/-- Where a source goes on behind a newline, it has the same tokens up to the marks at its end, and
    all its violations are reported again, one after the other and before any others, but for a
    blank row at its end. -/
theorem report_append (ended : a = [] ∨ a.getLast? = some '\n')
    (read : tokenize a = .ok tokens) (read' : tokenize (a ++ b) = .ok tokens') (c : Checker)
    (reads : c.config.fix = false) :
    tokens.rdropWhile Token.isEndMark <+: tokens' ∧
      ∃ r r', c.check a = .ok r ∧ c.check (a ++ b) = .ok r' ∧
        r.violations.filter Violation.isLasting <+: r'.violations.filter Violation.isLasting := by
  obtain ⟨ts, continues⟩ := exists_continues ended read read'
  refine ⟨?_, _, _, c.check_of_tokenize read, c.check_of_tokenize read', ?_⟩
  · obtain ⟨marks, rfl, isEndMark⟩ := continues.marks
    have dropped : (ts ++ marks).rdropWhile Token.isEndMark = ts.rdropWhile Token.isEndMark := by
      rw [List.rdropWhile, List.reverse_append,
        List.dropWhile_append_of_pos (by simpa using isEndMark), List.rdropWhile]
    rw [dropped]
    exact (List.rdropWhile_prefix _ _).trans continues.more
  · obtain ⟨violations, -⟩ := (c.pass a).report_of_reading reads tokens
    obtain ⟨violations', -⟩ := (c.pass (a ++ b)).report_of_reading reads tokens'
    have found := found_prefix ended continues c reads
    have shown := found.filter fun v => !(c.pass a).suppresses v.code
    have same : (c.pass (a ++ b)).suppresses = (c.pass a).suppresses := rfl
    rw [violations, violations', same, List.filter_filter, List.filter_filter]
    rw [List.filter_filter, List.filter_filter] at shown
    simpa only [Bool.and_comm] using shown

end

/-- A block that goes on behind a blank row, with a last row that has no end. -/
theorem report_append_of_blank :
    let a := "if x:\n\ty = 1  \n\n".toList
    let b := "  # c\n\tz=2".toList
    let c : Checker := ⟨⟨RowRule.all, StatementRule.all⟩, { fix := false }⟩
    a.getLast? = some '\n' ∧ c.config.fix = false ∧
      ∃ tokens tokens', tokenize a = .ok tokens ∧ tokenize (a ++ b) = .ok tokens' ∧
        tokens.rdropWhile Token.isEndMark <+: tokens' ∧
        ∃ r r', c.check a = .ok r ∧ c.check (a ++ b) = .ok r' ∧
          r.violations.map Violation.code = [.w191, .w291, .w391] ∧
          r'.violations.map Violation.code = [.w191, .w291, .e101, .w292, .w191, .e225] ∧
          r.violations.filter Violation.isLasting <+:
            r'.violations.filter Violation.isLasting := by
  intro a b c
  obtain ⟨tokens, read⟩ : ∃ tokens, (tokenize a).toOption = some tokens :=
    Option.isSome_iff_exists.mp (by decide +kernel)
  obtain ⟨tokens', read'⟩ : ∃ tokens, (tokenize (a ++ b)).toOption = some tokens :=
    Option.isSome_iff_exists.mp (by decide +kernel)
  have codes : (c.check a).toOption.map (fun r => r.violations.map Violation.code) =
      some [.w191, .w291, .w391] := by
    decide +kernel
  have codes' : (c.check (a ++ b)).toOption.map (fun r => r.violations.map Violation.code) =
      some [.w191, .w291, .e101, .w292, .w191, .e225] := by
    decide +kernel
  have read := eq_ok_of_toOption read
  have read' := eq_ok_of_toOption read'
  obtain ⟨kept, r, r', check, check', shown⟩ := report_append (.inr rfl) read read' c rfl
  rw [check] at codes
  rw [check'] at codes'
  exact ⟨rfl, rfl, tokens, tokens', read, read', kept, r, r', check, check', Option.some.inj codes,
    Option.some.inj codes', shown⟩

end StyleGuide
