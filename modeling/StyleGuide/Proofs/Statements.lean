import StyleGuide.Proofs.Checker.Step
import StyleGuide.Proofs.Ledger.Entry
import StyleGuide.Proofs.TokenStream.Depth

/-! # Every content token belongs to one statement

The pass counts brackets like the tokenizer, and so it cuts the tokens where statements end. The
runs between the cuts hold all content: what is left out are comment rows and blank rows.
-/

namespace StyleGuide

/-- Whether the last token of a run is the end of a statement or of the source. -/
def isStatement (run : List Token) : Bool :=
  run.getLast?.any fun t => t.kind == .newline || t.kind == .endMarker

/-- Whether some token of the run is part of a statement. -/
def hasContent (run : List Token) : Bool := run.any Token.isContent

namespace Pass

/-- The runs that the pass hands to `checkStatement` from a state on. -/
def handedFrom (p : Pass) (s : CheckState) : List Token → List (List Token)
  | [] => []
  | t :: more =>
    let rest := p.handedFrom (p.step s t) more
    if t.endsStatement s.depth then (p.receive s t).run.toList :: rest else rest

/-- The runs that the pass over these tokens hands to `checkStatement`. -/
def handed (p : Pass) (tokens : List Token) : List (List Token) := p.handedFrom .initial tokens

variable {p : Pass} {s : CheckState} {t : Token}

@[simp] theorem logicalLines_flushComment : (p.flushComment s).logicalLines = s.logicalLines := by
  rw [flushComment]
  split <;> rfl

@[simp] theorem logicalLines_receive : (p.receive s t).logicalLines = s.logicalLines := by
  rw [receive, checkRowsThrough_eq]

theorem isSome_ofTokens? (rows : Rows) (run : List Token) :
    (LogicalLine.ofTokens? rows run).isSome = hasContent run := by
  cases some : hasContent run with
  | true =>
      obtain ⟨t, ht, content⟩ := List.any_eq_true.mp some
      have mem := List.mem_filter.mpr ⟨ht, content⟩
      unfold LogicalLine.ofTokens?
      split
      · next none =>
          rw [none] at mem
          cases mem
      · rfl
  | false =>
      have none : ∀ t ∈ run, t.isContent = false := by
        simpa [hasContent] using some
      rw [ofTokens?_eq_none none]
      rfl

/-- A statement is counted if it has content. -/
theorem logicalLines_checkStatement : (p.checkStatement s).logicalLines =
    s.logicalLines + if hasContent s.run.toList then 1 else 0 := by
  have some := isSome_ofTokens? p.rows s.run.toList
  simp only [checkStatement]
  split
  · next none =>
      rw [none] at some
      simp [← some]
  · next line here =>
      rw [here] at some
      simp [← some]

/-- Only the end of a statement is counted. -/
theorem logicalLines_step : (p.step s t).logicalLines = s.logicalLines +
    if t.endsStatement s.depth ∧ hasContent (s.run.toList ++ [t]) then 1 else 0 := by
  rcases t.endsRun_cases s.depth with ⟨goes, other⟩ | ⟨-, other, kind, closed⟩ | ⟨-, ends, kinds⟩
  · obtain ⟨k, n, m, step⟩ := exists_step_of_not_endsRun (p := p) goes
    rw [step]
    simp [other]
  · obtain ⟨n, step⟩ := step_of_rowBreak (p := p) kind closed
    rw [step]
    simp [other]
  · obtain ⟨n, m, step⟩ := step_of_statementEnd (p := p) kinds
    rw [step]
    simp [logicalLines_checkStatement, ends]

/-- The run that a token ends is a statement exactly if the token ends one. -/
theorem filter_ended_step (r : Runs) (t : Token) : (r.step t).ended.filter isStatement =
    r.ended.filter isStatement ++
      if t.endsStatement r.depth then [r.current ++ [t]] else [] := by
  rcases t.endsRun_cases r.depth with ⟨goes, other⟩ | ⟨ends, other, kind, -⟩ | ⟨ends, here, kinds⟩
  · rw [Runs.step_of_not_endsRun goes, other]
    simp
  · have blank : isStatement (r.current ++ [t]) = false := by simp [isStatement, kind]
    rw [Runs.step_of_endsRun ends, other]
    simp [blank]
  · have statement : isStatement (r.current ++ [t]) := by
      rcases kinds with ⟨kind, -⟩ | kind <;> simp [isStatement, kind]
    rw [Runs.step_of_endsRun ends, here]
    simp [statement]

/-- The pass has the run and the bracket depth that the tokens give. -/
structure Agrees (s : CheckState) (r : Runs) : Prop where
  run : s.run.toList = r.current
  depth : s.depth = r.depth

theorem agrees_step {r : Runs} (h : Agrees s r) (t : Token) :
    Agrees (p.step s t) (r.step t) := by
  obtain ⟨run, depth⟩ := h
  constructor
  · rcases t.endsRun_cases s.depth with ⟨goes, -⟩ | ⟨ends, -, kind, closed⟩ | ⟨ends, -, kinds⟩
    · obtain ⟨k, n, m, step⟩ := exists_step_of_not_endsRun (p := p) goes
      rw [step, Runs.step_of_not_endsRun (depth ▸ goes)]
      simp [run]
    · obtain ⟨n, step⟩ := step_of_rowBreak (p := p) kind closed
      rw [step, Runs.step_of_endsRun (depth ▸ ends)]
    · obtain ⟨n, m, step⟩ := step_of_statementEnd (p := p) kinds
      rw [step, Runs.step_of_endsRun (depth ▸ ends)]
  · rw [depth_step, depth, Runs.depth_step]

/-- Behind any tokens the pass is where the tokens are, the runs that end statements have been
    handed over, and those of them that have content have been counted. -/
theorem agrees_foldl {r : Runs} (h : Agrees s r) (tokens : List Token) :
    Agrees (tokens.foldl p.step s) (tokens.foldl Runs.step r) ∧
      (tokens.foldl Runs.step r).ended.filter isStatement =
        r.ended.filter isStatement ++ p.handedFrom s tokens ∧
      (tokens.foldl p.step s).logicalLines =
        s.logicalLines + (p.handedFrom s tokens).countP hasContent := by
  induction tokens generalizing s r with
  | nil => exact ⟨h, by simp [handedFrom], rfl⟩
  | cons t tokens ih =>
      obtain ⟨agrees, ended, lines⟩ := ih (agrees_step (p := p) h t)
      refine ⟨agrees, ?_, ?_⟩
      · rw [List.foldl_cons, ended, filter_ended_step, handedFrom, h.depth]
        split <;> simp [h.run]
      · rw [List.foldl_cons, lines, logicalLines_step, handedFrom]
        by_cases ends : t.endsStatement s.depth
        · simp [ends, List.countP_cons, Nat.add_assoc, Nat.add_comm]
        · simp [ends]

theorem agrees_after (p : Pass) (tokens : List Token) :
    Agrees (p.after tokens) (Runs.of tokens) ∧
      p.handed tokens = (Runs.of tokens).ended.filter isStatement ∧
      (p.after tokens).logicalLines = (p.handed tokens).countP hasContent := by
  have start : Agrees .initial ⟨[], 0, []⟩ := ⟨rfl, rfl⟩
  obtain ⟨agrees, ended, lines⟩ := agrees_foldl (p := p) start tokens
  exact ⟨agrees, ended.symm, lines.trans (Nat.zero_add _)⟩

/-- Each token counts for the pass as it counts for itself. -/
theorem depth_after (p : Pass) (tokens : List Token) :
    (p.after tokens).depth = tokens.foldl (fun d t => t.depthBehind d) 0 := by
  induction tokens using List.reverseRecOn with
  | nil => rfl
  | append_singleton tokens t ih =>
      rw [after, List.foldl_append, ← after, List.foldl_append, ← ih]
      exact depth_step

theorem logicalLines_report : (p.report s).logicalLines = s.logicalLines := by
  have through : (p.checkRowsThrough p.rows.size s).logicalLines = s.logicalLines := by
    rw [checkRowsThrough_eq]
  simp only [report, writeComments]
  split <;> simp [through]

end Pass

/-- What a source has of content, the runs that are handed over have, in order and each token
    once. -/
structure HoldsContent (handed : List (List Token)) (tokens : List Token) : Prop where
  /-- The tokens fall into pieces. Those that end a statement are handed over, and a row break
      ends the others, which have no content. -/
  pieces : ∃ pieces : List (List Token), pieces.flatten = tokens ∧
    handed = pieces.filter isStatement ∧
    ∀ piece ∈ pieces, ¬isStatement piece →
      (∃ t, piece.getLast? = some t ∧ t.kind = .rowBreak) ∧ ∀ t ∈ piece, t.isContent = false
  content : handed.flatten.filter Token.isContent = tokens.filter Token.isContent

/-- A run that ends no statement is a blank row or a comment row. -/
theorem IsBlock.not_isContent {rows : Rows} {a b : Nat} {run : List Token}
    (h : IsBlock rows a run b) (other : ¬isStatement run) :
    (∃ t, run.getLast? = some t ∧ t.kind = .rowBreak) ∧ ∀ t ∈ run, t.isContent = false := by
  cases h with
  | blank kind => simp [kind, Token.isContent, Token.Kind.isLayout]
  | comment kind ends => simp [kind, ends, Token.isContent, Token.Kind.isLayout]
  | statement _ _ last _ =>
      obtain ⟨t, ht, kinds⟩ := last
      refine absurd ?_ other
      rcases kinds with kind | kind <;> simp [isStatement, ht, kind]

theorem filter_flatten_filter {runs : List (List Token)}
    (h : ∀ run ∈ runs, ¬isStatement run → ∀ t ∈ run, t.isContent = false) :
    (runs.filter isStatement).flatten.filter Token.isContent =
      runs.flatten.filter Token.isContent := by
  induction runs with
  | nil => rfl
  | cons run runs ih =>
      have rest := ih fun r hr => h r (List.mem_cons_of_mem _ hr)
      rw [List.flatten_cons, List.filter_append]
      by_cases statement : isStatement run
      · rw [List.filter_cons_of_pos statement, List.flatten_cons, List.filter_append, rest]
      · have none : run.filter Token.isContent = [] :=
          List.filter_eq_nil_iff.mpr fun t ht => by
            simp [h run (List.mem_cons_self ..) statement t ht]
        rw [List.filter_cons_of_neg statement, rest, none, List.nil_append]

theorem holdsContent_of_tokenize {source : Text} {tokens : List Token} (p : Pass)
    (read : tokenize source = .ok tokens) : HoldsContent (p.handed tokens) tokens := by
  obtain ⟨-, handed, -⟩ := p.agrees_after tokens
  obtain ⟨e, spans, closed, -⟩ := spans_of_tokenize read
  have whole : (Runs.of tokens).ended.flatten = tokens := by
    have := Runs.flatten_of tokens
    rwa [closed, List.append_nil] at this
  have others : ∀ run ∈ (Runs.of tokens).ended, ¬isStatement run →
      (∃ t, run.getLast? = some t ∧ t.kind = .rowBreak) ∧ ∀ t ∈ run, t.isContent = false := by
    intro run hr other
    obtain ⟨i, j, block, -⟩ := spans.exists_block hr
    exact block.not_isContent other
  refine ⟨⟨_, whole, handed, others⟩, ?_⟩
  rw [handed, filter_flatten_filter fun run hr other => (others run hr other).2, whole]

/-- The pass has behind each token the bracket depth of the tokenizer, hands all content over once
    and in order, and counts the runs that have some. -/
theorem statements_of_check {source : Text} {tokens : List Token} (c : Checker)
    (read : tokenize source = .ok tokens) :
    (traceOf source).map Prod.fst = tokens ∧
      (∀ seen t depth ahead, traceOf source = seen ++ (t, depth) :: ahead →
        ((c.pass source).after (seen.map Prod.fst ++ [t])).depth = depth) ∧
      HoldsContent ((c.pass source).handed tokens) tokens ∧
      ∃ report, c.check source = .ok report ∧
        report.logicalLines = ((c.pass source).handed tokens).countP hasContent := by
  obtain ⟨trace, counts⟩ := traceOf_of_tokenize read
  obtain ⟨-, -, lines⟩ := (c.pass source).agrees_after tokens
  refine ⟨trace, ?_, holdsContent_of_tokenize _ read, _, Checker.check_of_tokenize c read,
    Pass.logicalLines_report.trans lines⟩
  intro seen t depth ahead whole
  rw [whole] at counts
  rw [Pass.depth_after, counts.eq_of_append_cons]

/-- Brackets over rows, a joint, a comment row in a block and a last row without its end. -/
theorem statements_of_unended :
    let source := "if (a,\n    # c\n    b):\n  # d\n\n  x = 1 + \\\n    2\ny".toList
    let c : Checker := ⟨⟨RowRule.all, StatementRule.all⟩, { fix := false }⟩
    ∃ tokens report, tokenize source = .ok tokens ∧ c.check source = .ok report ∧
      report.logicalLines = 3 ∧
      ((traceOf source).map Prod.snd).take 6 = [0, 1, 1, 1, 1, 1] ∧
      HoldsContent ((c.pass source).handed tokens) tokens ∧
      ((c.pass source).handed tokens).map (fun run =>
        (run.filter Token.isContent).map Token.text) =
        [["if", "(", "a", ",", "b", ")", ":"], ["x", "=", "1", "+", "2"], ["y"], []].map
          (List.map String.toList) := by
  intro source c
  obtain ⟨tokens, read⟩ : ∃ tokens, (tokenize source).toOption = some tokens :=
    Option.isSome_iff_exists.mp (by decide +kernel)
  have lines : ((c.pass source).handed ((tokenize source).toOption.getD [])).countP hasContent =
      3 := by
    decide +kernel
  have runs : ((c.pass source).handed ((tokenize source).toOption.getD [])).map (fun run =>
        (run.filter Token.isContent).map Token.text) =
        [["if", "(", "a", ",", "b", ")", ":"], ["x", "=", "1", "+", "2"], ["y"], []].map
          (List.map String.toList) := by
    decide +kernel
  have depths : ((traceOf source).map Prod.snd).take 6 = [0, 1, 1, 1, 1, 1] := by
    decide +kernel
  rw [read] at lines runs
  have read := eq_ok_of_toOption read
  obtain ⟨-, -, holds, report, check, counted⟩ := statements_of_check c read
  exact ⟨tokens, report, read, check, counted.trans lines, depths, holds, runs⟩

end StyleGuide
