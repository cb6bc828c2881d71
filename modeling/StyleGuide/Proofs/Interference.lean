import StyleGuide.Proofs.Checker.Alike

/-! # Literals do not interfere

What stands in string literals has no influence on what the rules for statements report. Two sources
whose tokens are alike but for the bodies of literals, behind the same gaps, get the same findings
with the same codes and messages on the same rows. The gaps have to be the same: tokens do not hold
them, and the rules for spaces tell tabs from spaces.
-/

namespace StyleGuide

/-- Whether a rule for statements reports a code, other than the rule for the indentation of
    blocks. -/
def Code.isOfStatement (code : Code) : Bool :=
  StatementRule.all.any fun rule => rule ≠ .blockIndentation && rule.codes.any (· = code)

/-- Code, message and row of a violation of a rule for statements, but for the indentation of
    blocks. -/
def Violation.summary? (v : Violation) : Option (Code × String × Nat) :=
  if v.code.isOfStatement then some (v.code, v.message, v.row) else none

theorem RowRule.isOfStatement_eq_false (rule : RowRule) :
    ∀ code ∈ rule.codes, code.isOfStatement = false := by
  cases rule <;> decide

instance (t u : Token) : Decidable (t.Alike u) :=
  decidable_of_iff (t.kind = u.kind ∧ t.start = u.start ∧ t.stop = u.stop ∧ t.shown = u.shown)
    ⟨fun ⟨kind, start, stop, shown⟩ => ⟨kind, start, stop, shown⟩,
      fun h => ⟨h.kind, h.start, h.stop, h.shown⟩⟩

/-- The gaps in front of the tokens that are no layout are the same in both sources. -/
def SameGaps (source source' : Text) (tokens tokens' : List Token) : Prop :=
  List.Forall₂ (fun t u => t.isSolid →
    (Rows.ofSource source).gapBefore t.start = (Rows.ofSource source').gapBefore u.start)
    tokens tokens'

instance (source source' : Text) (tokens tokens' : List Token) :
    Decidable (SameGaps source source' tokens tokens') :=
  inferInstanceAs (Decidable (List.Forall₂ _ tokens tokens'))

theorem exists_of_forall₂_concat {α β : Type} {R : α → β → Prop} {ts : List α} {t : α}
    {us : List β} (h : List.Forall₂ R (ts ++ [t]) us) :
    ∃ vs u, us = vs ++ [u] ∧ List.Forall₂ R ts vs ∧ R t u := by
  have length := h.length_eq
  obtain ⟨vs, u, rfl⟩ := (List.eq_nil_or_concat us).resolve_left (by rintro rfl; simp at length)
  rw [List.concat_eq_append] at h length ⊢
  have same : ts.length = vs.length := by simpa using length
  have front := List.forall₂_take ts.length h
  have last := List.forall₂_drop ts.length h
  rw [List.take_left, same, List.take_left] at front
  rw [List.drop_left, same, List.drop_left] at last
  exact ⟨vs, u, rfl, front, (List.forall₂_cons.mp last).1⟩

namespace Pass

variable {α : Type} {view : Violation → Option α} {source source' : Text}
  {tokens tokens' : List Token}

/-- The run that ends a statement is one of the runs of the source. -/
theorem mem_ended_of_endsStatement (p : Pass) (seen ahead : List Token) {t : Token}
    (ends : t.endsStatement (p.after seen).depth) :
    (p.reach seen t).run.toList ∈ (Runs.of (seen ++ t :: ahead)).ended := by
  obtain ⟨⟨run, depth⟩, -⟩ := p.agrees_after seen
  have closes : t.endsRun (Runs.of seen).depth := by
    rw [← depth]
    rcases t.endsRun_cases (p.after seen).depth with ⟨-, other⟩ | ⟨closes, -⟩ | ⟨closes, -⟩
    · rw [other] at ends
      cases ends
    · exact closes
    · exact closes
  have first := Runs.ended_prefix (seen ++ [t]) ahead
  rw [Runs.of_append, List.foldl_cons, List.foldl_nil, Runs.step_of_endsRun closes,
    List.append_assoc, List.singleton_append] at first
  refine first.subset ?_
  simp [reach, run]

/-- A run that ends a statement is laid out behind an earlier row. -/
theorem exists_laid_reach (p : Pass) (read : tokenize source = .ok tokens) {seen ahead : List Token}
    {t : Token} (whole : tokens = seen ++ t :: ahead)
    (ends : t.endsStatement (p.after seen).depth) :
    ∃ o q, Laid (Rows.ofSource source) o ((p.reach seen t).run.toList.filter Token.isSolid) q ∧
      ∀ u ∈ (p.reach seen t).run.toList, u.isSolid → o.row < u.start.row := by
  obtain ⟨_, spans, closed, -⟩ := spans_of_tokenize read
  obtain ⟨q, laid⟩ := laid_of_tokenize read
  have all := Runs.flatten_of tokens
  rw [closed, List.append_nil] at all
  refine spans.exists_laid_run (all.symm ▸ laid) Nat.one_pos _ ?_
  rw [whole]
  exact p.mem_ended_of_endsStatement seen ahead ends

/-- Passes over mirrored tokens go side by side. -/
theorem parallel_of_mirrors {p q : Pass} (rows : p.rows = Rows.ofSource source)
    (rows' : q.rows = Rows.ofSource source') (reads : p.config.fix = false)
    (reads' : q.config.fix = false) (same : SameRules p q) (masked : IsMasked view)
    (read : tokenize source = .ok tokens) (read' : tokenize source' = .ok tokens')
    (mirrors : List.Forall₂ (Token.Mirrors p.rows q.rows) tokens tokens') :
    Parallel (Token.Mirrors p.rows q.rows) view p q tokens tokens' := by
  have front : ∀ ts us more more', List.Forall₂ (Token.Mirrors p.rows q.rows) ts us →
      tokens = ts ++ more → tokens' = us ++ more' →
        Parallel (Token.Mirrors p.rows q.rows) view p q ts us := by
    intro ts
    induction ts using List.reverseRecOn with
    | nil =>
        rintro us - - (_ | _) - -
        exact .nil
    | append_singleton ts t ih =>
        intro us more more' pairs whole whole'
        obtain ⟨us, u, rfl, pairs, pair⟩ := exists_of_forall₂_concat pairs
        rw [List.append_assoc, List.singleton_append] at whole whole'
        have before := ih us _ _ pairs whole whole'
        refine before.concat reads reads' pair pair.countsAs ?_ fun ended step => ?_
        · rw [filterMap_rowsFound masked, filterMap_rowsFound masked]
        · have ended' : u.endsStatement (q.after us).depth := by
            rwa [← pair.countsAs.endsStatement_eq, ← before.inStep.depth]
          obtain ⟨o, r, laid, above⟩ := p.exists_laid_reach read whole ended
          obtain ⟨o', r', laid', above'⟩ := q.exists_laid_reach read' whole' ended'
          rw [← rows] at laid
          rw [← rows'] at laid'
          have aligned := aligned_of_runs (step.run.imp fun _ _ pair => pair.toTwin) laid laid'
            above above'
          exact ⟨outline_eq_of_aligned same aligned above,
            statementFound_eq_of_aligned masked same step aligned above⟩
  exact front tokens tokens' [] [] mirrors (List.append_nil _).symm (List.append_nil _).symm

end Pass

/-- Tokens that are alike behind the same gaps are at the same places of sources that are alike
    outside of literals. -/
theorem mirrors_of_alike {source source' : Text} {tokens tokens' : List Token}
    (read : tokenize source = .ok tokens) (read' : tokenize source' = .ok tokens')
    (alike : List.Forall₂ Token.Alike tokens tokens')
    (gaps : SameGaps source source' tokens tokens') :
    List.Forall₂ (Token.Mirrors (Rows.ofSource source) (Rows.ofSource source'))
      tokens tokens' := by
  have twins : List.Forall₂ (Token.Twin (Rows.ofSource source) (Rows.ofSource source'))
      tokens tokens' := by
    refine List.forall₂_iff_zip.mpr ⟨alike.length_eq, fun {t u} pair => ?_⟩
    obtain ⟨ht, hu⟩ := List.of_mem_zip pair
    exact ⟨(List.forall₂_iff_zip.mp alike).2 pair, (List.forall₂_iff_zip.mp gaps).2 pair,
      edged_of_tokenize read t ht, edged_of_tokenize read' u hu⟩
  obtain ⟨q, laid⟩ := laid_of_tokenize read
  obtain ⟨q', laid'⟩ := laid_of_tokenize read'
  have start (rows : Rows) : rows.Holds [] ⟨0, 0⟩ := ⟨List.nil_prefix, rfl⟩
  exact mirrors_of_aligned twins
    (aligned_of_laid laid laid' (filter_isSolid_twins twins) fun t ht => (List.mem_filter.mp ht).2)
    ⟨[], [], start _, start _, rfl⟩

/-- Sources that are alike outside of literals, gaps included, get the same reports from the rules
    for statements, but for the indentation of blocks. -/
theorem summaries_eq_of_alike (c : Checker) (reads : c.config.fix = false)
    {source source' : Text} {tokens tokens' : List Token}
    (read : tokenize source = .ok tokens) (read' : tokenize source' = .ok tokens')
    (alike : List.Forall₂ Token.Alike tokens tokens')
    (gaps : SameGaps source source' tokens tokens') :
    ∃ report report', c.check source = .ok report ∧ c.check source' = .ok report' ∧
      report.violations.filterMap Violation.summary? =
        report'.violations.filterMap Violation.summary? := by
  refine ⟨_, _, c.check_of_tokenize read, c.check_of_tokenize read', ?_⟩
  let view (v : Violation) : Option (Code × String × Nat) :=
    if !(c.pass source).suppresses v.code then v.summary? else none
  have masked : IsMasked view := by
    have hidden {v : Violation} (h : v.code.isOfStatement = false) : view v = none := by
      simp [view, Violation.summary?, h]
    refine ⟨fun v w code message row => ?_, fun rule v hv => ?_, fun v hv => ?_⟩
    · simp only [view, Violation.summary?, code, message, row]
    · exact hidden (rule.isOfStatement_eq_false _ hv)
    · have other : ∀ code ∈ StatementRule.blockIndentation.codes,
          code.isOfStatement = false := by decide
      exact hidden (other _ hv)
  have parallel := Pass.parallel_of_mirrors (p := c.pass source) (q := c.pass source') rfl rfl
    reads reads ⟨rfl, rfl⟩ masked read read' (mirrors_of_alike read read' alike gaps)
  rw [((c.pass source).report_of_reading reads tokens).1,
    ((c.pass source').report_of_reading reads tokens').1, List.filterMap_filter,
    List.filterMap_filter]
  change ((c.pass source).allFound tokens).filterMap view =
    ((c.pass source').allFound tokens').filterMap view
  rw [Pass.allFound, Pass.allFound, List.filterMap_append, List.filterMap_append, parallel.found,
    Pass.filterMap_rowsFound masked, Pass.filterMap_rowsFound masked]

/-- Literals on one row and over two, with brackets, separators and a tab in them. -/
theorem summaries_eq_of_brackets_inside :
    let source := "x = ['é)  ', '''a\n  b(''' ] # c\nif x :\n\ty = 'a,'+ 1\n".toList
    let source' := "x = ['(( ;,', '''\"\n\t\t#,''' ] # c\nif x :\n\ty = 'b('+ 1\n".toList
    let c : Checker := ⟨.ofFilter .allowAll, { fix := false }⟩
    c.config.fix = false ∧ ∃ tokens tokens', tokenize source = .ok tokens ∧
      tokenize source' = .ok tokens' ∧ List.Forall₂ Token.Alike tokens tokens' ∧
      SameGaps source source' tokens tokens' ∧ ∃ report report' : FileReport,
        c.check source = .ok report ∧ c.check source' = .ok report' ∧
        report.violations.filterMap Violation.summary? =
          report'.violations.filterMap Violation.summary? ∧
        report.violations.filterMap Violation.summary? =
          [(.e202, "whitespace before ']'", 1),
            (.e261, "at least two spaces before inline comment", 2),
            (.e203, "whitespace before ':'", 3),
            (.e225, "missing whitespace around operator", 4)] := by
  intro source source' c
  obtain ⟨tokens, read⟩ : ∃ tokens, (tokenize source).toOption = some tokens :=
    Option.isSome_iff_exists.mp (by decide +kernel)
  obtain ⟨tokens', read'⟩ : ∃ tokens, (tokenize source').toOption = some tokens :=
    Option.isSome_iff_exists.mp (by decide +kernel)
  have alike : List.Forall₂ Token.Alike ((tokenize source).toOption.getD [])
      ((tokenize source').toOption.getD []) := by decide +kernel
  have gaps : SameGaps source source' ((tokenize source).toOption.getD [])
      ((tokenize source').toOption.getD []) := by decide +kernel
  have found : (c.check source).toOption.map (fun r =>
      r.violations.filterMap Violation.summary?) =
        some [(.e202, "whitespace before ']'", 1),
          (.e261, "at least two spaces before inline comment", 2),
          (.e203, "whitespace before ':'", 3),
          (.e225, "missing whitespace around operator", 4)] := by
    decide +kernel
  rw [read, read'] at alike gaps
  have read := eq_ok_of_toOption read
  have read' := eq_ok_of_toOption read'
  obtain ⟨report, report', checked, checked', same⟩ :=
    summaries_eq_of_alike c rfl read read' alike gaps
  rw [checked] at found
  exact ⟨rfl, tokens, tokens', read, read', alike, gaps, report, report', checked, checked', same,
    Option.some.inj found⟩

/-- Where a tab stands for a space in a gap, the tokens are the same and the findings are not. -/
theorem summaries_differ_behind_tab :
    let source := "x  = 1\n".toList
    let source' := "x \t= 1\n".toList
    let c : Checker := ⟨.ofFilter .allowAll, { fix := false }⟩
    c.config.fix = false ∧ ∃ tokens tokens', tokenize source = .ok tokens ∧
      tokenize source' = .ok tokens' ∧ List.Forall₂ Token.Alike tokens tokens' ∧
      ∃ report report' : FileReport, c.check source = .ok report ∧ c.check source' = .ok report' ∧
        report.violations.filterMap Violation.summary? =
          [(.e221, "multiple spaces before operator", 1)] ∧
        report'.violations.filterMap Violation.summary? = [(.e223, "tab before operator", 1)] ∧
        report.violations.filterMap Violation.summary? ≠
          report'.violations.filterMap Violation.summary? := by
  intro source source' c
  obtain ⟨tokens, read⟩ : ∃ tokens, (tokenize source).toOption = some tokens :=
    Option.isSome_iff_exists.mp (by decide +kernel)
  obtain ⟨tokens', read'⟩ : ∃ tokens, (tokenize source').toOption = some tokens :=
    Option.isSome_iff_exists.mp (by decide +kernel)
  have alike : List.Forall₂ Token.Alike ((tokenize source).toOption.getD [])
      ((tokenize source').toOption.getD []) := by decide +kernel
  have found : (c.check source).toOption.map (fun r =>
      r.violations.filterMap Violation.summary?) =
        some [(.e221, "multiple spaces before operator", 1)] := by decide +kernel
  have found' : (c.check source').toOption.map (fun r =>
      r.violations.filterMap Violation.summary?) =
        some [(.e223, "tab before operator", 1)] := by decide +kernel
  rw [read, read'] at alike
  have read := eq_ok_of_toOption read
  have read' := eq_ok_of_toOption read'
  have checked := c.check_of_tokenize read
  have checked' := c.check_of_tokenize read'
  rw [checked] at found
  rw [checked'] at found'
  have codes := Option.some.inj found
  have codes' := Option.some.inj found'
  refine ⟨rfl, tokens, tokens', read, read', alike, _, _, checked, checked', codes, codes',
    fun same => ?_⟩
  exact absurd (codes.symm.trans (same.trans codes')) (by decide)

end StyleGuide
