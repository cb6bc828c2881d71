import StyleGuide.Proofs.Ledger.Outline

/-! # The blocks of a mended source

Mending a source changes the widths at which its statements start, a tab being written as four
spaces and read as up to eight. So the blocks of an orderly source stay what they are exactly if the
new widths nest as the old ones do; where no tab stands in front of a statement they are the same.
-/

namespace StyleGuide

section Source

variable {c : Checker} {source : Text} {tokens run : List Token} {line : LogicalLine}

/-- Without a tab in its indentation, the first row of a statement keeps its width. -/
theorem startWidth_mended (read : tokenize source = .ok tokens)
    (orderly : IsOrderly (Rows.ofSource source) (Runs.of tokens).ended)
    (hr : run ∈ (Runs.of tokens).ended)
    (hl : LogicalLine.ofTokens? (Rows.ofSource source) run = some line)
    (bare : '\t' ∉ indentation ((Rows.ofSource source).row line.firstRow)) :
    startWidth (Rows.row (c.pass source).mendedRows line.firstRow) =
      startWidth ((Rows.ofSource source).row line.firstRow) := by
  obtain ⟨framed, last⟩ := orderly.isFramed read hr hl
  have keeps := framed.keepsOutline_first (p := c.pass source) last
  have opens := framed.opens
  rw [opensStatement_eq] at opens
  rw [startWidth, startWidth]
  exact congrArg _ (keeps.lead bare (Option.isSome_of_any opens))

/-- The blocks of an orderly source. -/
theorem nesting?_startWidths (read : tokenize source = .ok tokens)
    (orderly : IsOrderly (Rows.ofSource source) (Runs.of tokens).ended) :
    nesting? [] (startWidths (Rows.ofSource source) (Rows.ofSource source) (Runs.of tokens).ended) =
      some (blockDepths tokens) := by
  have outlined := map_blockDepths_of_outline? (orderly.outline?_eq read).1
  rw [read] at outlined
  exact outlined.symm

/-- A mended source can be read and has at each logical line as many open blocks as the source,
    exactly if the widths of the mended first rows nest as those of the source do. They do if no
    tab stands in the indentation of a first row. -/
theorem blockDepths_of_check (fix : c.config.fix) (read : tokenize source = .ok tokens)
    (orderly : IsOrderly (Rows.ofSource source) (Runs.of tokens).ended) :
    let rows := Rows.ofSource source
    let runs := (Runs.of tokens).ended
    let kept (fixed : Text) := ∃ tokens', tokenize fixed = .ok tokens' ∧
      blockDepths tokens' = blockDepths tokens
    ∃ report fixed, c.check source = .ok report ∧ report.fixed = some fixed ∧
      nesting? [] (startWidths rows rows runs) = some (blockDepths tokens) ∧
      (kept fixed ↔ nesting? [] (startWidths rows (c.pass source).mendedRows runs) =
        nesting? [] (startWidths rows rows runs)) ∧
      ((∀ run ∈ runs, ∀ line, LogicalLine.ofTokens? rows run = some line →
        '\t' ∉ indentation (rows.row line.firstRow)) → kept fixed) := by
  intro rows runs kept
  obtain ⟨report, fixed, check, written, outlined⟩ := orderly.outline?_fixed (c := c) fix read
  have source_eq := nesting?_startWidths read orderly
  have fixed_eq := map_blockDepths_of_outline? outlined
  have iff : kept fixed ↔ nesting? [] (startWidths rows (c.pass source).mendedRows runs) =
      nesting? [] (startWidths rows rows runs) := by
    rw [source_eq, ← fixed_eq, Option.map_eq_some_iff]
    constructor
    · rintro ⟨tokens', read', same⟩
      exact ⟨tokens', by rw [read']; rfl, same⟩
    · rintro ⟨tokens', read', same⟩
      exact ⟨tokens', eq_ok_of_toOption read', same⟩
  refine ⟨report, fixed, check, written, source_eq, iff, fun bare => iff.mpr ?_⟩
  refine congrArg (nesting? []) (List.filterMap_congr fun run hr => ?_)
  refine Option.map_congr fun line hl => ?_
  exact startWidth_mended read orderly hr hl (bare run hr line hl)

end Source

/-- Blocks behind tabs are blocks behind half as many columns, which nest as well. -/
theorem blockDepths_of_check_tabs :
    let source := "if a:\n\tb=1\n\tif b:\n\t\tc=[1,\n2]\nd=1\n".toList
    let c : Checker := ⟨⟨RowRule.all, StatementRule.all⟩, { fix := true }⟩
    ∃ tokens report fixed tokens', tokenize source = .ok tokens ∧ c.check source = .ok report ∧
      report.fixed = some fixed ∧ tokenize fixed = .ok tokens' ∧
      blockDepths tokens' = blockDepths tokens ∧ blockDepths tokens = [0, 1, 1, 2, 0] := by
  intro source c
  obtain ⟨tokens, read⟩ : ∃ tokens, (tokenize source).toOption = some tokens :=
    Option.isSome_iff_exists.mp (by decide +kernel)
  have orderly : IsOrderly (Rows.ofSource source)
      (Runs.of ((tokenize source).toOption.getD [])).ended := by
    decide +kernel
  have nests : nesting? [] (startWidths (Rows.ofSource source) (c.pass source).mendedRows
        (Runs.of ((tokenize source).toOption.getD [])).ended) =
      nesting? [] (startWidths (Rows.ofSource source) (Rows.ofSource source)
        (Runs.of ((tokenize source).toOption.getD [])).ended) := by
    decide +kernel
  have depths : blockDepths ((tokenize source).toOption.getD []) = [0, 1, 1, 2, 0] := by
    decide +kernel
  rw [read] at orderly nests depths
  obtain ⟨report, fixed, check, written, -, iff, -⟩ :=
    blockDepths_of_check (c := c) rfl (eq_ok_of_toOption read) orderly
  obtain ⟨tokens', read', same⟩ := iff.mpr nests
  exact ⟨tokens, report, fixed, tokens', eq_ok_of_toOption read, check, written, read', same, depths⟩

/-- A row that holds a gap and a joining backslash is dropped, and with it the block that its gap
    opens. -/
theorem joined_gap_dropped :
    let source := "if a:\n    \\\nx = 1\n".toList
    let c : Checker := ⟨⟨RowRule.all, StatementRule.all⟩, { fix := true }⟩
    ∃ tokens report fixed tokens', tokenize source = .ok tokens ∧ c.check source = .ok report ∧
      report.fixed = some fixed ∧ tokenize fixed = .ok tokens' ∧ fixed = "if a:\nx = 1\n".toList ∧
      blockDepths tokens = [0, 1] ∧ blockDepths tokens' = [0, 0] := by
  intro source c
  obtain ⟨tokens, read⟩ : ∃ tokens, (tokenize source).toOption = some tokens :=
    Option.isSome_iff_exists.mp (by decide +kernel)
  obtain ⟨report, check⟩ : ∃ report, (c.check source).toOption = some report :=
    Option.isSome_iff_exists.mp (by decide +kernel)
  obtain ⟨tokens', read'⟩ :
      ∃ tokens', (tokenize "if a:\nx = 1\n".toList).toOption = some tokens' :=
    Option.isSome_iff_exists.mp (by decide +kernel)
  have written : (c.check source).toOption.bind FileReport.fixed =
      some "if a:\nx = 1\n".toList := by
    decide +kernel
  have depths : (tokenize source).toOption.map blockDepths = some [0, 1] := by decide +kernel
  have depths' : (tokenize "if a:\nx = 1\n".toList).toOption.map blockDepths = some [0, 0] := by
    decide +kernel
  rw [check] at written
  rw [read] at depths
  rw [read'] at depths'
  exact ⟨tokens, report, _, tokens', eq_ok_of_toOption read, eq_ok_of_toOption check, written,
    eq_ok_of_toOption read', rfl, Option.some.inj depths, Option.some.inj depths'⟩

/-- Where a block of spaces meets a tab, the widths no longer nest. -/
example :
    let c : Checker := ⟨⟨RowRule.all, StatementRule.all⟩, { fix := true }⟩
    let fixed := ((c.check "if a:\n        b = 1\n\tc = 1\n".toList).toOption.bind FileReport.fixed)
    fixed = some "if a:\n        b = 1\n    c = 1\n".toList ∧
      (fixed.bind fun s => (tokenize s).toOption) = none := by
  decide +kernel

end StyleGuide
