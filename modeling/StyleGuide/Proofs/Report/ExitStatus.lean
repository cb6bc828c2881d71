import StyleGuide.Program

/-! # What the exit status does not depend on

How much a run prints is told by four options. They leave the files that are checked, what is found
in them and the exit status as they are.
-/

namespace StyleGuide

namespace Config

/-- The configuration that prints the least. -/
def plain (c : Config) : Config :=
  { c with everyOccurrence := false, showSource := false, showGuidance := false }

end Config

/-- The checker with the configuration that prints the least. -/
def Checker.plain (c : Checker) : Checker := { c with config := c.config.plain }

/-- The options without those that tell what is printed. -/
def CommandLine.Options.plain (o : Options) : Options :=
  { o with quiet := 0, everyOccurrence := false, showSource := false, showGuidance := false }

namespace Checker

theorem check_plain (c : Checker) (source : Text) : c.plain.check source = c.check source := by
  obtain ⟨registry, config⟩ := c
  show (⟨registry, config.plain⟩ : Checker).check source = _
  rfl

theorem checkFile_plain {m : Type → Type} [Monad m] [Host m] (c : Checker) :
    c.plain.checkFile (m := m) = c.checkFile := by
  funext path
  simp only [checkFile, check_plain]
  rfl

end Checker

/-- What a report has counted of violations and syntax errors. -/
def Report.verdict (r : Report) : List Tally × Nat := (r.tallies, r.syntaxErrors)

/-! ## Self tests -/

namespace Fixture

/-- What a fixture file has come to so far, but for what was printed. -/
def State.verdict (s : State) : (List Tally × Nat) × TestSummary := (s.report.verdict, s.summary)

variable {c : Checker} {name : String} {verbose : Bool} {s t : State}

theorem verdict_check (same : s.verdict = t.verdict) (part : Section) :
    (check c.plain name verbose s part).verdict = (check c name verbose t part).verdict := by
  obtain ⟨⟨o, tallies, _, _, _, _, errors⟩, summary, _⟩ := s
  obtain ⟨⟨o', tallies', _, _, _, _, errors'⟩, summary', _⟩ := t
  simp only [State.verdict, Report.verdict, Prod.mk.injEq] at same
  obtain ⟨⟨rfl, rfl⟩, rfl⟩ := same
  simp only [check, Checker.check_plain]
  cases c.check part.source <;> rfl

theorem verdict_testFixture (c : Checker) (name : String) (contents : Text) (verbose : Bool)
    {r r' : Report} (same : r.verdict = r'.verdict) :
    (testFixture c.plain name contents verbose r).verdict =
      (testFixture c name contents verbose r').verdict := by
  have steps (parts : List Section) : ∀ s t : State, s.verdict = t.verdict →
      (parts.foldl (check c.plain name verbose) s).verdict =
        (parts.foldl (check c name verbose) t).verdict := by
    induction parts with
    | nil => exact fun _ _ same => same
    | cons part parts ih => exact fun s t same => ih _ _ (verdict_check same part)
  exact steps _ _ _ (congrArg (Prod.mk · ({} : TestSummary)) same)

end Fixture

/-! ## Runs -/

namespace Program

open CommandLine (Options)

/-- What counts for the exit status of a session. -/
def Session.verdict (s : Session) : (List Tally × Nat) × Bool := (s.report.verdict, s.hasFailed)

namespace Session

variable {s t : Session}

theorem verdict_addResult (same : s.verdict = t.verdict) (path : Path)
    (result : Except CheckFailure FileReport) :
    (s.addResult path result).verdict = (t.addResult path result).verdict := by
  simp only [verdict, Report.verdict, Prod.mk.injEq] at same
  obtain ⟨⟨tallies, errors⟩, failed⟩ := same
  cases result with
  | ok file => simp [addResult, Report.addFile, Report.addCase, verdict, Report.verdict, *]
  | error e =>
      simp only [addResult]
      split <;> simp [verdict, Report.verdict, *]

theorem verdict_foldl_addResult (results : List (Path × Except CheckFailure FileReport)) :
    ∀ s t : Session, s.verdict = t.verdict →
      (results.foldl (fun s (path, result) => s.addResult path result) s).verdict =
        (results.foldl (fun s (path, result) => s.addResult path result) t).verdict := by
  induction results with
  | nil => exact fun _ _ same => same
  | cons r results ih => exact fun s t same => ih _ _ (verdict_addResult same r.1 r.2)

variable {m : Type → Type} [Monad m] [LawfulMonad m] [Host m] {c : Checker}

theorem verdict_checkFiles (same : s.verdict = t.verdict) (files : List Path) :
    verdict <$> s.checkFiles (m := m) c.plain files = verdict <$> t.checkFiles c files := by
  simp only [checkFiles, Checker.checkFile_plain, map_bind, map_pure,
    verdict_foldl_addResult _ s t same]

theorem verdict_testFiles (verbose : Bool) (files : List Path) (same : s.verdict = t.verdict) :
    Prod.map verdict id <$> testFiles (m := m) c.plain verbose files s =
      Prod.map verdict id <$> testFiles c verbose files t := by
  induction files generalizing s t with
  | nil => simp [testFiles, same]
  | cons path files ih =>
      simp only [testFiles, map_bind]
      refine bind_congr fun read => ?_
      cases read with
      | error e => simp [same]
      | ok contents =>
          apply ih
          simp only [verdict, Prod.mk.injEq] at same
          have tested :=
            Fixture.verdict_testFixture c (String.ofList path) contents verbose same.1
          simp only [Fixture.State.verdict, Prod.mk.injEq] at tested
          simp only [verdict, tested, same.2]

end Session

/-! ## The exit status -/

variable {m : Type → Type} [Monad m] [LawfulMonad m] [Host m]

/-- The exit status of a run that has found this and perhaps failed. -/
def statusOf (found : ((List Tally × Nat) × Bool) × Option Failure) : Nat :=
  if found.2.isNone && Tally.total "" found.1.1.1 == 0 && found.1.1.2 == 0 && !found.1.2 then 0
  else 1

/-- What a run finds, and whether it had to stop. -/
def findings (o : Options) (c : Checker) (s : Session) (files : List Path) :
    m (Session × Option Failure) :=
  if o.testsuite.isSome then Session.testFiles c (0 < o.verbose) files s
  else (·, none) <$> s.checkFiles c files

theorem verdict_findings (o : Options) (c : Checker) {s t : Session} (same : s.verdict = t.verdict)
    (files : List Path) :
    Prod.map Session.verdict id <$> findings (m := m) o.plain c.plain s files =
      Prod.map Session.verdict id <$> findings o c t files := by
  rw [findings, findings]
  show _ <$> (if o.testsuite.isSome then _ else _) = _
  split
  · exact Session.verdict_testFiles _ files same
  · have checked := congrArg (Functor.map (·, (none : Option Failure)))
      (Session.verdict_checkFiles (m := m) (c := c) same files)
    simpa only [Functor.map_map, Prod.map, id] using checked

/-- The session before the files are looked for. -/
def opening (o : Options) (c : Checker) : Session :=
  let s : Session := { report := emptyReport o c.config }
  if o.doctest then s.testRules c (0 < o.verbose) else s

/-- The session behind the search for files. -/
def Session.withFound (s : Session) (found : FoundFiles) : Session :=
  { s with
    report.directories := found.directories
    report.files := found.files.length }

theorem verdict_opening (o : Options) (c : Checker) :
    (opening o.plain c.plain).verdict = (opening o c).verdict := by
  rw [opening, opening]
  show Session.verdict (if o.doctest then _ else _) = _
  split <;> rfl

theorem exitStatus_work (o : Options) (c : Checker) (inputs : List Path) :
    Outcome.exitStatus <$> work (m := m) o c inputs = do
      let _ ← Host.now
      let found ← FoundFiles.ofInputs (.ofConfig c.config) inputs
      let v ← Prod.map Session.verdict id <$>
        findings o c ((opening o c).withFound found) found.files
      let _ ← Host.now
      return statusOf v := by
  have clean (s : Session) (output errors : List String) :
      (Session.outcome { s with output, errors }).exitStatus = statusOf (s.verdict, none) := by
    simp [Session.outcome, Session.isClean, statusOf, Session.verdict, Report.verdict, Report.count]
  unfold work
  simp only [map_bind, bind_map_left]
  refine bind_congr fun _ => bind_congr fun found => ?_
  unfold findings
  by_cases fixtures : o.testsuite.isSome
  · simp only [fixtures, if_true, map_bind]
    refine bind_congr fun (s, failure) => bind_congr fun stop => ?_
    cases failure with
    | some failure => simp [Session.outcomeOfFailure, statusOf]
    | none => simp only [map_pure, clean, Prod.map, id]
  · simp only [fixtures, Bool.false_eq_true, if_false, map_bind, bind_map_left]
    refine bind_congr fun s => bind_congr fun stop => ?_
    simp only [map_pure, clean, Prod.map, id]

/-- Options that tell what is printed, and the configuration they come from, leave the exit status
    as it is. -/
theorem exitStatus_work_plain (o : Options) (c : Checker) (inputs : List Path) :
    Outcome.exitStatus <$> work (m := m) o.plain c.plain inputs =
      Outcome.exitStatus <$> work o c inputs := by
  rw [exitStatus_work, exitStatus_work]
  refine bind_congr fun _ => bind_congr fun found => ?_
  have same : ((opening o.plain c.plain).withFound found).verdict =
      ((opening o c).withFound found).verdict := verdict_opening o c
  rw [verdict_findings o c same]

/-- The configuration that the options change. -/
def base (o : Options) : m (Except Config.DocumentError Config) :=
  match o.config with
  | some path => Config.ofDocument path
  | none => Except.ok <$> (Host.workingDirectory >>= Config.discover)

/-- A configuration as the options change it, if it can be used. -/
def judge (o : Options) : Except Config.DocumentError Config → Except Failure Config
  | .error e => .error (.badDocument e)
  | .ok base =>
    match (base.apply o.settings).problem? with
    | some problem => .error (.badConfig problem)
    | none => .ok (base.apply o.settings)

theorem configuration_eq (o : Options) : configuration (m := m) o = judge o <$> base o := by
  have each (b : Except Config.DocumentError Config) : pure (f := m) (judge o b) =
      match b with
      | .error e => pure (.error (.badDocument e))
      | .ok base =>
        match (base.apply o.settings).problem? with
        | some problem => pure (.error (.badConfig problem))
        | none => pure (.ok (base.apply o.settings)) := by
    cases b with
    | error e => rfl
    | ok base =>
        rw [judge]
        dsimp only
        cases (base.apply o.settings).problem? <;> rfl
  rw [base, ← bind_pure_comp]
  unfold configuration
  cases o.config with
  | some path => exact (bind_congr each).symm
  | none => exact (bind_congr each).symm

theorem judge_plain (o : Options) (b : Except Config.DocumentError Config) :
    (judge o.plain b).map Config.plain = (judge o b).map Config.plain := by
  cases b with
  | error e => rfl
  | ok base =>
      have same : (base.apply o.plain.settings).problem? = (base.apply o.settings).problem? := rfl
      simp only [judge, same]
      cases (base.apply o.settings).problem? <;> rfl

/-- How a run goes on with its configuration. -/
def proceed (o : Options) : Except Failure Config → m Outcome
  | .error failure => return ({ report := {} } : Session).outcomeOfFailure failure
  | .ok config => work o ⟨.ofFilter config.codeFilter, config⟩ (o.inputs ++ o.testsuite.toList)

theorem exitStatus_proceed (o : Options) (config : Except Failure Config) :
    Outcome.exitStatus <$> proceed (m := m) o.plain (config.map Config.plain) =
      Outcome.exitStatus <$> proceed o config := by
  cases config with
  | error failure => simp [proceed, Except.map, Session.outcomeOfFailure]
  | ok config => exact exitStatus_work_plain o ⟨.ofFilter config.codeFilter, config⟩ _

omit [LawfulMonad m] in
theorem carryOut_eq (o : Options) : carryOut (m := m) o =
    if (o.inputs ++ o.testsuite.toList).isEmpty && !o.doctest then proceed o (.error .noInput)
    else configuration o >>= proceed o := by
  unfold carryOut
  dsimp only
  split
  · rfl
  · refine bind_congr fun config => ?_
    cases config <;> rfl

/-- How much is printed does not change the exit status. -/
theorem exitStatus_carryOut_plain (o : Options) :
    Outcome.exitStatus <$> carryOut (m := m) o.plain = Outcome.exitStatus <$> carryOut o := by
  -- the configurations of both runs differ in what is printed only
  have judged : Except.map Config.plain <$> configuration (m := m) o.plain =
      Except.map Config.plain <$> configuration o := by
    rw [configuration_eq, configuration_eq, Functor.map_map, Functor.map_map]
    simp only [judge_plain]
    rfl
  have through (x : m (Except Failure Config)) :
      (x >>= fun config =>
          Outcome.exitStatus <$> proceed (m := m) o.plain (config.map Config.plain)) =
        Except.map Config.plain <$> x >>= fun config =>
          Outcome.exitStatus <$> proceed o.plain config := by
    rw [bind_map_left]
  rw [carryOut_eq, carryOut_eq]
  show _ <$> (if (o.inputs ++ o.testsuite.toList).isEmpty && !o.doctest then _ else _) = _
  split
  · rfl
  · calc Outcome.exitStatus <$> (configuration (m := m) o.plain >>= proceed o.plain)
      _ = configuration o.plain >>= fun config =>
            Outcome.exitStatus <$> proceed o.plain (config.map Config.plain) := by
        rw [map_bind]
        exact bind_congr fun config => (exitStatus_proceed o.plain config).symm
      _ = configuration o >>= fun config =>
            Outcome.exitStatus <$> proceed o.plain (config.map Config.plain) := by
        rw [through, through, judged]
      _ = Outcome.exitStatus <$> (configuration o >>= proceed o) := by
        rw [map_bind]
        exact bind_congr (exitStatus_proceed o)

end Program

end StyleGuide
