import StyleGuide.Config.Discovery
import StyleGuide.Proofs.Machine

/-! # The nearest settings win

Settings documents are applied one after the other, the nearest last, so each field of the
configuration is the one of the nearest document that sets it. The document of the home directory
comes first of all and is applied once. Where the home directory is on the way from the root to the
start, its document therefore counts as the farthest, not as the nearest that it is.
-/

namespace StyleGuide

namespace Config

/-- The configuration that has each field from the first of some settings that has it. -/
def nearest (layers : List Settings) : Config :=
  let initial : Config := {}
  { select := (layers.findSome? Settings.select).getD initial.select
    ignore := (layers.findSome? Settings.ignore).getD initial.ignore
    maxLineLength := (layers.findSome? Settings.maxLineLength).getD initial.maxLineLength
    tabSize := (layers.findSome? Settings.tabSize).getD initial.tabSize
    everyOccurrence := (layers.findSome? Settings.everyOccurrence).getD initial.everyOccurrence
    fix := (layers.findSome? Settings.fix).getD initial.fix
    inPlace := (layers.findSome? Settings.inPlace).getD initial.inPlace
    showSource := (layers.findSome? Settings.showSource).getD initial.showSource
    showGuidance := (layers.findSome? Settings.showGuidance).getD initial.showGuidance
    exclude := ((layers.findSome? Settings.exclude).map fun patterns =>
      patterns.map withoutSlashes).getD initial.exclude
    filename := (layers.findSome? Settings.filename).getD initial.filename }

variable {layers layers' : List Settings} {settings : List Settings} {α β : Type}

theorem nearest_congr
    (h : ∀ {α : Type} (field : Settings → Option α),
      layers.findSome? field = layers'.findSome? field) :
    nearest layers = nearest layers' := by
  simp only [nearest, h]

theorem findSome?_cons_getD (field : Settings → Option α) (s : Settings) (initial : α) :
    ((s :: layers).findSome? field).getD initial =
      (field s).getD ((layers.findSome? field).getD initial) := by
  rw [List.findSome?_cons]
  cases field s <;> rfl

theorem findSome?_cons_map_getD (field : Settings → Option α) (f : α → β) (s : Settings)
    (initial : β) :
    (((s :: layers).findSome? field).map f).getD initial =
      ((field s).map f).getD (((layers.findSome? field).map f).getD initial) := by
  rw [List.findSome?_cons]
  cases field s <;> rfl

/-- Nearer settings are applied to what the farther ones give. -/
theorem nearest_cons (s : Settings) (layers : List Settings) :
    nearest (s :: layers) = (nearest layers).apply s := by
  simp only [nearest, apply, findSome?_cons_getD, findSome?_cons_map_getD]

theorem ofSettings_eq_nearest (settings : List Settings) :
    ofSettings settings = nearest settings.reverse := by
  induction settings using List.reverseRecOn with
  | nil => rfl
  | append_singleton settings s ih =>
      rw [List.reverse_append, List.reverse_singleton, List.singleton_append, nearest_cons, ← ih,
        ofSettings, List.foldl_append]
      rfl

/-! ## Documents -/

/-- Of paths that differ in their components, those stay that differ from the ones before them. -/
theorem foldl_distinct (kept : List Path) {paths : List Path}
    (differ : paths.Pairwise fun p q => p.components ≠ q.components) :
    paths.foldl (fun kept path =>
      if kept.any fun other => other.components == path.components then kept
      else kept ++ [path]) kept =
        kept ++ paths.filter fun path =>
          kept.all fun other => other.components != path.components := by
  induction paths generalizing kept with
  | nil => simp
  | cons path paths ih =>
      obtain ⟨other, differ⟩ := List.pairwise_cons.mp differ
      rw [List.foldl_cons, ih _ differ, List.filter_cons]
      by_cases seen : ∃ q ∈ kept, q.components = path.components
      · have any : (kept.any fun q => q.components == path.components) = true := by
          simpa using seen
        have all : (kept.all fun q => q.components != path.components) = false := by
          simpa using seen
        rw [any, all]
        simp
      · have any : (kept.any fun q => q.components == path.components) = false := by
          simpa using seen
        have all : (kept.all fun q => q.components != path.components) = true := by
          simpa using seen
        have same :
            paths.filter (fun q => (kept ++ [path]).all fun r => r.components != q.components) =
              paths.filter fun q => kept.all fun r => r.components != q.components := by
          apply List.filter_congr
          intro q hq
          simp [other q hq]
        rw [any, all, if_neg Bool.false_ne_true, same, if_pos rfl, List.append_assoc,
          List.singleton_append]

theorem distinct_toList_append (first : Option Path) {paths : List Path}
    (differ : paths.Pairwise fun p q => p.components ≠ q.components) :
    distinct (first.toList ++ paths) = first.toList ++
      paths.filter fun path => first.all fun other => other.components != path.components := by
  rw [distinct, List.foldl_append]
  cases first with
  | none => exact foldl_distinct [] differ
  | some first => simpa using foldl_distinct [first] differ

theorem not_mem_documentName : '/' ∉ documentName := by decide

theorem components_document (directory : Path) :
    (directory.join documentName).components = directory.components ++ [documentName] :=
  Path.components_join not_mem_documentName (by decide) directory

end Config

namespace Machine

variable {m : Machine} {path directory : Path}

/-- The settings of the document a path leads to, unless it cannot be read or makes no sense. -/
def settings? (m : Machine) (path : Path) : Option Settings :=
  match m.read path with
  | .error _ => none
  | .ok bytes => (String.fromUTF8? bytes).bind fun text => Settings.parse? text.toList

/-- The settings of the document in a directory. -/
def settingsIn? (m : Machine) (directory : Path) : Option Settings :=
  m.settings? (directory.join Config.documentName)

/-- The path of the document in a directory, if there is one. -/
def document? (m : Machine) (directory : Path) : Option Path :=
  if m.kind? (directory.join Config.documentName) == some .file then
    some (directory.join Config.documentName)
  else none

/-- Whether a directory is the home directory. -/
def isHome (m : Machine) (directory : Path) : Bool :=
  m.home?.any fun home => home.components == directory.components

theorem kind?_of_read {bytes : ByteArray} (h : m.read path = .ok bytes) :
    m.kind? path = some .file := by
  rw [read] at h
  rw [kind?]
  cases hr : m.resolve path with
  | error e =>
      rw [hr] at h
      cases h
  | ok location =>
      rw [hr] at h
      cases hf : m.fileAt? location with
      | none => simp [bind, Except.bind, hf] at h
      | some contents => simp [kindAt?, hf]

/-- Where there is no document there are no settings. -/
theorem bind_document? (directory : Path) :
    (m.document? directory).bind m.settings? = m.settingsIn? directory := by
  rw [document?]
  split
  · rfl
  · next other =>
      rw [settingsIn?, settings?]
      cases hr : m.read (directory.join Config.documentName) with
      | error e => rfl
      | ok bytes => exact absurd (by rw [kind?_of_read hr]; rfl) other

theorem moves_document (directory : Path) :
    (directory.join Config.documentName).pieces.getLast?.any Path.isIdle = false := by
  rw [Path.getLast?_pieces_join Config.not_mem_documentName]
  decide

theorem resolve_document_congr {other : Path} (same : directory.components = other.components) :
    m.resolve (directory.join Config.documentName) =
      m.resolve (other.join Config.documentName) := by
  apply resolve_congr _ _ (moves_document _) (moves_document _)
  · rw [Config.components_document, Config.components_document, same]
  · simp [Config.components_document]

/-- Directories with the same components hold the same settings. -/
theorem settingsIn?_congr {other : Path} (same : directory.components = other.components) :
    m.settingsIn? directory = m.settingsIn? other := by
  simp only [settingsIn?, settings?, read, resolve_document_congr same]

theorem isSome_document?_congr {other : Path} (same : directory.components = other.components) :
    (m.document? directory).isSome = (m.document? other).isSome := by
  have isSome (directory : Path) : (m.document? directory).isSome =
      (m.kind? (directory.join Config.documentName) == some .file) := by
    rw [document?]
    split
    · next file => exact file.symm
    · next other => exact (Bool.eq_false_iff.mpr other).symm
  rw [isSome, isSome, kind?, kind?, resolve_document_congr same]

theorem eq_of_document? (h : m.document? directory = some path) :
    path = directory.join Config.documentName := by
  rw [document?] at h
  split at h
  · exact (Option.some.inj h).symm
  · cases h

/-- A document has the components of that of the home directory if it lies there. -/
theorem all_document?_eq (h : m.document? directory = some path) :
    ((m.home?.bind m.document?).all fun other => other.components != path.components) =
      !m.isHome directory := by
  cases hh : m.home? with
  | none => simp [isHome, hh]
  | some home =>
      have there : m.isHome directory = (home.components == directory.components) := by
        simp [isHome, hh]
      rw [there, Option.bind_some]
      cases hd : m.document? home with
      | none =>
          have other : home.components ≠ directory.components := by
            intro same
            have both := isSome_document?_congr (m := m) same
            rw [hd, h] at both
            cases both
          simpa using other
      | some document =>
          rw [eq_of_document? h, eq_of_document? hd, Option.all_some, Config.components_document,
            Config.components_document]
          simp [bne]

/-! ## The search -/

theorem run_documentIn? (directory : Path) :
    (Config.documentIn? directory : StateM Machine _).run m = (m.document? directory, m) := rfl

theorem run_settingsIn? (path : Path) :
    (Config.settingsIn? path : StateM Machine _).run m = (m.settings? path, m) := by
  have read : (Host.read path : StateM Machine _).run m = (m.read path, m) := rfl
  rw [Config.settingsIn?, Host.readText, bind_assoc, run_bind_eq _ read, settings?]
  cases m.read path with
  | error e => rfl
  | ok bytes =>
      cases hb : String.fromUTF8? bytes with
      | none => simp only [hb]; rfl
      | some text => simp only [hb]; rfl

theorem pairwise_documents (start : Path) :
    (start.ancestors.reverse.filterMap m.document?).Pairwise
      fun p q => p.components ≠ q.components := by
  apply List.Pairwise.filterMap m.document? (R := fun p q => p.components ≠ q.components)
  · intro p q differ _ hp _ hq same
    rw [eq_of_document? hp, eq_of_document? hq, Config.components_document,
      Config.components_document] at same
    exact differ (List.append_cancel_right same)
  · rw [List.pairwise_reverse]
    exact start.pairwise_ancestors.imp Ne.symm

theorem run_documents {start : Path} (directory : m.kind? start = some .directory) :
    (Config.documents start : StateM Machine _).run m =
      ((m.home?.bind m.document?).toList ++
        (start.ancestors.reverse.filterMap m.document?).filter fun path =>
          (m.home?.bind m.document?).all fun other => other.components != path.components,
       m) := by
  have home : (Host.home? : StateM Machine _).run m = (m.home?, m) := rfl
  have kind : (Host.kind? start : StateM Machine _).run m = (m.kind? start, m) := rfl
  have begins : (Config.startDirectory start : StateM Machine _).run m = (start, m) := by
    rw [Config.startDirectory, run_bind_eq _ kind, directory]
    rfl
  have above : (start.ancestors.reverse.mapM Config.documentIn? : StateM Machine _).run m =
      (start.ancestors.reverse.map m.document?, m) := run_mapM_of_reads run_documentIn? _
  have listed : (start.ancestors.reverse.map m.document?).filterMap id =
      start.ancestors.reverse.filterMap m.document? := List.filterMap_map
  rw [← Config.distinct_toList_append _ (pairwise_documents start), ← listed, Config.documents,
    run_bind_eq _ home]
  cases hh : m.home? with
  | none =>
      simp only [pure_bind]
      rw [run_bind_eq _ begins, run_bind_eq _ above]
      rfl
  | some home =>
      rw [run_bind_eq _ (run_documentIn? home), run_bind_eq _ begins, run_bind_eq _ above]
      rfl

/-- The settings of the documents that lie elsewhere than in the home directory. -/
theorem filterMap_settings? (directories : List Path) :
    ((directories.filterMap m.document?).filter fun path =>
        (m.home?.bind m.document?).all fun other =>
          other.components != path.components).filterMap m.settings? =
      (directories.filter fun d => !m.isHome d).filterMap m.settingsIn? := by
  induction directories with
  | nil => rfl
  | cons directory directories ih =>
      have here := m.bind_document? directory
      rw [List.filterMap_cons]
      cases hd : m.document? directory with
      | none =>
          rw [hd, Option.bind_none] at here
          rw [ih, List.filter_cons]
          split
          · rw [List.filterMap_cons, ← here]
          · rfl
      | some path =>
          rw [hd, Option.bind_some] at here
          simp only [List.filter_cons, all_document?_eq hd]
          split
          · rw [List.filterMap_cons, List.filterMap_cons, here, ih]
          · exact ih

/-- What a search makes of the documents it finds. -/
theorem run_discover {start : Path} (directory : m.kind? start = some .directory) :
    (Config.discover start : StateM Machine _).run m =
      (Config.nearest ((start.ancestors.filter fun d => !m.isHome d).filterMap m.settingsIn? ++
        (m.home?.bind m.settingsIn?).toList), m) := by
  have home : (m.home?.bind m.document?).toList.filterMap m.settings? =
      (m.home?.bind m.settingsIn?).toList := by
    cases hh : m.home? with
    | none => rfl
    | some home =>
        rw [Option.bind_some, Option.bind_some, ← bind_document?]
        cases m.document? home with
        | none => rfl
        | some document =>
            rw [Option.bind_some, Option.toList_some, List.filterMap_cons]
            cases m.settings? document <;> rfl
  rw [Config.discover, run_bind_eq _ (run_documents directory),
    run_bind_eq _ (run_mapM_of_reads run_settingsIn? _), StateT.run_pure,
    Config.ofSettings_eq_nearest, List.filterMap_map, Function.id_comp, List.filterMap_append,
    List.reverse_append, home]
  have alone : (m.home?.bind m.settingsIn?).toList.reverse =
      (m.home?.bind m.settingsIn?).toList := by
    cases m.home?.bind m.settingsIn? <;> rfl
  rw [alone, List.filterMap_reverse, List.filter_reverse, List.filterMap_reverse,
    List.reverse_reverse, filterMap_settings?]
  rfl

/-- Settings that come twice count once. -/
theorem nearest_append_twice (near : List Settings) (settings : Option Settings) :
    Config.nearest (near ++ settings.toList ++ settings.toList) =
      Config.nearest (near ++ settings.toList) := by
  apply Config.nearest_congr
  intro α field
  rw [List.append_assoc, List.findSome?_append, List.findSome?_append, List.findSome?_append,
    Option.or_self]

/-- If the home directory is not below other settings, it makes no difference whether its document
    comes first or in its place. -/
theorem nearest_filter_isHome {directories : List Path}
    (bare : ∀ d ∈ (directories.dropWhile fun d => !m.isHome d).tail, m.settingsIn? d = none) :
    Config.nearest ((directories.filter fun d => !m.isHome d).filterMap m.settingsIn? ++
        (m.home?.bind m.settingsIn?).toList) =
      Config.nearest (directories.filterMap m.settingsIn? ++
        (m.home?.bind m.settingsIn?).toList) := by
  have whole := List.takeWhile_append_dropWhile (p := fun d => !m.isHome d) (l := directories)
  have near : (directories.takeWhile fun d => !m.isHome d).filter (fun d => !m.isHome d) =
      directories.takeWhile fun d => !m.isHome d :=
    List.filter_eq_self.mpr fun d hd => List.mem_takeWhile_imp (p := fun d => !m.isHome d) hd
  generalize directories.takeWhile (fun d => !m.isHome d) = before at whole near
  cases far : directories.dropWhile fun d => !m.isHome d with
  | nil =>
      rw [far, List.append_nil] at whole
      rw [← whole, near]
  | cons home above =>
      have isHome : m.isHome home := by
        have ends := List.head_dropWhile_not (p := fun d => !m.isHome d) (l := directories)
          (by simp [far])
        simpa [far] using ends
      have settings : m.settingsIn? home = m.home?.bind m.settingsIn? := by
        cases hh : m.home? with
        | none => simp [Machine.isHome, hh] at isHome
        | some other =>
            have same : other.components = home.components := by
              simpa [Machine.isHome, hh] using isHome
            exact (settingsIn?_congr same).symm
      have none (kept : List Path) (sub : ∀ d ∈ kept, d ∈ above) :
          kept.filterMap m.settingsIn? = [] := by
        rw [List.filterMap_eq_nil_iff]
        intro d hd
        exact bare d (by rw [far]; exact sub d hd)
      have there : (home :: above).filterMap m.settingsIn? =
          (m.home?.bind m.settingsIn?).toList := by
        rw [List.filterMap_cons, none above fun _ hd => hd, settings]
        cases m.home?.bind m.settingsIn? <;> rfl
      rw [far] at whole
      rw [← whole, List.filter_append, near, List.filter_cons_of_neg (by simp [isHome]),
        List.filterMap_append, List.filterMap_append, none _ fun d hd => List.mem_of_mem_filter hd,
        List.append_nil, there, nearest_append_twice]

end Machine

/-- A search gives each field as the nearest settings have it: those of the directories above the
    start, nearest first, and behind them those of the home directory. The home directory counts
    in this last place only. If no other settings lie above it on the way, this makes no
    difference. -/
theorem discover_eq_nearest (m : Machine) {start : Path}
    (directory : m.kind? start = some .directory) :
    let home := (m.home?.bind m.settingsIn?).toList
    (Config.discover start : StateM Machine Config).run m =
        (Config.nearest
          ((start.ancestors.filter fun d => !m.isHome d).filterMap m.settingsIn? ++ home), m) ∧
      ((∀ d ∈ (start.ancestors.dropWhile fun d => !m.isHome d).tail, m.settingsIn? d = none) →
        (Config.discover start : StateM Machine Config).run m =
          (Config.nearest (start.ancestors.filterMap m.settingsIn? ++ home), m)) := by
  have search := Machine.run_discover directory
  refine ⟨search, fun bare => ?_⟩
  rw [search, Machine.nearest_filter_isHome bare]

/-- A home directory on the way, below a document that cannot be read. -/
theorem discover_eq_nearest_of_home :
    let m : Machine := {
      files := [(["pep8check.toml".toList], "tab_size".toUTF8),
        (["p".toList, "pep8check.toml".toList], "max_line_length = 90\ntab_size = 4\n".toUTF8),
        (["p".toList, "q".toList, "pep8check.toml".toList], "max_line_length = 80\n".toUTF8)]
      directories := [["p".toList, "q".toList, "r".toList]]
      home? := some "/p".toList }
    let start : Path := "/p/q/r".toList
    m.kind? start = some .directory ∧
      (∀ d ∈ (start.ancestors.dropWhile fun d => !m.isHome d).tail, m.settingsIn? d = none) ∧
      (Config.discover start : StateM Machine Config).run m =
        (Config.nearest (start.ancestors.filterMap m.settingsIn? ++
          (m.home?.bind m.settingsIn?).toList), m) ∧
      ((Config.discover start : StateM Machine Config).run m).1 =
        { maxLineLength := 80, tabSize := 4 } := by
  intro m start
  have directory : m.kind? start = some .directory := by decide +kernel
  have bare : ∀ d ∈ (start.ancestors.dropWhile fun d => !m.isHome d).tail,
      m.settingsIn? d = none := by
    decide +kernel
  exact ⟨directory, bare, (discover_eq_nearest m directory).2 bare, by decide +kernel⟩

/-- The document of the start is nearer than the one at the root, but as the start is the home
    directory, it counts as the farther of the two. -/
theorem discover_ne_nearest_of_home :
    let m : Machine := {
      files := [(["pep8check.toml".toList], "max_line_length = 100\n".toUTF8),
        (["p".toList, "pep8check.toml".toList], "max_line_length = 90\n".toUTF8)]
      home? := some "/p".toList }
    let start : Path := "/p".toList
    m.kind? start = some .directory ∧
      (m.settingsIn? start).bind Settings.maxLineLength = some 90 ∧
      ((Config.discover start : StateM Machine Config).run m).1.maxLineLength = 100 ∧
      (Config.discover start : StateM Machine Config).run m ≠
        (Config.nearest (start.ancestors.filterMap m.settingsIn? ++
          (m.home?.bind m.settingsIn?).toList), m) := by
  intro m start
  have far : ((Config.discover start : StateM Machine Config).run m).1.maxLineLength = 100 := by
    decide +kernel
  have near : (Config.nearest (start.ancestors.filterMap m.settingsIn? ++
      (m.home?.bind m.settingsIn?).toList)).maxLineLength = 90 := by
    decide +kernel
  refine ⟨by decide +kernel, by decide +kernel, far, fun same => ?_⟩
  rw [same, near] at far
  cases far

end StyleGuide
