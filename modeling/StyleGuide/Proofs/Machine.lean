import StyleGuide.Machine
import StyleGuide.Proofs.Path

/-! # What a machine does

Where a path leads to depends on its components. Programs that only read leave the machine as it
is.
-/

namespace StyleGuide.Machine

variable {m : Machine} {path path' : Path} {α β : Type}

/-- What comes behind a step sees its answer and the machine that it leaves. -/
theorem run_bind_eq {m' : Machine} {x : StateM Machine α} {a : α} (k : α → StateM Machine β)
    (h : x.run m = (a, m')) : (x >>= k).run m = (k a).run m' := by
  rw [StateT.run_bind, h]
  rfl

/-- Asking a machine one question after another gives the answers in order. -/
theorem run_mapM_of_reads {f : α → StateM Machine β} {g : α → β}
    (reads : ∀ a, (f a).run m = (g a, m)) (l : List α) :
    (l.mapM f).run m = (l.map g, m) := by
  induction l with
  | nil => rfl
  | cons a l ih =>
      rw [List.mapM_cons, run_bind_eq _ (reads a), run_bind_eq _ ih]
      rfl

theorem resolve_eq (some : path ≠ []) (moves : path.pieces.getLast?.any Path.isIdle = false) :
    m.resolve path =
      path.names.foldlM m.follow (if path.isAbsolute then [] else m.workingDirectory) := by
  have filled : path.isEmpty = false := by simpa using some
  simp only [resolve, filled, moves, Bool.false_and, Bool.false_eq_true, if_false]
  exact bind_pure _

/-- Paths with the same components and a name at the end lead to the same location. -/
theorem resolve_congr (same : path.components = path'.components) (some : path.components ≠ [])
    (moves : path.pieces.getLast?.any Path.isIdle = false)
    (moves' : path'.pieces.getLast?.any Path.isIdle = false) :
    m.resolve path = m.resolve path' := by
  have filled {path : Path} (some : path.components ≠ []) : path ≠ [] := by
    rintro rfl
    exact some Path.components_nil
  rw [resolve_eq (filled some) moves, resolve_eq (filled (same ▸ some)) moves',
    Path.names_eq_filter, Path.isAbsolute_eq_components, same, ← Path.names_eq_filter,
    ← Path.isAbsolute_eq_components]

theorem read_of_fileAt? {location : Location} {contents : ByteArray}
    (resolved : m.resolve path = .ok location) (found : m.fileAt? location = some contents) :
    m.read path = .ok contents := by
  simp only [read, resolved, bind, Except.bind, found]

/-! ## Writing -/

variable {location place directory : Location} {contents : ByteArray} {name : Text}

/-- The machine with new content for the file at a location. -/
def store (m : Machine) (location : Location) (contents : ByteArray) : Machine :=
  { m with files := put location contents m.files }

theorem write_eq (m : Machine) (path : Path) (contents : ByteArray) : m.write path contents =
    match m.resolve path with
    | .error e => .error e
    | .ok location =>
      if m.kindAt? location = some .directory then .error .isADirectory
      else .ok (m.store location contents) := by
  rw [write]
  cases m.resolve path <;> rfl

theorem lookup_cons_eq (file : Location × ByteArray) (files : List (Location × ByteArray)) :
    (file :: files).lookup place = if place = file.1 then some file.2 else files.lookup place := by
  rw [List.lookup_cons]
  by_cases same : place = file.1
  · rw [if_pos same, beq_iff_eq.mpr same]
  · rw [if_neg same, beq_false_of_ne same]

theorem lookup_put (files : List (Location × ByteArray)) :
    (put location contents files).lookup place =
      if place = location then some contents else files.lookup place := by
  induction files with
  | nil => exact lookup_cons_eq _ _
  | cons file files ih =>
      rw [put, lookup_cons_eq]
      by_cases here : file.1 = location
      · rw [if_pos here, lookup_cons_eq, here]
        split <;> rfl
      · rw [if_neg here, lookup_cons_eq, ih]
        split
        · next same => rw [if_neg (same ▸ here)]
        · rfl

theorem fileAt?_store : (m.store location contents).fileAt? place =
    if place = location then some contents else m.fileAt? place := lookup_put m.files

theorem mem_map_put (files : List (Location × ByteArray)) :
    place ∈ (put location contents files).map Prod.fst ↔
      place = location ∨ place ∈ files.map Prod.fst := by
  induction files with
  | nil => simp [put]
  | cons file files ih =>
      rw [put]
      split
      · next here =>
          simp only [List.map_cons, List.mem_cons, here]
          tauto
      · simp only [List.map_cons, List.mem_cons, ih]
        tauto

theorem mem_locations_store : place ∈ (m.store location contents).locations ↔
    place = location ∨ place ∈ m.locations := by
  simp only [locations, List.mem_append, store, mem_map_put]
  tauto

theorem kindAt?_eq_directory_iff : m.kindAt? place = some .directory ↔
    m.fileAt? place = none ∧ (place = [] ∨ ∃ other ∈ m.locations, place <+: other) := by
  rw [kindAt?]
  cases m.fileAt? place with
  | some contents => simp
  | none =>
      simp only [Option.isSome_none, Bool.false_eq_true, if_false, Bool.or_eq_true,
        List.isEmpty_iff, List.any_eq_true, List.isPrefixOf_iff_prefix, true_and]
      split
      · next there => simpa using there
      · next there => simpa using there

theorem kindAt?_eq_file_iff : m.kindAt? place = some .file ↔ (m.fileAt? place).isSome := by
  rw [kindAt?]
  split
  · next file => simp [file]
  · next other =>
      split <;> simp [other]

theorem mem_locations_of_file (h : m.kindAt? location = some .file) : location ∈ m.locations := by
  have listed (files : List (Location × ByteArray)) (h : (files.lookup location).isSome) :
      location ∈ files.map Prod.fst := by
    induction files with
    | nil => cases h
    | cons file files ih =>
        rw [lookup_cons_eq] at h
        split at h
        · next here => exact List.mem_cons.mpr (.inl here)
        · exact List.mem_cons_of_mem _ (ih h)
  exact List.mem_append_left _ (listed m.files (kindAt?_eq_file_iff.mp h))

/-- Where a file can be written: in the place of one, or under a new name in a directory. -/
def Takes (m : Machine) (location : Location) : Prop :=
  m.kindAt? location = some .file ∨ m.kindAt? location = none ∧
    ∃ directory name, location = directory ++ [name] ∧ m.kindAt? directory = some .directory

/-- What is above a place that takes a file is there without the file. -/
theorem Takes.exists_of_prefix (takes : m.Takes location) (front : place <+: location)
    (other : place ≠ location) : place = [] ∨ ∃ other ∈ m.locations, place <+: other := by
  rcases takes with file | ⟨-, directory, name, rfl, inside⟩
  · exact .inr ⟨location, mem_locations_of_file file, front⟩
  · have up : place <+: directory := (List.prefix_concat_iff.mp front).resolve_left other
    rcases (kindAt?_eq_directory_iff.mp inside).2 with root | ⟨other, mem, front⟩
    · rw [root, List.prefix_nil] at up
      exact .inl up
    · exact .inr ⟨other, mem, up.trans front⟩

/-- A file that is written is all that is new. -/
theorem kindAt?_store (takes : m.Takes location) : (m.store location contents).kindAt? place =
    if place = location then some .file else m.kindAt? place := by
  by_cases here : place = location
  · rw [if_pos here, kindAt?_eq_file_iff, fileAt?_store, if_pos here]
    rfl
  · have same : (m.store location contents).fileAt? place = m.fileAt? place := by
      rw [fileAt?_store, if_neg here]
    have directories : (m.store location contents).kindAt? place = some .directory ↔
        m.kindAt? place = some .directory := by
      rw [kindAt?_eq_directory_iff, kindAt?_eq_directory_iff, same]
      simp only [mem_locations_store]
      constructor
      · rintro ⟨none, root | ⟨other, rfl | mem, front⟩⟩
        · exact ⟨none, .inl root⟩
        · exact ⟨none, takes.exists_of_prefix front here⟩
        · exact ⟨none, .inr ⟨other, mem, front⟩⟩
      · rintro ⟨none, root | ⟨other, mem, front⟩⟩
        · exact ⟨none, .inl root⟩
        · exact ⟨none, .inr ⟨other, .inr mem, front⟩⟩
    have files : (m.store location contents).kindAt? place = some .file ↔
        m.kindAt? place = some .file := by
      rw [kindAt?_eq_file_iff, kindAt?_eq_file_iff, same]
    rw [if_neg here]
    apply Option.ext
    rintro (_ | _)
    · exact files
    · exact directories

/-! ## Growing machines -/

/-- A machine in which everything stays that is there in another, and no directories are new. -/
structure Grows (m m' : Machine) : Prop where
  workingDirectory : m'.workingDirectory = m.workingDirectory
  persists : ∀ location kind, m.kindAt? location = some kind → m'.kindAt? location = some kind
  directory : ∀ location, m'.kindAt? location = some .directory →
    m.kindAt? location = some .directory

namespace Grows

variable {m' m'' : Machine}

theorem refl (m : Machine) : Grows m m := ⟨rfl, fun _ _ h => h, fun _ h => h⟩

theorem trans (h : Grows m m') (h' : Grows m' m'') : Grows m m'' where
  workingDirectory := h'.workingDirectory.trans h.workingDirectory
  persists location kind there := h'.persists _ _ (h.persists location kind there)
  directory location there := h.directory _ (h'.directory location there)

theorem store (takes : m.Takes location) : Grows m (m.store location contents) where
  workingDirectory := rfl
  persists place kind there := by
    rw [kindAt?_store takes]
    split
    · next here =>
        rcases takes with file | ⟨none, -⟩
        · rw [← there, here, file]
        · rw [here, none] at there
          cases there
    · exact there
  directory place there := by
    rw [kindAt?_store takes] at there
    split at there
    · cases there
    · exact there

/-- A way that leads somewhere leads there still. -/
theorem foldlM_follow (h : Grows m m') {names : List Text}
    (leads : names.foldlM m.follow location = .ok place) :
    names.foldlM m'.follow location = .ok place := by
  induction names generalizing location with
  | nil => exact leads
  | cons name names ih =>
      rw [List.foldlM_cons] at leads ⊢
      have step {next : Location} (goes : m.follow location name = .ok next) :
          m'.follow location name = .ok next := by
        rw [follow] at goes ⊢
        split at goes
        · cases goes
        · cases goes
        · next inside =>
            rw [h.persists _ _ inside]
            exact goes
      cases goes : m.follow location name with
      | error e =>
          rw [goes] at leads
          cases leads
      | ok next =>
          rw [goes] at leads
          rw [step goes]
          exact ih leads

end Grows

/-! ## Where files lie -/

/-- A path leads to a file by following names, the last of them from a directory. -/
structure LeadsToFile (m : Machine) (path : Path) (front : List Text) (name : Text)
    (directory : Location) : Prop where
  names : path.names = front ++ [name]
  leads : front.foldlM m.follow (if path.isAbsolute then [] else m.workingDirectory) =
    .ok directory
  inside : m.kindAt? directory = some .directory
  moves : path.pieces.getLast?.any Path.isIdle = false
  file : ∃ location, m.follow directory name = .ok location ∧ m.kindAt? location = some .file

theorem walk_of_resolve (h : m.resolve path = .ok location)
    (file : m.kindAt? location = some .file) :
    path.pieces.getLast?.any Path.isIdle = false ∧
      path.names.foldlM m.follow (if path.isAbsolute then [] else m.workingDirectory) =
        .ok location := by
  simp only [resolve] at h
  split at h
  · cases h
  · cases walk : path.names.foldlM m.follow
        (if path.isAbsolute then [] else m.workingDirectory) with
    | error e =>
        rw [walk] at h
        cases h
    | ok place =>
        rw [walk] at h
        change (if path.pieces.getLast?.any Path.isIdle && m.kindAt? place == some .file then
          Except.error FileError.notADirectory else Except.ok place) = .ok location at h
        split at h
        · cases h
        · next other =>
            obtain rfl : place = location := Except.ok.inj h
            have same : (m.kindAt? place == some .file) = true := by rw [file]; rfl
            rw [same, Bool.and_true, Bool.not_eq_true] at other
            exact ⟨other, rfl⟩

/-- Following one more name is a step from where the others lead. -/
theorem foldlM_follow_concat {front : List Text} (start : Location) :
    (front ++ [name]).foldlM m.follow start =
      (do m.follow (← front.foldlM m.follow start) name) := by
  rw [List.foldlM_append]
  congr 1
  funext place
  rw [List.foldlM_cons]
  exact bind_pure _

/-- A path that leads to a file ends in a name. -/
theorem exists_leadsToFile (h : m.kind? path = some .file) :
    ∃ front name directory, m.LeadsToFile path front name directory := by
  rw [kind?] at h
  split at h
  · cases h
  · next location resolved =>
      obtain ⟨moves, walk⟩ := walk_of_resolve resolved h
      rcases List.eq_nil_or_concat path.names with none | ⟨front, name, split⟩
      · have idle : path.pieces.getLast?.any Path.isIdle = true := by
          obtain ⟨pieces, last, hp⟩ :=
            (List.eq_nil_or_concat path.pieces).resolve_left path.pieces_ne_nil
          rw [List.concat_eq_append] at hp
          have all := List.filter_eq_nil_iff.mp none
          simpa [hp] using all last (by simp [hp])
        rw [idle] at moves
        cases moves
      · rw [List.concat_eq_append] at split
        rw [split, foldlM_follow_concat] at walk
        cases before : front.foldlM m.follow
            (if path.isAbsolute then [] else m.workingDirectory) with
        | error e =>
            rw [before] at walk
            cases walk
        | ok directory =>
            rw [before] at walk
            have follows : m.follow directory name = .ok location := walk
            have inside : m.kindAt? directory = some .directory := by
              rw [follow] at follows
              split at follows
              · cases follows
              · cases follows
              · assumption
            exact ⟨front, name, directory, split, before, inside, moves, location, follows, h⟩

namespace LeadsToFile

variable {m' : Machine} {front : List Text}

theorem ne_nil (h : m.LeadsToFile path front name directory) : path ≠ [] := by
  rintro rfl
  have none : Path.names [] = [] := rfl
  rw [h.names] at none
  simp at none

theorem resolve_eq (h : m.LeadsToFile path front name directory) :
    m.resolve path = m.follow directory name := by
  rw [Machine.resolve_eq h.ne_nil h.moves, h.names, foldlM_follow_concat, h.leads]
  rfl

/-- The file is still there in a machine that grows. -/
theorem grow (h : m.LeadsToFile path front name directory) (grows : Grows m m') :
    m'.LeadsToFile path front name directory where
  names := h.names
  leads := by
    rw [grows.workingDirectory]
    exact grows.foldlM_follow h.leads
  inside := grows.persists _ _ h.inside
  moves := h.moves
  file := by
    obtain ⟨location, follows, file⟩ := h.file
    refine ⟨location, ?_, grows.persists _ _ file⟩
    rw [follow, h.inside] at follows
    rw [follow, grows.persists _ _ h.inside]
    exact follows

theorem resolve_eq_of_grows (h : m.LeadsToFile path front name directory) (grows : Grows m m') :
    m'.resolve path = m.resolve path := by
  rw [h.resolve_eq, (h.grow grows).resolve_eq, follow, follow, h.inside,
    grows.persists _ _ h.inside]

end LeadsToFile

theorem kind?_of_grows {m' : Machine} (file : m.kind? path = some .file) (grows : Grows m m') :
    m'.kind? path = some .file := by
  obtain ⟨front, name, directory, leads⟩ := exists_leadsToFile file
  rw [kind?, leads.resolve_eq_of_grows grows]
  rw [kind?] at file
  split at file
  · cases file
  · exact grows.persists _ _ file

namespace LeadsToFile

variable {front : List Text} {new : Text}

/-- With another name at its end the path leads to a place beside the file. -/
theorem resolve_withFileName (h : m.LeadsToFile path front name directory)
    (named : name ≠ Path.above) (free : '/' ∉ new) (moves : Path.isIdle new = false)
    (other : new ≠ Path.above) :
    m.resolve (path.withFileName new) = .ok (directory ++ [new]) := by
  obtain ⟨names, absolute⟩ := Path.names_withFileName h.names named free moves
  have some : path.withFileName new ≠ [] := by
    intro none
    rw [none] at names
    simp [Path.names, Path.pieces, Text.splitOn, Path.isIdle] at names
  have last : (path.withFileName new).pieces.getLast?.any Path.isIdle = false := by
    rw [Path.getLast?_pieces_withFileName free, Option.any_some, moves]
  rw [Machine.resolve_eq some last, names, absolute, foldlM_follow_concat, h.leads]
  change m.follow directory new = _
  rw [follow, h.inside]
  exact congrArg Except.ok (if_neg other)

/-- A path that leads upwards at its end has no name there to be changed, and nothing lies behind a
    file. -/
theorem resolve_withFileName_of_above (h : m.LeadsToFile path front Path.above directory)
    (free : '/' ∉ new) (moves : Path.isIdle new = false) :
    m.resolve (path.withFileName new) = .error .notADirectory := by
  have joined : path.withFileName new = path.join new := by
    have none : path.fileName? = none := by
      rw [Path.fileName?, h.names, List.getLast?_concat]
      simp
    rw [Path.withFileName, none]
    rfl
  obtain ⟨names, absolute⟩ := Path.names_join free moves path
  have some : path.join new ≠ [] := by
    intro none
    rw [none] at names
    simp [Path.names, Path.pieces, Text.splitOn, Path.isIdle] at names
  have last : (path.join new).pieces.getLast?.any Path.isIdle = false := by
    rw [Path.getLast?_pieces_join free, Option.any_some, moves]
  obtain ⟨location, follows, file⟩ := h.file
  rw [joined, Machine.resolve_eq some last, names, absolute, foldlM_follow_concat, h.names,
    foldlM_follow_concat, h.leads]
  change (do m.follow (← m.follow directory Path.above) new) = _
  rw [follows]
  change m.follow location new = _
  rw [follow, file]

end LeadsToFile

end StyleGuide.Machine
