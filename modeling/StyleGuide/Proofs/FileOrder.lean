import StyleGuide.FileCheck
import StyleGuide.Proofs.Checker.Run
import StyleGuide.Proofs.Machine

/-! # The order in which files are checked

Checking a file reads it and may write one place: the file itself or the place beside it that takes
the mended source. As long as no place that is written is another file of the list, each file is
read as it was at first, and the files may be checked in any order.
-/

namespace StyleGuide

namespace Checker

variable {c : Checker} {m m' : Machine} {path : Path} {bytes contents : ByteArray}

/-! ## Checking one file -/

/-- The mended source of a file with this content, in the encoding of the file. -/
def mended? (c : Checker) (bytes : ByteArray) : Option ByteArray := do
  let report ← (c.check (Encoding.decode bytes).2).toOption
  let fixed ← report.fixed
  ((Encoding.decode bytes).1.encode fixed).toOption

/-- What a check says of a file with this content, provided that the mended source can be stored. -/
def verdict (c : Checker) (path : Path) (bytes : ByteArray) : Except CheckFailure FileReport :=
  match c.check (Encoding.decode bytes).2 with
  | .error e => .error (.malformed path e)
  | .ok report =>
    match report.fixed.map (Encoding.decode bytes).1.encode with
    | some (.error letter) => .error (.unwritable (c.target path) (.notLatin1 letter))
    | _ => .ok report

/-- A file is read, and its mended source is written if there is one. -/
theorem run_write (m : Machine) (path : Path) (contents : ByteArray) :
    (Host.write path contents : StateM Machine _).run m =
      match m.write path contents with
      | .error e => (.error e, m)
      | .ok m' => (.ok (), m') := by
  have asked : (get : StateM Machine Machine).run m = (m, m) := rfl
  change (get >>= fun m => match m.write path contents with
    | .error e => pure (.error e)
    | .ok m => do set m; return .ok () : StateM Machine (Except FileError Unit)).run m = _
  rw [Machine.run_bind_eq _ asked]
  cases m.write path contents <;> rfl

theorem run_checkFile (c : Checker) (m : Machine) (path : Path) :
    (c.checkFile path : StateM Machine _).run m =
      match m.read path with
      | .error e => (.error (.unreadable path e), m)
      | .ok bytes =>
        match c.mended? bytes with
        | none => (c.verdict path bytes, m)
        | some contents =>
          match m.write (c.target path) contents with
          | .error e => (.error (.unwritable (c.target path) e), m)
          | .ok m' => (c.verdict path bytes, m') := by
  have read : (Host.read path : StateM Machine _).run m = (m.read path, m) := rfl
  rw [checkFile, Machine.run_bind_eq _ read]
  cases m.read path with
  | error e => rfl
  | ok bytes =>
      simp only [mended?, verdict]
      cases c.check (Encoding.decode bytes).2 with
      | error e => rfl
      | ok report =>
          simp only [writeFixed]
          cases hf : report.fixed with
          | none => simp only [Except.toOption, Option.bind_eq_bind, Option.bind_some, hf]; rfl
          | some fixed =>
              cases he : (Encoding.decode bytes).1.encode fixed with
              | error letter =>
                  simp only [Except.toOption, Option.bind_eq_bind, Option.bind_some,
                    Option.map_some, hf, he]
                  rfl
              | ok contents =>
                  simp only [Except.toOption, Option.bind_eq_bind, Option.bind_some,
                    Option.map_some, hf, he, StateT.run_bind, run_write]
                  cases m.write (c.target path) contents <;> rfl

theorem mended?_eq_none (reads : c.config.fix = false) (bytes : ByteArray) :
    c.mended? bytes = none := by
  rw [mended?]
  cases checked : c.check (Encoding.decode bytes).2 with
  | error e => rfl
  | ok report =>
      have none : report.fixed = none := by
        simpa [reads] using isSome_fixed checked
      simp [Except.toOption, none]

/-! ## Where the mended source goes -/

theorem not_mem_fixedName (path : Path) :
    '/' ∉ "fixed_".toList ++ path.fileName?.getD [] := by
  have front : '/' ∉ "fixed_".toList := by decide
  rw [List.mem_append, not_or]
  refine ⟨front, ?_⟩
  rw [Path.fileName?]
  cases hn : path.names.getLast? with
  | none => exact List.not_mem_nil
  | some name =>
      have free := Path.not_mem_of_mem_names (List.mem_of_getLast? hn)
      rw [Option.filter_some]
      split
      · exact free
      · exact List.not_mem_nil

theorem moves_fixedName (name : Text) : Path.isIdle ("fixed_".toList ++ name) = false := by
  simp [Path.isIdle]

theorem fixedName_ne_above (name : Text) : "fixed_".toList ++ name ≠ Path.above := by
  simp [Path.above]

/-- The place beside a file, unless the path leads upwards at its end. -/
theorem resolve_fixedPath {front : List Text} {name : Text} {directory : Location}
    (h : m.LeadsToFile path front name directory) : m.resolve (fixedPath path) =
      if name = Path.above then .error .notADirectory
      else .ok (directory ++ ["fixed_".toList ++ name]) := by
  have free := not_mem_fixedName path
  rw [fixedPath]
  split
  · next above =>
      subst above
      exact h.resolve_withFileName_of_above free (moves_fixedName _)
  · next named =>
      have fileName : path.fileName? = some name := by
        rw [Path.fileName?, h.names, List.getLast?_concat]
        simp [named]
      rw [fileName, Option.getD_some] at free ⊢
      exact h.resolve_withFileName named free (moves_fixedName name) (fixedName_ne_above name)

theorem resolve_target_of_grows (file : m.kind? path = some .file) (grows : Machine.Grows m m') :
    m'.resolve (c.target path) = m.resolve (c.target path) := by
  obtain ⟨front, name, directory, leads⟩ := Machine.exists_leadsToFile file
  rw [target]
  split
  · exact leads.resolve_eq_of_grows grows
  · rw [resolve_fixedPath leads, resolve_fixedPath (leads.grow grows)]

/-- A place that is written takes a file. -/
theorem takes_of_resolve_target {location : Location} (file : m.kind? path = some .file)
    (resolved : m.resolve (c.target path) = .ok location)
    (other : m.kindAt? location ≠ some .directory) : m.Takes location := by
  obtain ⟨front, name, directory, leads⟩ := Machine.exists_leadsToFile file
  rw [target] at resolved
  split at resolved
  · rw [Machine.kind?, resolved] at file
    exact .inl file
  · rw [resolve_fixedPath leads] at resolved
    split at resolved
    · cases resolved
    · obtain rfl := Except.ok.inj resolved
      cases kind : m.kindAt? (directory ++ ["fixed_".toList ++ name]) with
      | none => exact .inr ⟨kind, directory, _, rfl, leads.inside⟩
      | some kind' =>
          cases kind' with
          | file => exact .inl kind
          | directory => exact absurd kind other

/-- Mended sources that go to one place come from one file. -/
theorem resolve_eq_of_target {path' : Path} {location : Location}
    (file : m.kind? path = some .file) (file' : m.kind? path' = some .file)
    (resolved : m.resolve (c.target path) = .ok location)
    (resolved' : m.resolve (c.target path') = .ok location) : m.resolve path = m.resolve path' := by
  obtain ⟨front, name, directory, leads⟩ := Machine.exists_leadsToFile file
  obtain ⟨front', name', directory', leads'⟩ := Machine.exists_leadsToFile file'
  rw [target] at resolved resolved'
  split at resolved
  · rw [if_pos (by assumption)] at resolved'
    rw [resolved, resolved']
  · rw [if_neg (by assumption), resolve_fixedPath leads'] at resolved'
    rw [resolve_fixedPath leads] at resolved
    split at resolved
    · cases resolved
    · split at resolved'
      · cases resolved'
      · next named named' =>
          have same := (Except.ok.inj resolved).trans (Except.ok.inj resolved').symm
          obtain ⟨directories, names⟩ := List.append_inj' same rfl
          obtain rfl := List.append_cancel_left (List.singleton_injective names)
          rw [leads.resolve_eq, leads'.resolve_eq, directories]

/-- Where checking a file puts what, if anywhere. -/
def write? (c : Checker) (m : Machine) (path : Path) : Option (Location × ByteArray) :=
  match (m.read path).toOption.bind c.mended?, m.resolve (c.target path) with
  | some contents, .ok location =>
    if m.kindAt? location = some .directory then none else some (location, contents)
  | _, _ => none

/-- What checking a file puts at a location, if anything. -/
def contentAt? (c : Checker) (m : Machine) (location : Location) (path : Path) :
    Option ByteArray :=
  (c.write? m path).bind fun written => if written.1 = location then some written.2 else none

theorem resolve_of_contentAt? {location : Location}
    (h : c.contentAt? m location path = some contents) :
    m.resolve (c.target path) = .ok location ∧ m.kindAt? location ≠ some .directory ∧
      ∃ bytes, m.read path = .ok bytes ∧ c.mended? bytes = some contents := by
  obtain ⟨⟨place, stored⟩, hw, here⟩ := Option.bind_eq_some_iff.mp h
  rw [write?] at hw
  split at hw
  · next mended resolved =>
      split at hw
      · cases hw
      · next other =>
          cases hw
          split at here
          · next same =>
              cases here
              cases same
              obtain ⟨bytes, read, mended⟩ := Option.bind_eq_some_iff.mp mended
              refine ⟨resolved, other, bytes, ?_, mended⟩
              cases hr : m.read path with
              | error e => simp [hr, Except.toOption] at read
              | ok bytes' => simpa [hr, Except.toOption] using read
          · cases here
  · cases hw

/-- The machine with what checking a file puts there. -/
theorem run_checkFile_snd (c : Checker) (m : Machine) (path : Path) :
    ((c.checkFile path : StateM Machine _).run m).2 =
      match c.write? m path with
      | none => m
      | some (location, contents) => m.store location contents := by
  rw [run_checkFile, write?]
  cases m.read path with
  | error e => rfl
  | ok bytes =>
      simp only [Except.toOption, Option.bind_some]
      cases c.mended? bytes with
      | none => rfl
      | some contents =>
          simp only [Machine.write_eq]
          cases m.resolve (c.target path) with
          | error e => rfl
          | ok location =>
              simp only
              by_cases there : m.kindAt? location = some .directory <;> simp [there]

/-- In a machine that has grown, a file that is as it was is checked as it was. -/
theorem run_checkFile_of_grows (file : m.kind? path = some .file) (grows : Machine.Grows m m')
    (read : m'.read path = m.read path) :
    ((c.checkFile path : StateM Machine _).run m').1 =
        ((c.checkFile path : StateM Machine _).run m).1 ∧
      c.write? m' path = c.write? m path := by
  have resolved := resolve_target_of_grows (c := c) file grows
  have directory (location : Location) : m'.kindAt? location = some .directory ↔
      m.kindAt? location = some .directory :=
    ⟨grows.directory location, grows.persists location _⟩
  constructor
  · rw [run_checkFile, run_checkFile, read]
    cases m.read path with
    | error e => rfl
    | ok bytes =>
        simp only [Machine.write_eq, resolved]
        cases c.mended? bytes with
        | none => rfl
        | some contents =>
            cases m.resolve (c.target path) with
            | error e => rfl
            | ok location =>
                by_cases there : m.kindAt? location = some .directory <;>
                  simp [directory, there]
  · simp only [write?, read, resolved, directory]

/-! ## Checking many files -/

/-- The machine after some files have been checked: a place has what the last of them put there, or
    what it had at first. -/
structure Reached (c : Checker) (m : Machine) (done : List Path) (m' : Machine) : Prop where
  grows : Machine.Grows m m'
  directories : m'.directories = m.directories
  home : m'.home? = m.home?
  fileAt : ∀ location,
    m'.fileAt? location = (done.findSome? (c.contentAt? m location) <|> m.fileAt? location)

/-- Checking one file does not touch another. -/
def Spares (c : Checker) (m : Machine) (path other : Path) : Prop :=
  ∀ location, m.resolve other = .ok location → c.contentAt? m location path = none

variable {done : List Path}

theorem Reached.start (c : Checker) (m : Machine) : c.Reached m [] m :=
  ⟨.refl m, rfl, rfl, fun _ => rfl⟩

theorem Reached.read_eq (h : c.Reached m done m') (file : m.kind? path = some .file)
    (spared : ∀ other ∈ done, c.Spares m other path) : m'.read path = m.read path := by
  obtain ⟨front, name, directory, leads⟩ := Machine.exists_leadsToFile file
  have resolve := leads.resolve_eq_of_grows h.grows
  cases resolved : m.resolve path with
  | error e =>
      rw [Machine.read, Machine.read, resolve, resolved]
      rfl
  | ok location =>
      have none : done.findSome? (c.contentAt? m location) = none := by
        rw [List.findSome?_eq_none_iff]
        intro other ho
        exact spared other ho location resolved
      have same : m'.fileAt? location = m.fileAt? location := by
        rw [h.fileAt, none]
        rfl
      have there : (m.fileAt? location).isSome := by
        rw [Machine.kind?, resolved] at file
        exact Machine.kindAt?_eq_file_iff.mp file
      obtain ⟨contents, hc⟩ := Option.isSome_iff_exists.mp there
      rw [Machine.read_of_fileAt? (resolve.trans resolved) (same.trans hc),
        Machine.read_of_fileAt? resolved hc]

/-- Checking one more file gives what it gives alone. -/
theorem Reached.step (h : c.Reached m done m') (file : m.kind? path = some .file)
    (spared : ∀ other ∈ done, c.Spares m other path) :
    ∃ m'', (c.checkFile path : StateM Machine _).run m' =
        (((c.checkFile path : StateM Machine _).run m).1, m'') ∧
      c.Reached m (path :: done) m'' := by
  obtain ⟨answer, written⟩ := run_checkFile_of_grows (c := c) file h.grows (h.read_eq file spared)
  refine ⟨((c.checkFile path : StateM Machine _).run m').2, Prod.ext answer rfl, ?_⟩
  have after := c.run_checkFile_snd m' path
  rw [written] at after
  rw [after]
  cases hw : c.write? m path with
  | none =>
      refine ⟨h.grows, h.directories, h.home, fun location => ?_⟩
      have here : c.contentAt? m location path = none := by rw [contentAt?, hw]; rfl
      rw [List.findSome?_cons, here]
      exact h.fileAt location
  | some write =>
      obtain ⟨place, contents⟩ := write
      have put : c.contentAt? m place path = some contents := by
        rw [contentAt?, hw]
        exact if_pos rfl
      obtain ⟨resolved, other, -⟩ := resolve_of_contentAt? put
      have takes : m'.Takes place := by
        apply takes_of_resolve_target (c := c) (Machine.kind?_of_grows file h.grows)
        · rw [resolve_target_of_grows file h.grows, resolved]
        · intro there
          exact other (h.grows.directory _ there)
      refine ⟨h.grows.trans (.store takes), h.directories, h.home, fun location => ?_⟩
      have here : c.contentAt? m location path =
          if place = location then some contents else none := by rw [contentAt?, hw]; rfl
      rw [Machine.fileAt?_store, List.findSome?_cons, here, h.fileAt]
      by_cases same : location = place
      · simp [same]
      · simp [same, Ne.symm same]

/-- Checking more files, none of which has been touched by those before it, gives for each of them
    what it gives alone. -/
theorem Reached.run (h : c.Reached m done m') {paths : List Path}
    (files : ∀ path ∈ paths, m.kind? path = some .file)
    (spared : ∀ other ∈ done, ∀ path ∈ paths, c.Spares m other path)
    (apart : paths.Pairwise (c.Spares m)) :
    ∃ m'', (paths.mapM c.checkFile : StateM Machine _).run m' =
        (paths.map fun path => ((c.checkFile path : StateM Machine _).run m).1, m'') ∧
      c.Reached m (paths.reverse ++ done) m'' := by
  induction paths generalizing done m' with
  | nil => exact ⟨m', rfl, h⟩
  | cons path paths ih =>
      obtain ⟨next, apart⟩ := List.pairwise_cons.mp apart
      obtain ⟨m₁, first, reached⟩ := h.step (files path List.mem_cons_self)
        fun other ho => spared other ho path List.mem_cons_self
      obtain ⟨m₂, rest, reached⟩ := ih reached
        (fun other ho => files other (List.mem_cons_of_mem _ ho))
        (by
          intro other ho later hl
          rcases List.mem_cons.mp ho with rfl | ho
          · exact next later hl
          · exact spared other ho later (List.mem_cons_of_mem _ hl))
        apart
      refine ⟨m₂, ?_, by simpa using reached⟩
      rw [List.mapM_cons, Machine.run_bind_eq _ first, Machine.run_bind_eq _ rest]
      rfl

/-- What is put at one place is the same whichever file it is made of. -/
theorem contentAt?_unique {path' : Path} {location : Location} {contents' : ByteArray}
    (file : m.kind? path = some .file) (file' : m.kind? path' = some .file)
    (h : c.contentAt? m location path = some contents)
    (h' : c.contentAt? m location path' = some contents') : contents = contents' := by
  obtain ⟨resolved, -, bytes, read, mended⟩ := resolve_of_contentAt? h
  obtain ⟨resolved', -, bytes', read', mended'⟩ := resolve_of_contentAt? h'
  have same : m.read path = m.read path' := by
    rw [Machine.read, Machine.read, resolve_eq_of_target file file' resolved resolved']
  rw [same, read'] at read
  cases read
  exact Option.some.inj (mended.symm.trans mended')

end Checker

/-- The first result of a search does not depend on the order where there is but one. -/
theorem findSome?_eq_of_perm {α β : Type} {f : α → Option β} {l l' : List α} (perm : l.Perm l')
    (unique : ∀ a ∈ l, ∀ b ∈ l, ∀ x y, f a = some x → f b = some y → x = y) :
    l.findSome? f = l'.findSome? f := by
  cases h : l.findSome? f with
  | none =>
      rw [List.findSome?_eq_none_iff] at h
      apply Eq.symm
      rw [List.findSome?_eq_none_iff]
      intro a ha
      exact h a (perm.mem_iff.mpr ha)
  | some x =>
      obtain ⟨a, ha, hx⟩ := List.exists_of_findSome?_eq_some h
      cases h' : l'.findSome? f with
      | none =>
          rw [List.findSome?_eq_none_iff] at h'
          rw [h' a (perm.mem_iff.mp ha)] at hx
          cases hx
      | some y =>
          obtain ⟨b, hb, hy⟩ := List.exists_of_findSome?_eq_some h'
          rw [unique a ha b (perm.mem_iff.mpr hb) x y hx hy]

/-- Two machines that nothing tells apart: they have the same files with the same content. -/
structure Machine.Alike (m m' : Machine) : Prop where
  fileAt : ∀ location, m.fileAt? location = m'.fileAt? location
  directories : m.directories = m'.directories
  workingDirectory : m.workingDirectory = m'.workingDirectory
  home : m.home? = m'.home?

namespace Checker

/-- If no mended source goes to the place of another file of the list, the files may be checked in
    any order: each gives what it gives alone, and what is written is the same. -/
theorem run_checkFile_perm (c : Checker) (m : Machine) {paths other : List Path}
    (perm : paths.Perm other) (distinct : paths.Nodup)
    (files : ∀ path ∈ paths, m.kind? path = some .file)
    (apart : c.config.fix → ∀ path ∈ paths, ∀ path' ∈ paths, path ≠ path' →
      m.resolve (c.target path) ≠ m.resolve path') :
    let alone := fun path => ((c.checkFile path : StateM Machine _).run m).1
    ∃ m₁ m₂ : Machine,
      (paths.mapM c.checkFile : StateM Machine _).run m = (paths.map alone, m₁) ∧
        (other.mapM c.checkFile : StateM Machine _).run m = (other.map alone, m₂) ∧
        m₁.Alike m₂ := by
  intro alone
  have spares : ∀ path ∈ paths, ∀ path' ∈ paths, path ≠ path' → c.Spares m path path' := by
    intro path hp path' hp' ne location resolved
    cases written : c.contentAt? m location path with
    | none => rfl
    | some contents =>
        obtain ⟨target, -, bytes, -, mended⟩ := resolve_of_contentAt? written
        have fix : c.config.fix := by
          by_contra reads
          rw [mended?_eq_none (Bool.eq_false_iff.mpr reads)] at mended
          cases mended
        exact absurd (target.trans resolved.symm) (apart fix path hp path' hp' ne)
  have run (order : List Path) (perm : paths.Perm order) :
      ∃ m', (order.mapM c.checkFile : StateM Machine _).run m = (order.map alone, m') ∧
        c.Reached m order.reverse m' := by
    have pairwise : order.Pairwise (c.Spares m) := by
      apply List.Pairwise.imp_of_mem _ (perm.nodup_iff.mp distinct)
      intro path path' hp hp' ne
      exact spares path (perm.mem_iff.mpr hp) path' (perm.mem_iff.mpr hp') ne
    obtain ⟨m', answers, reached⟩ := (Reached.start c m).run
      (fun path hp => files path (perm.mem_iff.mpr hp)) (by simp) pairwise
    exact ⟨m', answers, by simpa using reached⟩
  obtain ⟨m₁, answers₁, reached₁⟩ := run paths (.refl _)
  obtain ⟨m₂, answers₂, reached₂⟩ := run other perm
  refine ⟨m₁, m₂, answers₁, answers₂, ⟨fun location => ?_, ?_, ?_, ?_⟩⟩
  · rw [reached₁.fileAt, reached₂.fileAt, findSome?_eq_of_perm]
    · exact (List.reverse_perm _).trans (perm.trans (List.reverse_perm _).symm)
    · intro path hp path' hp' contents contents'
      rw [List.mem_reverse] at hp hp'
      exact contentAt?_unique (files path hp) (files path' hp')
  · rw [reached₁.directories, reached₂.directories]
  · rw [reached₁.grows.workingDirectory, reached₂.grows.workingDirectory]
  · rw [reached₁.home, reached₂.home]

/-- A file under two names and a file in another directory, in both orders. -/
theorem run_checkFile_perm_of_twice :
    let c : Checker := ⟨.ofFilter .allowAll, { fix := true }⟩
    let m : Machine := {
      files := [(["a.py".toList], "x=1\n".toUTF8),
        (["d".toList, "b.py".toList], "import os, sys\n".toUTF8)] }
    let paths : List Path := ["a.py".toList, "d/b.py".toList, "./a.py".toList]
    let alone := fun path => ((c.checkFile path : StateM Machine _).run m).1
    paths.Perm paths.reverse ∧ paths.Nodup ∧ (∀ path ∈ paths, m.kind? path = some .file) ∧
      c.config.fix ∧
      (∀ path ∈ paths, ∀ path' ∈ paths, path ≠ path' →
        m.resolve (c.target path) ≠ m.resolve path') ∧
      (∃ m₁ m₂ : Machine,
        (paths.mapM c.checkFile : StateM Machine _).run m = (paths.map alone, m₁) ∧
          (paths.reverse.mapM c.checkFile : StateM Machine _).run m =
            (paths.reverse.map alone, m₂) ∧
          m₁.Alike m₂) ∧
      ((paths.mapM c.checkFile : StateM Machine _).run m).2.files.map Prod.fst =
        [["a.py".toList], ["d".toList, "b.py".toList], ["fixed_a.py".toList],
          ["d".toList, "fixed_b.py".toList]] := by
  intro c m paths alone
  have perm : paths.Perm paths.reverse := (List.reverse_perm _).symm
  have distinct : paths.Nodup := by decide
  have files : ∀ path ∈ paths, m.kind? path = some .file := by decide +kernel
  have apart : ∀ path ∈ paths, ∀ path' ∈ paths, path ≠ path' →
      m.resolve (c.target path) ≠ m.resolve path' := by
    decide +kernel
  exact ⟨perm, distinct, files, rfl, apart,
    run_checkFile_perm c m perm distinct files fun _ => apart, by decide +kernel⟩

/-- The mended source of the first file goes to the place of the second. Checked behind the first,
    the second has the content of the other file, and the imports that it is reported for alone
    are lost. -/
theorem checkFile_order_matters :
    let c : Checker := ⟨.ofFilter .allowAll, { fix := true }⟩
    let m : Machine := {
      files := [(["a.py".toList], "x=1\n".toUTF8),
        (["fixed_a.py".toList], "import os, sys\n".toUTF8)] }
    let codes (order : List Path) := ((order.mapM c.checkFile : StateM Machine _).run m).1.map
      fun answer => answer.toOption.map fun report => report.violations.map Violation.code
    let paths : List Path := ["a.py".toList, "fixed_a.py".toList]
    paths.Perm paths.reverse ∧ paths.Nodup ∧ (∀ path ∈ paths, m.kind? path = some .file) ∧
      codes paths = [some [.e225], some []] ∧
      codes paths.reverse = [some [.e401], some [.e225]] := by
  intro c m codes paths
  exact ⟨(List.reverse_perm _).symm, by decide, by decide +kernel, by decide +kernel,
    by decide +kernel⟩

end Checker

end StyleGuide
