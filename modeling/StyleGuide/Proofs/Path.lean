import Mathlib.Data.List.DropRight
import StyleGuide.Path

/-! # Components of paths

A path is the pieces between its slashes. What matters of it is where it starts and the names that
it follows: a name at the end of a path comes behind its components, and the path without its last
component has the others.
-/

namespace StyleGuide

theorem Text.splitOn_cons (separator c : Char) (s : Text) : splitOn separator (c :: s) =
    if c == separator then [] :: splitOn separator s else consFirst c (splitOn separator s) := rfl

theorem Text.splitOn_eq (separator : Char) (s : Text) :
    splitOn separator s = List.splitOn separator s := by
  induction s with
  | nil => rfl
  | cons c s ih =>
      rw [List.splitOn_cons_eq_if_modifyHead, ← ih, splitOn_cons]
      split
      · rfl
      · cases hs : splitOn separator s with
        | nil => exact absurd (ih.symm.trans hs) (List.splitOn_ne_nil _ _)
        | cons first more => rfl

namespace Path

variable {path path' directory : Path} {name piece : Text} {ps : List Text}

/-! ## Pieces -/

theorem pieces_eq (path : Path) : path.pieces = List.splitOn '/' path := Text.splitOn_eq _ _

theorem pieces_ne_nil (path : Path) : path.pieces ≠ [] := by
  rw [pieces_eq]
  exact List.splitOn_ne_nil _ _

theorem pieces_of_not_mem (h : '/' ∉ name) : pieces name = [name] := by
  rw [pieces_eq]
  exact List.splitOn_eq_singleton h

theorem pieces_ofPieces (h : ∀ piece ∈ ps, '/' ∉ piece) (some : ps ≠ []) :
    (ofPieces ps).pieces = ps := by
  rw [pieces_eq]
  exact List.splitOn_intercalate _ h some

/-- A slash parts a path into the pieces before it and those behind it. -/
theorem pieces_append (s t : Text) : pieces (s ++ '/' :: t) = pieces s ++ pieces t := by
  simp only [pieces_eq]
  exact List.splitOn_append_cons_self _ _

theorem not_mem_of_mem_pieces (h : piece ∈ path.pieces) : '/' ∉ piece := by
  induction path generalizing piece with
  | nil =>
      obtain rfl := List.mem_singleton.mp h
      exact List.not_mem_nil
  | cons c path ih =>
      rw [pieces, Text.splitOn_cons] at h
      split at h
      · rcases List.mem_cons.mp h with rfl | h
        · exact List.not_mem_nil
        · exact ih h
      · next other =>
          have other : '/' ≠ c := fun same => other (beq_iff_eq.mpr same.symm)
          cases hp : pieces path with
          | nil => exact absurd hp (pieces_ne_nil path)
          | cons first more =>
              rw [← pieces, hp, Text.consFirst] at h
              rcases List.mem_cons.mp h with rfl | h
              · rw [List.mem_cons, not_or]
                exact ⟨other, ih (hp ▸ List.mem_cons_self)⟩
              · exact ih (hp ▸ List.mem_cons_of_mem _ h)

/-! ## Components -/

theorem isAbsolute_iff : path.isAbsolute ↔ ∃ rest, rest ≠ [] ∧ path.pieces = [] :: rest := by
  cases path with
  | nil => simp [isAbsolute, pieces, Text.splitOn]
  | cons c path =>
      rw [pieces, Text.splitOn_cons, ← pieces]
      by_cases hc : c = '/'
      · simp [isAbsolute, hc, pieces_ne_nil]
      · cases hp : pieces path with
        | nil => exact absurd hp (pieces_ne_nil path)
        | cons first more => simp [isAbsolute, hc, Text.consFirst]

theorem not_mem_of_mem_names (h : name ∈ path.names) : '/' ∉ name :=
  not_mem_of_mem_pieces (List.mem_of_mem_filter h)

theorem not_isIdle_of_mem_names (h : name ∈ path.names) : isIdle name = false := by
  simpa using (List.mem_filter.mp h).2

/-- Where a path starts, unless it is the working directory. -/
def start (path : Path) : List Text :=
  if path.isAbsolute then [['/']]
  else if path.pieces.head? = some ['.'] then [['.']]
  else []

theorem components_eq (path : Path) : path.components = path.start ++ path.names := rfl

theorem names_eq_filter (path : Path) :
    path.names = path.components.filter fun name => name != ['/'] && !isIdle name := by
  have front : path.start.filter (fun name => name != ['/'] && !isIdle name) = [] := by
    rw [start]
    split
    · rfl
    · split <;> rfl
  have back : path.names.filter (fun name => name != ['/'] && !isIdle name) = path.names := by
    rw [List.filter_eq_self]
    intro name h
    have other : name ≠ ['/'] := by
      rintro rfl
      exact not_mem_of_mem_names h List.mem_cons_self
    simp [other, not_isIdle_of_mem_names h]
  rw [components_eq, List.filter_append, front, back, List.nil_append]

theorem isAbsolute_eq_components (path : Path) :
    path.isAbsolute = (path.components.head? == some ['/']) := by
  rw [components_eq, start]
  split
  · next abs => rw [abs]; rfl
  · next rel =>
      rw [Bool.eq_false_iff.mpr rel]
      split
      · rfl
      · cases hn : path.names with
        | nil => rfl
        | cons name names =>
            have other : name ≠ ['/'] := by
              rintro rfl
              exact not_mem_of_mem_names (hn ▸ List.mem_cons_self) List.mem_cons_self
            simpa using other

variable {first : Text} {rest : List Text}

/-- The components are read off the pieces: an empty first piece stands for the root. -/
theorem components_of_pieces (h : path.pieces = first :: rest) : path.components =
    (if first = [] then if rest = [] then [] else [['/']] else [first]) ++
      rest.filter fun piece => !isIdle piece := by
  have abs : path.isAbsolute ↔ first = [] ∧ rest ≠ [] := by
    rw [isAbsolute_iff, h]
    constructor
    · rintro ⟨rest, some, eq⟩
      obtain ⟨rfl, rfl⟩ := List.cons.inj eq
      exact ⟨rfl, some⟩
    · rintro ⟨rfl, some⟩
      exact ⟨rest, some, rfl⟩
  rw [components_eq, start, names, h, List.filter_cons]
  by_cases none : first = []
  · by_cases only : rest = [] <;> simp [abs, none, only, isIdle]
  · by_cases dot : first = ['.'] <;> simp [abs, none, dot, isIdle]

theorem components_nil : components [] = [] := rfl

theorem ne_nil_of_pieces (some : path ≠ []) (h : path.pieces = first :: rest)
    (none : first = []) : rest ≠ [] := by
  rintro rfl
  have whole : path = ofPieces path.pieces := by
    rw [pieces_eq]
    exact (List.intercalate_splitOn _).symm
  rw [h, none] at whole
  exact some whole

/-- The pieces of a path that goes on with a name, where a slash at the end of the directory
    counts for the one that parts the two. -/
theorem exists_pieces_join (free : '/' ∉ name) (some : directory ≠ []) :
    ∃ first rest idle, directory.pieces = first :: rest ++ idle ∧ (idle = [] ∨ idle = [[]]) ∧
      (directory.join name).pieces = first :: rest ++ [name] := by
  have rel : isAbsolute name = false := by
    rw [isAbsolute, beq_eq_false_iff_ne]
    intro head
    exact free (List.mem_of_mem_head? head)
  have parted {e : Path} : ∃ first rest, e.pieces = first :: rest :=
    List.exists_cons_of_ne_nil e.pieces_ne_nil
  have slash (h : directory.getLast? = .some '/') : ∃ e, directory = e ++ ['/'] := by
    rcases List.eq_nil_or_concat directory with rfl | ⟨e, c, rfl⟩
    · cases h
    · rw [List.concat_eq_append, List.getLast?_concat, Option.some.injEq] at h
      exact ⟨e, by rw [h, List.concat_eq_append]⟩
  by_cases h : directory.getLast? = .some '/'
  · obtain ⟨e, rfl⟩ := slash h
    obtain ⟨first, rest, hp⟩ := parted (e := e)
    refine ⟨first, rest, [[]], ?_, .inr rfl, ?_⟩
    · rw [pieces_append, hp]
      rfl
    · have joined : join (e ++ ['/']) name = e ++ '/' :: name := by simp [join, rel]
      rw [joined, pieces_append, pieces_of_not_mem free, hp]
  · obtain ⟨first, rest, hp⟩ := parted (e := directory)
    refine ⟨first, rest, [], by rw [hp, List.append_nil], .inl rfl, ?_⟩
    have joined : directory.join name = directory ++ '/' :: name := by simp [join, rel, some, h]
    rw [joined, pieces_append, pieces_of_not_mem free, hp]

/-- A name at the end of a path comes behind its components. -/
theorem components_join (free : '/' ∉ name) (moves : isIdle name = false) (directory : Path) :
    (directory.join name).components = directory.components ++ [name] := by
  by_cases none : directory = []
  · subst none
    have some : name ≠ [] := by
      rintro rfl
      cases moves
    have alone : join [] name = name := by simp [join]
    rw [alone, components_of_pieces (pieces_of_not_mem free)]
    simp [some, components_nil]
  · obtain ⟨first, rest, idle, hp, front, joined⟩ := exists_pieces_join free none
    rw [List.cons_append] at hp joined
    have more := ne_nil_of_pieces none hp
    have idles : idle.filter (fun piece => !isIdle piece) = [] := by
      rcases front with rfl | rfl <;> rfl
    rw [components_of_pieces joined, components_of_pieces hp, List.filter_append,
      List.filter_append, idles, List.append_nil, ← List.append_assoc]
    by_cases hf : first = []
    · simp [hf, more hf, moves]
    · simp [hf, moves]

theorem filter_rdropWhile (p : Text → Bool) (ps : List Text) :
    (ps.rdropWhile p).filter (fun piece => !p piece) = ps.filter fun piece => !p piece := by
  have none : (ps.rtakeWhile p).filter (fun piece => !p piece) = [] := by
    rw [List.filter_eq_nil_iff]
    intro piece h
    simpa using List.mem_rtakeWhile_imp h
  conv_rhs => rw [← List.rdropWhile_append_rtakeWhile (p := p) (l := ps), List.filter_append, none]
  rw [List.append_nil]

/-- Pieces that are put together again, where nothing in front of no slash stands for the root. -/
theorem components_of_parent_pieces (free : ∀ piece ∈ first :: rest, '/' ∉ piece)
    (h : (match first :: rest with
      | [[]] => some ['/']
      | pieces => some (ofPieces pieces)) = some directory) :
    directory.components = (if first = [] then [['/']] else [first]) ++
      rest.filter fun piece => !isIdle piece := by
  split at h
  · next root =>
      obtain ⟨rfl, rfl⟩ := List.cons.inj root
      rw [← Option.some.inj h]
      rfl
  · next other =>
      rw [← Option.some.inj h, components_of_pieces (pieces_ofPieces free (List.cons_ne_nil _ _))]
      by_cases hf : first = []
      · have some : rest ≠ [] := by
          rintro rfl
          exact other (hf ▸ rfl)
        simp [hf, some]
      · simp [hf]

/-- The path without its last component has the others. -/
theorem components_parent? (h : path.parent? = some directory) :
    directory.components = path.components.dropLast := by
  obtain ⟨first, rest, hp⟩ := List.exists_cons_of_ne_nil path.pieces_ne_nil
  have free : ∀ piece ∈ first :: rest, '/' ∉ piece :=
    fun piece hm => not_mem_of_mem_pieces (hp ▸ hm)
  have trimmed : dropIdle path.pieces = first :: rest.rdropWhile isIdle := by rw [hp]; rfl
  rw [parent?, trimmed] at h
  split at h
  · cases h
  · next above =>
      rw [components_of_pieces hp, ← filter_rdropWhile] at above ⊢
      rcases List.eq_nil_or_concat (rest.rdropWhile isIdle) with none | ⟨front, last, split⟩
      · rw [none] at h above ⊢
        obtain rfl : [] = directory := Option.some.inj h
        by_cases hf : first = []
        · by_cases only : rest = [] <;> simp [hf, only] at above
        · simp [hf, components_nil]
      · rw [List.concat_eq_append] at split
        have moves : isIdle last = false := by
          have ends := List.rdropWhile_last_not isIdle rest (by simp [split])
          simpa [split] using ends
        have some : rest ≠ [] := by
          rintro rfl
          simp at split
        have short : dropIdle (first :: rest.rdropWhile isIdle).dropLast =
            first :: front.rdropWhile isIdle := by
          rw [split, ← List.cons_append, List.dropLast_concat]
          rfl
        have sub : ∀ piece ∈ first :: front.rdropWhile isIdle, '/' ∉ piece := by
          intro piece hm
          apply free
          rcases List.mem_cons.mp hm with rfl | hm
          · exact List.mem_cons_self
          · have inner : piece ∈ rest.rdropWhile isIdle :=
              split ▸ List.mem_append_left _ ((List.rdropWhile_prefix _ _).subset hm)
            exact List.mem_cons_of_mem _ ((List.rdropWhile_prefix _ _).subset inner)
        rw [short] at h
        rw [components_of_parent_pieces sub h, filter_rdropWhile, split, List.filter_append]
        have end_ : [last].filter (fun piece => !isIdle piece) = [last] := by simp [moves]
        rw [end_, ← List.append_assoc, List.dropLast_concat]
        simp [some]

theorem names_join (free : '/' ∉ name) (moves : isIdle name = false) (directory : Path) :
    (directory.join name).names = directory.names ++ [name] ∧
      (directory.join name).isAbsolute = directory.isAbsolute := by
  have other : name ≠ ['/'] := by
    rintro rfl
    exact free List.mem_cons_self
  constructor
  · rw [names_eq_filter, components_join free moves, List.filter_append, ← names_eq_filter]
    simp [other, moves]
  · rw [isAbsolute_eq_components, isAbsolute_eq_components, components_join free moves]
    cases directory.components with
    | nil => simp [other]
    | cons first more => rfl

theorem getLast?_pieces_join (free : '/' ∉ name) (directory : Path) :
    (directory.join name).pieces.getLast? = some name := by
  by_cases none : directory = []
  · have alone : join [] name = name := by simp [join]
    rw [none, alone, pieces_of_not_mem free]
    rfl
  · obtain ⟨first, rest, -, -, -, joined⟩ := exists_pieces_join free none
    rw [joined]
    exact List.getLast?_concat

theorem exists_parent? (named : path.names ≠ []) : ∃ directory, path.parent? = some directory := by
  have above : ¬(path.components = [] ∨ path.components = [['/']]) := by
    rw [components_eq]
    rintro (none | root)
    · exact named (List.append_eq_nil_iff.mp none).2
    · obtain ⟨name, names, hn⟩ := List.exists_cons_of_ne_nil named
      have mem : name ∈ path.names := hn ▸ List.mem_cons_self
      have slash : name ∈ [['/']] := root ▸ List.mem_append_right path.start mem
      apply not_mem_of_mem_names mem
      rw [List.mem_singleton.mp slash]
      exact List.mem_cons_self
  simp only [parent?, above, if_false]
  split <;> exact ⟨_, rfl⟩

variable {front : List Text} {old : Text}

/-- Another name at the end of a path leaves everything else as it is. -/
theorem components_withFileName (split : path.names = front ++ [old]) (named : old ≠ above)
    (free : '/' ∉ name) (moves : isIdle name = false) :
    (path.withFileName name).components = path.start ++ front ++ [name] := by
  have fileName : path.fileName? = some old := by
    rw [fileName?, split, List.getLast?_concat]
    simp [named]
  have some : path.names ≠ [] := by simp [split]
  obtain ⟨directory, parent⟩ := exists_parent? some
  have whole : path.components = path.start ++ front ++ [old] := by
    rw [components_eq, split, List.append_assoc]
  rw [withFileName, fileName, parent, Option.isSome_some, if_pos rfl, Option.getD_some,
    components_join free moves, components_parent? parent, whole, List.dropLast_concat]

theorem getLast?_pieces_withFileName (free : '/' ∉ name) (path : Path) :
    (path.withFileName name).pieces.getLast? = some name := by
  rw [withFileName]
  split <;> exact getLast?_pieces_join free _

theorem names_withFileName (split : path.names = front ++ [old]) (named : old ≠ above)
    (free : '/' ∉ name) (moves : isIdle name = false) :
    (path.withFileName name).names = front ++ [name] ∧
      (path.withFileName name).isAbsolute = path.isAbsolute := by
  have other : name ≠ ['/'] := by
    rintro rfl
    exact free List.mem_cons_self
  have mem : old ∈ path.names := by simp [split]
  have other' : old ≠ ['/'] := by
    rintro rfl
    exact not_mem_of_mem_names mem List.mem_cons_self
  have changed := components_withFileName split named free moves
  have whole : path.components = path.start ++ front ++ [old] := by
    rw [components_eq, split, List.append_assoc]
  constructor
  · have kept :
        (path.start ++ front).filter (fun name => name != ['/'] && !isIdle name) = front := by
      have names := path.names_eq_filter
      rw [whole, List.filter_append, split] at names
      have last : [old].filter (fun name => name != ['/'] && !isIdle name) = [old] := by
        simp [other', not_isIdle_of_mem_names mem]
      rw [last] at names
      exact (List.append_cancel_right names).symm
    rw [names_eq_filter, changed, List.filter_append, kept]
    simp [other, moves]
  · rw [isAbsolute_eq_components, isAbsolute_eq_components, changed, whole]
    cases path.start ++ front with
    | nil => simp [other, other']
    | cons first more => rfl

/-! ## Ancestors -/

theorem length_components_parent? (h : path.parent? = some directory) :
    directory.components.length < path.components.length := by
  have some : path.components ≠ [] := by
    intro none
    rw [parent?, if_pos (.inl none)] at h
    cases h
  rw [components_parent? h, List.length_dropLast]
  exact Nat.sub_lt (List.length_pos_iff.mpr some) Nat.one_pos

theorem length_components_ancestorsUpTo {n : Nat} (h : directory ∈ ancestorsUpTo n path) :
    directory.components.length ≤ path.components.length := by
  induction n generalizing path with
  | zero =>
      rw [List.mem_singleton.mp h]
  | succ n ih =>
      rw [ancestorsUpTo] at h
      split at h
      · rw [List.mem_singleton.mp h]
      · next parent hp =>
          rcases List.mem_cons.mp h with rfl | h
          · exact Nat.le_refl _
          · exact (ih h).trans (length_components_parent? hp).le

/-- No two of the directories above a path have the same components. -/
theorem pairwise_ancestors (path : Path) :
    path.ancestors.Pairwise fun p q => p.components ≠ q.components := by
  have upTo : ∀ (n : Nat) (path : Path),
      (ancestorsUpTo n path).Pairwise fun p q => p.components ≠ q.components := by
    intro n
    induction n with
    | zero => exact fun path => List.pairwise_singleton _ path
    | succ n ih =>
        intro path
        rw [ancestorsUpTo]
        split
        · exact List.pairwise_singleton _ path
        · next parent hp =>
            refine List.pairwise_cons.mpr ⟨fun q hq same => ?_, ih parent⟩
            have shorter :=
              (length_components_ancestorsUpTo hq).trans_lt (length_components_parent? hp)
            exact shorter.ne (congrArg List.length same.symm)
  exact upTo _ path

end Path

end StyleGuide
