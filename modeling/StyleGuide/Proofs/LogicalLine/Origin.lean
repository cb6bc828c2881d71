import StyleGuide.Proofs.LogicalLine.Inside

/-! # Where the bytes of a logical line come from

A logical line is put together once more byte by byte, and each byte keeps the place in the source
that it has been taken from. The bytes of a mask that are not those of the literal, and the space in
the place of a row break, have been taken from nowhere.
-/

namespace StyleGuide

namespace Text

/-- The bytes of the UTF-8 form. -/
def bytes (s : Text) : List UInt8 := s.flatMap String.utf8EncodeChar

@[simp] theorem bytes_nil : bytes [] = [] := rfl

theorem bytes_cons (c : Char) (s : Text) : bytes (c :: s) = String.utf8EncodeChar c ++ bytes s :=
  List.flatMap_cons

@[simp] theorem bytes_append (s t : Text) : bytes (s ++ t) = bytes s ++ bytes t :=
  List.flatMap_append

@[simp] theorem length_bytes (s : Text) : (bytes s).length = byteLength s := by
  induction s with
  | nil => rfl
  | cons c s ih => rw [bytes_cons, List.length_append, ih, String.length_utf8EncodeChar]; rfl

theorem getElem?_bytes_append (s t : Text) (i : Nat) :
    (bytes (s ++ t))[byteLength s + i]? = (bytes t)[i]? := by
  rw [bytes_append, List.getElem?_append_right (by simp), length_bytes, Nat.add_sub_cancel_left]

/-- The bytes of an initial part. -/
theorem getElem?_bytes_of_lt {s : Text} {i : Nat} (h : i < byteLength s) (t : Text) :
    (bytes (s ++ t))[i]? = (bytes s)[i]? := by
  rw [bytes_append, List.getElem?_append_left (by simpa using h)]

end Text

namespace Position

/-- The position behind a character; a newline ends its row. -/
def behind (p : Position) (c : Char) : Position :=
  if c = '\n' then ⟨p.row + 1, 0⟩ else ⟨p.row, p.column + c.utf8Size⟩

/-- The places of the bytes of a text that stands at a position. -/
def places (p : Position) : Text → List Position
  | [] => []
  | c :: rest =>
    (List.range c.utf8Size).map (fun i => ⟨p.row, p.column + i⟩) ++ places (p.behind c) rest

variable {p q : Position} {s : Text} {k : Nat}

@[simp] theorem length_places (p : Position) (s : Text) :
    (places p s).length = Text.byteLength s := by
  induction s generalizing p with
  | nil => rfl
  | cons c s ih => simp [places, ih]

/-- The place of a byte of a text that begins with `c`. -/
theorem getElem?_places_cons (p : Position) (c : Char) (s : Text) (k : Nat) :
    (places p (c :: s))[k]? =
      if k < c.utf8Size then some ⟨p.row, p.column + k⟩
      else (places (p.behind c) s)[k - c.utf8Size]? := by
  rw [places]
  split
  · next lt =>
      rw [List.getElem?_append_left (by simpa using lt)]
      simp [lt]
  · next ge =>
      rw [List.getElem?_append_right (by simpa using ge), List.length_map, List.length_range]

/-- Up to the end of the first row, columns count bytes. -/
theorem column_of_places (h : (places p s)[k]? = some q) :
    p.row ≤ q.row ∧ (q.row = p.row → q.column = p.column + k) := by
  induction s generalizing p k with
  | nil => cases h
  | cons c s ih =>
      rw [getElem?_places_cons] at h
      split at h
      · obtain rfl := Option.some.inj h
        exact ⟨Nat.le_refl _, fun _ => rfl⟩
      · next ge =>
          obtain ⟨le, column⟩ := ih h
          unfold behind at le column
          split at le
          · simp only [if_true, *] at column
            simp only at le
            exact ⟨by omega, fun eq => by omega⟩
          · simp only [if_false, *] at column
            exact ⟨le, fun eq => by rw [column eq]; omega⟩

/-- A text with no newline but as its last character stands on one row. -/
theorem row_of_places (h : '\n' ∉ s.dropLast) (place : (places p s)[k]? = some q) :
    q.row = p.row := by
  induction s generalizing p k with
  | nil => cases place
  | cons c s ih =>
      rw [getElem?_places_cons] at place
      split at place
      · obtain rfl := Option.some.inj place
        rfl
      · cases s with
        | nil => cases place
        | cons d s =>
            rw [List.dropLast_cons_cons, List.mem_cons, not_or] at h
            rw [ih h.2 place, behind, if_neg (Ne.symm h.1)]

end Position

/-! ## The places of a cut -/

section Cut

variable {source line before behind s : Text} {done more : List Text} {q : Position} {k : Nat}
  {b : UInt8}

/-- In front of a character of a row there is no newline. -/
theorem not_mem_newline_of_row {c : Char} (split : Text.rows source = done ++ line :: more)
    (whole : before ++ c :: behind = line) : '\n' ∉ before := by
  have shape := Text.areRows_rows source
  rw [split] at shape
  intro mem
  rcases shape.row_cases with ⟨none, -⟩ | ⟨body, eq, none⟩
  · apply none
    simp [← whole, mem]
  · obtain ⟨init, last, back⟩ := (List.eq_nil_or_concat (c :: behind)).resolve_left (by simp)
    rw [← whole, back, List.concat_eq_append, ← List.append_assoc] at eq
    apply none
    simp [← (List.append_inj' eq rfl).1, mem]

/-- Behind the newline of a row there is nothing. -/
theorem eq_nil_of_row (split : Text.rows source = done ++ line :: more)
    (whole : before ++ '\n' :: behind = line) : behind = [] := by
  cases behind with
  | nil => rfl
  | cons d behind =>
      have later : (before ++ ['\n']) ++ d :: behind = line := by simp [← whole]
      have none := not_mem_newline_of_row split later
      simp at none

/-- Each byte of a part of a source is the one that the row has at its place. -/
theorem getElem?_row_of_places (split : Text.rows source = done ++ line :: more)
    (whole : before ++ behind = line) (inner : '\n' ∉ before)
    (part : s <+: behind ++ more.flatten)
    (place : (Position.places ⟨done.length + 1, Text.byteLength before⟩ s)[k]? = some q) :
    (Text.bytes ((Rows.ofSource source).row q.row))[q.column]? = (Text.bytes s)[k]? := by
  induction s generalizing done line more before behind k with
  | nil => cases place
  | cons c s ih =>
      cases behind with
      | nil =>
          -- a row that does not end in a newline is the last one
          have shape := Text.areRows_rows source
          rw [split] at shape
          rw [List.append_nil] at whole
          subst whole
          rcases shape.row_cases with ⟨-, rfl⟩ | ⟨body, rfl, -⟩
          · simp at part
          · simp at inner
      | cons d behind =>
          obtain ⟨rfl, rest⟩ := List.cons_prefix_cons.mp part
          rw [Position.getElem?_places_cons] at place
          have row := Rows.row_ofSource split
          split at place
          · next lt =>
              obtain rfl := Option.some.inj place
              rw [row, ← whole, Text.getElem?_bytes_append, Text.bytes_cons, Text.bytes_cons,
                List.getElem?_append_left (by simpa using lt),
                List.getElem?_append_left (by simpa using lt)]
          · next ge =>
              rw [Text.bytes_cons, List.getElem?_append_right (by simpa using ge),
                String.length_utf8EncodeChar]
              unfold Position.behind at place
              split at place
              · next newline =>
                  subst newline
                  obtain rfl := eq_nil_of_row split whole
                  cases more with
                  | nil =>
                      obtain rfl := List.prefix_nil.mp rest
                      cases place
                  | cons next more =>
                      have split' : Text.rows source = (done ++ [line]) ++ next :: more := by
                        simpa using split
                      refine ih split' (List.nil_append next) List.not_mem_nil
                        (by simpa using rest) ?_
                      simpa using place
              · next other =>
                  have whole' : (before ++ [c]) ++ behind = line := by simpa using whole
                  refine ih split whole' ?_ rest (by simpa using place)
                  simp [inner, Ne.symm other]

/-- In front of a place that is in front of the terminator of its row there is no newline. -/
theorem not_mem_newline_of_inside (split : Text.rows source = done ++ line :: more)
    (whole : before ++ behind = line)
    (inside : (Rows.ofSource source).Inside ⟨done.length + 1, Text.byteLength before⟩) :
    '\n' ∉ before := by
  obtain ⟨initial, shown, length⟩ := inside
  rw [Rows.shown, Rows.row_ofSource split] at shown
  have terminator : Text.withoutTerminator line <+: line := Text.dropEndWhile_prefix _ _
  obtain rfl := Text.eq_of_prefix_of_byteLength_eq (shown.trans terminator) ⟨behind, whole⟩ length
  intro mem
  obtain ⟨x, y, rfl⟩ := List.append_of_mem mem
  have around : x ++ '\n' :: (y ++ behind) = line := by
    rw [← whole]
    simp
  have nothing : y ++ behind = [] := eq_nil_of_row split around
  obtain ⟨rfl, rfl⟩ := List.append_eq_nil_iff.mp nothing
  rw [List.append_nil] at whole
  have all : Text.withoutTerminator line = line :=
    terminator.eq_of_length_le (whole ▸ shown.length_le)
  have last := Text.ne_newline_of_getLast?_withoutTerminator line '\n'
  rw [all, ← whole] at last
  exact absurd (last (by simp)).1 (by simp)

/-- The row on which a cut starts, and the cut as a part of what is left of the source. -/
theorem exists_row_of_isCut {t : Token} (cut : t.IsCut source) :
    ∃ done line more before behind, Text.rows source = done ++ line :: more ∧
      before ++ behind = line ∧ t.text <+: behind ++ more.flatten ∧
      t.start = ⟨done.length + 1, Text.byteLength before⟩ := by
  obtain ⟨pos, le, before, held⟩ := cut.start
  obtain ⟨n, hn⟩ := Nat.exists_eq_succ_of_ne_zero (Nat.ne_of_gt pos)
  have lt : n < (Text.rows source).length := by omega
  have split : Text.rows source =
      (Text.rows source).take n ++ (Text.rows source)[n] :: (Text.rows source).drop (n + 1) := by
    rw [← List.drop_eq_getElem_cons lt, List.take_append_drop]
  have length : ((Text.rows source).take n).length = n := by
    rw [List.length_take, Nat.min_eq_left (Nat.le_of_lt lt)]
  have row := Rows.row_ofSource split
  have start : t.start = ⟨((Text.rows source).take n).length + 1, Text.byteLength before⟩ := by
    rw [length, held.2, ← Nat.succ_eq_add_one, ← hn]
  obtain ⟨behind, whole⟩ := held.1
  rw [length, ← Nat.succ_eq_add_one, ← hn] at row
  rw [row] at whole
  refine ⟨_, _, _, before, behind, split, whole, ?_, start⟩
  have part : source.upTo t.start ++ t.text <+: source := cut.text ▸ Text.upTo_prefix cut.stop
  rw [start, upTo_of_split split whole] at part
  have source_eq : source = ((Text.rows source).take n).flatten ++ (before ++
      (behind ++ ((Text.rows source).drop (n + 1)).flatten)) := by
    conv_lhs => rw [← Text.flatten_rows source, split]
    simp [← whole]
  conv at part => rhs; rw [source_eq]
  rw [List.append_assoc] at part
  exact (List.prefix_append_right_inj _).mp ((List.prefix_append_right_inj _).mp part)

end Cut

namespace LogicalLine

/-- A byte of a logical line, with the token that it is a part of or stands behind, and with the
    place in the source that it has been taken from. -/
structure Origin where
  byte : UInt8
  token : Token
  place : Option Position

/-- The bytes of a token. Those of a mask that are not the bytes of the literal hide it. -/
def shownOrigins (t : Token) : List Origin :=
  ((Text.bytes t.shown).zip ((Text.bytes t.text).zip (t.start.places t.text))).map
    fun (b, written, p) => ⟨b, t, if b = written then some p else none⟩

/-- The bytes between two tokens. They have a place unless a row ends there. -/
def gapOrigins (rows : Rows) (before after : Token) : List Origin :=
  (Text.bytes (gap rows before after)).zipIdx.map fun (b, i) =>
    ⟨b, before, if before.stop.row = after.start.row then
      some ⟨before.stop.row, before.stop.column + i⟩ else none⟩

/-- The bytes of a statement, from its content tokens. -/
def origins (rows : Rows) : List Token → List Origin
  | [] => []
  | first :: rest => shownOrigins first ++ go first rest
where
  /-- The bytes behind the token `before`. -/
  go (before : Token) : List Token → List Origin
    | [] => []
    | t :: rest => gapOrigins rows before t ++ shownOrigins t ++ go t rest

variable {rows : Rows} {t : Token} {ts : List Token}

theorem byte_shownOrigins (length : Text.byteLength t.shown = Text.byteLength t.text) :
    (shownOrigins t).map Origin.byte = Text.bytes t.shown := by
  rw [shownOrigins, List.map_map]
  exact List.map_fst_zip (by simp [length])

theorem byte_gapOrigins (before after : Token) :
    (gapOrigins rows before after).map Origin.byte = Text.bytes (gap rows before after) := by
  rw [gapOrigins, List.map_map]
  exact List.zipIdx_map_fst 0 _

/-- A byte of a token that is not hidden is the byte of the text at the same place. -/
theorem of_getElem?_shownOrigins {k : Nat} {o : Origin} {p : Position}
    (h : (shownOrigins t)[k]? = some o) (hp : o.place = some p) :
    o.token = t ∧ (Text.bytes t.text)[k]? = some o.byte ∧ (t.start.places t.text)[k]? = some p := by
  rw [shownOrigins, List.getElem?_map] at h
  obtain ⟨⟨b, written, q⟩, zipped, rfl⟩ := Option.map_eq_some_iff.mp h
  obtain ⟨-, zipped⟩ := List.getElem?_zip_eq_some.mp zipped
  obtain ⟨text, place⟩ := List.getElem?_zip_eq_some.mp zipped
  obtain ⟨rfl, eq⟩ := Option.ite_none_right_eq_some.mp hp
  exact ⟨rfl, text, by rw [← Option.some.inj eq]; exact place⟩

theorem of_getElem?_gapOrigins {before after : Token} {k : Nat} {o : Origin} {p : Position}
    (h : (gapOrigins rows before after)[k]? = some o) (hp : o.place = some p) :
    o.token = before ∧ before.stop.row = after.start.row ∧
      (Text.bytes (gap rows before after))[k]? = some o.byte ∧
      p = ⟨before.stop.row, before.stop.column + k⟩ := by
  rw [gapOrigins, List.getElem?_map] at h
  obtain ⟨⟨b, i⟩, listed, rfl⟩ := Option.map_eq_some_iff.mp h
  rw [List.getElem?_zipIdx] at listed
  obtain ⟨c, byte, eq⟩ := Option.map_eq_some_iff.mp listed
  obtain ⟨rfl, rfl⟩ := Prod.mk.inj eq
  obtain ⟨same, eq⟩ := Option.ite_none_right_eq_some.mp hp
  refine ⟨rfl, same, byte, ?_⟩
  rw [← Option.some.inj eq, Nat.zero_add]

theorem byte_origins_go {before : Token}
    (length : ∀ t ∈ ts, Text.byteLength t.shown = Text.byteLength t.text) :
    (origins.go rows before ts).map Origin.byte = Text.bytes (join (pieces.go rows before ts)) := by
  induction ts generalizing before with
  | nil => rfl
  | cons t ts ih =>
      rw [origins.go, pieces.go, join_cons, List.map_append, List.map_append, byte_gapOrigins,
        byte_shownOrigins (length t (List.mem_cons_self ..)),
        ih fun u hu => length u (List.mem_cons_of_mem _ hu)]
      simp

/-- The bytes are those of the text that is trimmed to make the logical line. -/
theorem byte_origins (length : ∀ t ∈ ts, Text.byteLength t.shown = Text.byteLength t.text) :
    (origins rows ts).map Origin.byte = Text.bytes (join (pieces rows ts)) := by
  cases ts with
  | nil => rfl
  | cons t ts =>
      rw [origins, pieces, join_cons, List.map_append,
        byte_shownOrigins (length t (List.mem_cons_self ..)),
        byte_origins_go fun u hu => length u (List.mem_cons_of_mem _ hu)]
      simp

/-- The bytes in front of a token, those of the token and those behind it. -/
theorem exists_origins_append {as bs : List Token} {front : Text}
    (length : ∀ u ∈ as ++ t :: bs, Text.byteLength u.shown = Text.byteLength u.text)
    (whole : join (pieces rows (as ++ t :: bs)) =
      front ++ t.shown ++ join (pieces.go rows t bs)) :
    ∃ os, origins rows (as ++ t :: bs) = os ++ (shownOrigins t ++ origins.go rows t bs) ∧
      os.length = Text.byteLength front := by
  have behind : ∀ (before : Token) (as : List Token), ∃ os,
      origins.go rows before (as ++ t :: bs) = os ++ (shownOrigins t ++ origins.go rows t bs) := by
    intro before as
    induction as generalizing before with
    | nil => exact ⟨_, by rw [List.nil_append, origins.go, List.append_assoc]⟩
    | cons u as ih =>
        obtain ⟨os, eq⟩ := ih u
        exact ⟨_, by rw [List.cons_append, origins.go, eq, ← List.append_assoc]⟩
  obtain ⟨os, eq⟩ :
      ∃ os, origins rows (as ++ t :: bs) = os ++ (shownOrigins t ++ origins.go rows t bs) := by
    cases as with
    | nil => exact ⟨[], rfl⟩
    | cons u as =>
        obtain ⟨os, eq⟩ := behind u as
        exact ⟨_, by rw [List.cons_append, origins, eq, ← List.append_assoc]⟩
  refine ⟨os, eq, ?_⟩
  -- what stands in front of the token is as long as the text without the rest
  have bytes : (origins rows (as ++ t :: bs)).map Origin.byte =
      Text.bytes (join (pieces rows (as ++ t :: bs))) := byte_origins length
  rw [eq, whole, List.map_append, List.map_append, byte_shownOrigins (length t (by simp)),
    byte_origins_go fun u hu => length u (by simp [hu])] at bytes
  have lengths := congrArg List.length bytes
  simp only [List.length_append, List.length_map, Text.bytes_append, Text.length_bytes] at lengths
  omega

end LogicalLine

end StyleGuide
