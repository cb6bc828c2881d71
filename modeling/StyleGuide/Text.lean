/-! # Text

Source text is a list of characters. Columns and offsets count the bytes of its UTF-8 form, so
this module cuts a text at byte offsets as well as at characters.
-/

namespace StyleGuide

/-- The characters of a source, of one of its rows or of a part of a row. -/
abbrev Text := List Char

namespace Text

/-- The number of bytes of the UTF-8 form. -/
def byteLength : Text → Nat
  | [] => 0
  | c :: rest => c.utf8Size + byteLength rest

@[simp] theorem byteLength_nil : byteLength [] = 0 := rfl

@[simp] theorem byteLength_cons (c : Char) (s : Text) :
    byteLength (c :: s) = c.utf8Size + byteLength s := rfl

@[simp] theorem byteLength_append (s t : Text) :
    byteLength (s ++ t) = byteLength s + byteLength t := by
  induction s with
  | nil => simp
  | cons c s ih => simp [ih, Nat.add_assoc]

/-- The longest initial part of at most `n` bytes. -/
def takeBytes : Nat → Text → Text
  | _, [] => []
  | n, c :: rest => if c.utf8Size ≤ n then c :: takeBytes (n - c.utf8Size) rest else []

/-- What follows the longest initial part of at most `n` bytes. -/
def dropBytes : Nat → Text → Text
  | _, [] => []
  | n, c :: rest => if c.utf8Size ≤ n then dropBytes (n - c.utf8Size) rest else c :: rest

theorem takeBytes_append_dropBytes (n : Nat) (s : Text) : takeBytes n s ++ dropBytes n s = s := by
  induction s generalizing n with
  | nil => rfl
  | cons c s ih =>
    simp only [takeBytes, dropBytes]
    split
    · simp [ih]
    · rfl

theorem takeBytes_byteLength_append (s t : Text) : takeBytes (byteLength s) (s ++ t) = s := by
  induction s with
  | nil =>
    cases t with
    | nil => rfl
    | cons c t => simp [takeBytes, Nat.not_le_of_lt c.utf8Size_pos]
  | cons c s ih => simp [takeBytes, ih]

/-- The part between two byte offsets. -/
def slice (start stop : Nat) (s : Text) : Text :=
  takeBytes (stop - start) (dropBytes start s)

/-- White space: the characters that separate words in any script. -/
def isBlank (c : Char) : Bool :=
  (0x09 ≤ c.toNat && c.toNat ≤ 0x0D) || c.toNat == 0x20 || c.toNat == 0x85 || c.toNat == 0xA0 ||
  c.toNat == 0x1680 || (0x2000 ≤ c.toNat && c.toNat ≤ 0x200A) || c.toNat == 0x2028 ||
  c.toNat == 0x2029 || c.toNat == 0x202F || c.toNat == 0x205F || c.toNat == 0x3000

/-- The text without the longest final part whose characters all satisfy `p`. -/
def dropEndWhile (p : Char → Bool) (s : Text) : Text :=
  (s.reverse.dropWhile p).reverse

/-- The text without white space at its start. -/
def trimStart (s : Text) : Text := s.dropWhile isBlank

/-- The text without white space at its end. -/
def trimEnd (s : Text) : Text := dropEndWhile isBlank s

/-- The text without white space at either end. -/
def trim (s : Text) : Text := trimEnd (trimStart s)

/-- Whether the text is white space only. -/
def isAllBlank (s : Text) : Bool := s.all isBlank

/-- The row without the newline and the carriage returns at its end. -/
def withoutTerminator (row : Text) : Text :=
  dropEndWhile (fun c => c == '\n' || c == '\r') row

/-- The parts before and after the first occurrence of `part`. -/
def cut? (part : Text) : Text → Option (Text × Text)
  | [] => if part.isEmpty then some ([], []) else none
  | c :: rest =>
    if part.isPrefixOf (c :: rest) then some ([], (c :: rest).drop part.length)
    else (cut? part rest).map fun (before, after) => (c :: before, after)

/-- What is before and after the first occurrence of `part`, put around it, is the whole text. -/
theorem append_of_cut? {part s before after : Text} (h : cut? part s = some (before, after)) :
    before ++ part ++ after = s := by
  induction s generalizing before after with
  | nil =>
    simp only [cut?] at h
    split at h <;> simp_all
  | cons c s ih =>
    simp only [cut?] at h
    split at h
    · next hp =>
      obtain ⟨t, ht⟩ := List.isPrefixOf_iff_prefix.1 hp
      simp only [Option.some.injEq, Prod.mk.injEq] at h
      rw [← h.1, ← h.2, ← ht]
      simp
    · obtain ⟨⟨before', after'⟩, hc, he⟩ := Option.map_eq_some_iff.1 h
      simp only [Prod.mk.injEq] at he
      rw [← he.1, ← he.2]
      simp [← ih hc]

theorem length_lt_of_cut? {part s before after : Text} (h : cut? part s = some (before, after))
    (hp : part ≠ []) : after.length < s.length := by
  rw [← append_of_cut? h]
  have := List.length_pos_iff.2 hp
  simp only [List.length_append]
  omega

/-- The byte offset of the first occurrence of `part`. -/
def find? (part s : Text) : Option Nat :=
  (cut? part s).map fun (before, _) => byteLength before

/-- Whether `part` occurs in the text. -/
def contains (part s : Text) : Bool := (cut? part s).isSome

/-- The text with every occurrence of `part`, taken from the left, replaced by `by'`. -/
def replace (part by' s : Text) : Text :=
  if hp : part = [] then s
  else
    match h : cut? part s with
    | none => s
    | some (before, after) =>
      have := length_lt_of_cut? h hp
      before ++ by' ++ replace part by' after
termination_by s.length

/-- The parts of the text between the occurrences of `part`, taken from the left. -/
def split (part s : Text) : List Text :=
  if hp : part = [] then [s]
  else
    match h : cut? part s with
    | none => [s]
    | some (before, after) =>
      have := length_lt_of_cut? h hp
      before :: split part after
termination_by s.length

/-- Put a character in front of the first of several pieces. -/
def consFirst (c : Char) : List Text → List Text
  | [] => [[c]]
  | first :: more => (c :: first) :: more

/-- The parts of the text between the characters `separator`. -/
def splitOn (separator : Char) (s : Text) : List Text :=
  s.foldr (fun c pieces => if c == separator then [] :: pieces else consFirst c pieces) [[]]

/-- The maximal runs of characters that satisfy `p`. -/
def runs (p : Char → Bool) (s : Text) : List Text :=
  (go s).filter fun run => !run.isEmpty
where
  /-- The runs with an empty text for each character that does not satisfy `p`. -/
  go (s : Text) : List Text :=
    s.foldr (fun c runs => if p c then consFirst c runs else [] :: runs) [[]]

/-- The words of a text, which white space separates. -/
def words (s : Text) : List Text := runs (fun c => !isBlank c) s

/-- The rows of a source, each with its terminator. Only a newline ends a row. -/
def rows (s : Text) : List Text :=
  s.foldr (fun c rows => if c == '\n' then [c] :: rows else consFirst c rows) []

/-- The rows put together are the source. -/
theorem flatten_rows (s : Text) : (rows s).flatten = s := by
  induction s with
  | nil => rfl
  | cons c s ih =>
    rw [rows, List.foldr_cons, ← rows]
    split
    · simp [ih]
    · cases h : rows s <;> simp_all [consFirst]

/-- Whether a text comes no later than another in the order of the numbers of their characters. -/
def isAtMost : Text → Text → Bool
  | [], _ => true
  | _ :: _, [] => false
  | c :: s, d :: t => c.toNat < d.toNat || (c == d && isAtMost s t)

/-- The texts in ascending order. -/
def sorted (texts : List Text) : List Text := texts.mergeSort isAtMost

/-- The column behind a character of a gap: a tab goes on to the next multiple of the tab size, and
    any other character takes one column. Columns are numbers of 64 bits, so those that a huge tab
    size makes too large start again at zero. -/
def columnBehind (tabSize column : Nat) (c : Char) : Nat :=
  (if c == '\t' then column / tabSize * tabSize + tabSize else column + 1) % UInt64.size

/-- The number of characters before a byte offset; behind the end of the row each further byte
    counts as a character. An offset inside a character stays as it is. -/
def characterColumn (row : Text) (column : Nat) : Nat :=
  if byteLength row ≤ column then row.length + (column - byteLength row)
  else
    let before := takeBytes column row
    if byteLength before = column then before.length else column

end Text

end StyleGuide
