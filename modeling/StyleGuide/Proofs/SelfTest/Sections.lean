import Mathlib.Data.List.Basic
import StyleGuide.Proofs.Text.Rows
import StyleGuide.SelfTest.Fixture

/-! # The sections of a fixture file

A section stands behind each declaration that lists something and goes on up to the next
declaration, whatever that lists. The rows in front of the first declaration, if there are any, are
a section as well.
-/

namespace StyleGuide.Fixture

/-- The rows from index `n` on, up to the next declaration. -/
def bodyFrom (rows : List Text) (n : Nat) : List Text :=
  (rows.drop n).takeWhile fun row => !isDeclaration row

/-- The section that the row with index `n` declares. -/
def sectionAt (rows : List Text) (n : Nat) : Section :=
  ⟨n, declaredIn (rows[n]?.getD []), (bodyFrom rows (n + 1)).flatten⟩

/-- The section in front of the first declaration; `none` if no row stands there. -/
def opening? (rows : List Text) : Option Section :=
  if bodyFrom rows 0 = [] then none else some ⟨0, ["Okay"], (bodyFrom rows 0).flatten⟩

/-- Whether the row with index `n` declares a section. -/
def declaresAt (rows : List Text) (n : Nat) : Bool := isDeclaration (rows[n]?.getD [])

/-- The indices of the declarations that list something. -/
def declarations (rows : List Text) : List Nat :=
  (List.range rows.length).filter fun n =>
    declaresAt rows n && !(declaredIn (rows[n]?.getD [])).isEmpty

variable {rows rest : List Text} {row : Text} {declared : List String} {k n : Nat}

theorem sectionsFrom_eq (k n : Nat) (declared : List String) (rows : List Text) :
    sectionsFrom k n declared rows =
      ⟨k, declared, (rows.takeWhile fun row => !isDeclaration row).flatten⟩ ::
        match rows.dropWhile fun row => !isDeclaration row with
        | [] => []
        | declaration :: rest =>
          let index := n + (rows.takeWhile fun row => !isDeclaration row).length
          sectionsFrom index (index + 1) (declaredIn declaration) rest := by
  rw [sectionsFrom]
  split
  · next none => rw [none]
  · next declaration rest some => simp only [some]

theorem sectionsFrom_cons_of_declaration (h : isDeclaration row) :
    sectionsFrom k n declared (row :: rest) =
      ⟨k, declared, []⟩ :: sectionsFrom n (n + 1) (declaredIn row) rest := by
  rw [sectionsFrom_eq]
  simp [h]

/-- A row that declares nothing belongs to the section in front. -/
theorem sectionsFrom_cons (h : isDeclaration row = false) :
    sectionsFrom k n declared (row :: rest) =
      (sectionsFrom k (n + 1) declared rest).modifyHead fun s =>
        { s with source := row ++ s.source } := by
  rw [sectionsFrom_eq, sectionsFrom_eq]
  simp [h, Nat.add_assoc, Nat.add_comm 1]

theorem bodyFrom_eq (lt : n < rows.length) : bodyFrom rows n =
    if declaresAt rows n then [] else rows[n] :: bodyFrom rows (n + 1) := by
  rw [bodyFrom, List.drop_eq_getElem_cons lt, List.takeWhile_cons, declaresAt,
    List.getElem?_eq_getElem lt, Option.getD_some, bodyFrom]
  cases isDeclaration rows[n] <;> rfl

theorem sectionsFrom_drop (whole : n + k = rows.length) (d : Nat) (declared : List String) :
    sectionsFrom d n declared (rows.drop n) =
      ⟨d, declared, (bodyFrom rows n).flatten⟩ ::
        ((List.range' n k).filter (declaresAt rows)).map (sectionAt rows) := by
  -- row by row: the next one begins a section of its own or joins the one in front
  induction k generalizing n d declared with
  | zero =>
      rw [bodyFrom, List.drop_of_length_le (by omega), sectionsFrom_eq]
      rfl
  | succ k ih =>
      have lt : n < rows.length := by omega
      have here : rows[n]?.getD [] = rows[n] := by rw [List.getElem?_eq_getElem lt]; rfl
      have behind := ih (n := n + 1) (by omega)
      rw [bodyFrom_eq lt, List.range'_succ, List.filter_cons, List.drop_eq_getElem_cons lt]
      cases h : declaresAt rows n with
      | true =>
          rw [sectionsFrom_cons_of_declaration (by rwa [declaresAt, here] at h), behind]
          simp [sectionAt, here]
      | false =>
          rw [sectionsFrom_cons (by rwa [declaresAt, here] at h), behind]
          simp

theorem filter_listed (n k : Nat) :
    (((List.range' n k).filter (declaresAt rows)).map (sectionAt rows)).filter
        (fun s => !s.declared.isEmpty) =
      ((List.range' n k).filter fun i =>
        declaresAt rows i && !(declaredIn (rows[i]?.getD [])).isEmpty).map (sectionAt rows) := by
  rw [List.filter_map, List.filter_filter]
  exact congrArg _ (List.filter_congr fun i _ => Bool.and_comm ..)

/-- The sections are those in front of the first declaration and behind the declarations that list
    something. -/
theorem sections_eq (contents : Text) : sections contents =
    (opening? (Text.rows contents)).toList ++
      (declarations (Text.rows contents)).map (sectionAt (Text.rows contents)) := by
  unfold sections
  generalize Text.rows contents = rows
  rw [declarations, List.range_eq_range', ← filter_listed]
  cases rows with
  | nil => rfl
  | cons first rest =>
      have start := @bodyFrom_eq (first :: rest) 0 (by simp)
      dsimp only
      cases h : declaresAt (first :: rest) 0 with
      | true =>
          have here : isDeclaration first = true := h
          have behind := @sectionsFrom_drop (first :: rest) rest.length 1 (Nat.add_comm ..) 0
            (declaredIn first)
          rw [List.drop_succ_cons, List.drop_zero] at behind
          rw [h, if_pos rfl] at start
          rw [if_pos here, opening?, if_pos start, behind, List.length_cons, List.range'_succ,
            List.filter_cons_of_pos h]
          rfl
      | false =>
          have here : isDeclaration first = false := h
          have all := @sectionsFrom_drop (first :: rest) _ 0 (Nat.zero_add _) 0 ["Okay"]
          rw [List.drop_zero] at all
          rw [h, if_neg (by simp)] at start
          rw [here, if_neg (by simp), all, opening?, if_neg (by simp [start])]
          rfl

/-! ## Where sections stand -/

/-- A section stands behind these rows of the file: at the start, or behind its declaration. -/
inductive Section.StandsBehind (s : Section) : List Text → Prop where
  | opening (index : s.declaredAt = 0) (declared : s.declared = ["Okay"]) : StandsBehind s []
  | declaration {above : List Text} {row : Text} (declares : isDeclaration row)
      (index : above.length = s.declaredAt) (declared : declaredIn row = s.declared) :
      StandsBehind s (above ++ [row])

theorem rows_flatten_bodyFrom (contents : Text) (n : Nat) :
    Text.rows (bodyFrom (Text.rows contents) n).flatten = bodyFrom (Text.rows contents) n := by
  have whole := Text.areRows_rows contents
  rw [← List.take_append_drop n (Text.rows contents)] at whole
  have behind := whole.of_append_right
  rw [← List.takeWhile_append_dropWhile (p := fun row => !isDeclaration row)
    (l := (Text.rows contents).drop n)] at behind
  exact Text.rows_flatten behind.of_append_left

theorem exists_append_bodyFrom (rows : List Text) (n : Nat) :
    ∃ below, rows = rows.take n ++ bodyFrom rows n ++ below := by
  refine ⟨(rows.drop n).dropWhile fun row => !isDeclaration row, ?_⟩
  rw [List.append_assoc, bodyFrom, List.takeWhile_append_dropWhile, List.take_append_drop]

/-- The rows of a section stand in the file one behind the other. -/
theorem exists_rows_of_mem {contents : Text} {s : Section} (mem : s ∈ sections contents) :
    ∃ above below, Text.rows contents = above ++ Text.rows s.source ++ below ∧
      s.StandsBehind above := by
  rw [sections_eq, List.mem_append, Option.mem_toList, List.mem_map] at mem
  rcases mem with opening | ⟨n, hn, rfl⟩
  · obtain ⟨-, eq⟩ := Option.ite_none_left_eq_some.mp opening
    obtain rfl := Option.some.inj eq
    obtain ⟨below, whole⟩ := exists_append_bodyFrom (Text.rows contents) 0
    refine ⟨[], below, ?_, .opening rfl rfl⟩
    rwa [rows_flatten_bodyFrom]
  · obtain ⟨lt, listed⟩ := List.mem_filter.mp hn
    have lt : n < (Text.rows contents).length := List.mem_range.mp lt
    have declares : isDeclaration (Text.rows contents)[n] := by
      have := (Bool.and_eq_true_iff.mp listed).1
      rwa [declaresAt, List.getElem?_eq_getElem lt, Option.getD_some] at this
    obtain ⟨below, whole⟩ := exists_append_bodyFrom (Text.rows contents) (n + 1)
    rw [List.take_succ_eq_append_getElem lt] at whole
    refine ⟨(Text.rows contents).take n ++ [(Text.rows contents)[n]], below, ?_,
      .declaration declares ?_ ?_⟩
    · rwa [sectionAt, rows_flatten_bodyFrom]
    · exact List.length_take_of_le (Nat.le_of_lt lt)
    · rw [sectionAt, List.getElem?_eq_getElem lt, Option.getD_some]

end StyleGuide.Fixture
