import StyleGuide.Proofs.Lexeme.Regapping
import StyleGuide.Proofs.Rule.Respacing

/-! # Spaces beside tokens

Spaces that come in where a lexeme begins or ends split no lexeme, and the rule for missing spaces
at operators puts them nowhere else.
-/

namespace StyleGuide

open Lexeme

namespace MissingOperatorSpace

section Insert

variable {columns : List Nat} {column : Nat} {b : Option Char} {g s text : Text}

theorem isGap_of_mem_spaceAt {c : Char} (h : c ∈ spaceAt columns column) : isGap c := by
  rw [spaceAt] at h
  split at h
  · obtain rfl := List.mem_singleton.mp h
    rfl
  · cases h

theorem regapped_insertSpaces (s : Text) :
    Regapped isGap (fun _ => True) b s (insertSpaces columns column s) := by
  induction s generalizing column b with
  | nil => exact .gaps (by simp) fun _ => isGap_of_mem_spaceAt
  | cons c s ih =>
      rw [insertSpaces_cons]
      apply Regapped.add trivial fun _ => isGap_of_mem_spaceAt
      by_cases hc : isGap c
      · exact .keep_gap hc ih
      · exact .keep hc ih

/-- A gap stays a gap. -/
theorem exists_insertSpaces_gap (columns : List Nat) (column : Nat) (hg : ∀ d ∈ g, isGap d) (s : Text) :
    ∃ g', (∀ d ∈ g', isGap d) ∧
      insertSpaces columns column (g ++ s) =
        g' ++ insertSpaces columns (column + Text.byteLength g) s := by
  induction g generalizing column with
  | nil => exact ⟨[], by simp, rfl⟩
  | cons d g ih =>
      obtain ⟨hd, hg⟩ := List.forall_mem_cons.mp hg
      obtain ⟨g', hg', eq⟩ := ih (column + d.utf8Size) hg
      refine ⟨spaceAt columns column ++ d :: g', ?_, ?_⟩
      · rw [List.forall_mem_append, List.forall_mem_cons]
        exact ⟨fun _ => isGap_of_mem_spaceAt, hd, hg'⟩
      · rw [List.cons_append, insertSpaces_cons, eq, Text.byteLength_cons, Nat.add_assoc,
          List.append_assoc, List.cons_append]

/-- A text without columns in it stays whole. -/
theorem insertSpaces_append
    (none : ∀ n ∈ columns, n < column ∨ column + Text.byteLength text ≤ n) (s : Text) :
    insertSpaces columns column (text ++ s) =
      text ++ insertSpaces columns (column + Text.byteLength text) s := by
  induction text generalizing column with
  | nil => rfl
  | cons c text ih =>
      have size := c.utf8Size_pos
      have free : column ∉ columns := by
        intro mem
        have := none column mem
        rw [Text.byteLength_cons] at this
        omega
      rw [List.cons_append, insertSpaces_cons, spaceAt, if_neg (by simpa using free), ih,
        Text.byteLength_cons, Nat.add_assoc]
      · rfl
      · intro n hn
        have := none n hn
        rw [Text.byteLength_cons] at this
        omega

/-- A text without columns inside it gets a space in front at most. -/
theorem insertSpaces_append_of_inner (ne : text ≠ [])
    (inner : ∀ n ∈ columns, n ≤ column ∨ column + Text.byteLength text ≤ n) (s : Text) :
    insertSpaces columns column (text ++ s) = spaceAt columns column ++ text ++
      insertSpaces columns (column + Text.byteLength text) s := by
  obtain ⟨c, text, rfl⟩ := List.exists_cons_of_ne_nil ne
  have size := c.utf8Size_pos
  rw [List.cons_append, insertSpaces_cons, insertSpaces_append, Text.byteLength_cons, Nat.add_assoc,
    List.append_assoc, List.cons_append]
  intro n hn
  have := inner n hn
  rw [Text.byteLength_cons] at this
  omega

end Insert

section Bounds

variable {columns : List Nat} {row depth column n : Nat} {line gap text : Text} {s : Text}
  {items : List RowItem} {r : RowTokens}

/-- The columns at which items begin and end, where the first has its gap at `column`. -/
def bounds (column : Nat) : List RowItem → List Nat
  | [] => []
  | item :: items =>
    let start := column + Text.byteLength item.gap
    let stop := start + Text.byteLength item.text
    start :: stop :: bounds stop items

theorem le_of_mem_bounds (h : n ∈ bounds column items) : column ≤ n := by
  induction items generalizing column with
  | nil => cases h
  | cons item items ih =>
      simp only [bounds, List.mem_cons] at h
      rcases h with rfl | rfl | h
      · omega
      · omega
      · have := ih h
        omega

/-- Spaces at the bounds of its items leave a plain text its lexemes. -/
theorem exists_itemized_insertSpaces (column : Nat) (h : Itemized s items)
    (plain : ArePlain (items.map RowItem.word))
    (outer : ∀ n ∈ columns, n ≤ column ∨ n ∈ bounds column items) :
    ∃ items', Itemized (insertSpaces columns column s) items' ∧
      items'.map RowItem.word = items.map RowItem.word := by
  induction h generalizing column with
  | nil hg =>
      exact ⟨[], .nil ((regapped_insertSpaces (b := none) _).forall_of_gaps hg), rfl⟩
  | last hg taken he =>
      exact absurd he (Bool.eq_false_iff.mp (endsRow_of_isPlain plain.head))
  | @cons gap text behind k items hg taken he rest ih =>
      have place (n : Nat) (hn : n ∈ columns) : n ≤ column + Text.byteLength gap ∨
          n = column + Text.byteLength gap + Text.byteLength text ∨
          n ∈ bounds (column + Text.byteLength gap + Text.byteLength text) items := by
        rcases outer n hn with le | mem
        · omega
        · simp only [bounds, List.mem_cons] at mem
          rcases mem with rfl | mem
          · exact .inl (Nat.le_refl _)
          · exact .inr mem
      obtain ⟨items', itemized, words⟩ :=
        ih (column + Text.byteLength gap + Text.byteLength text) plain.tail
          fun n hn => by
            rcases place n hn with le | rfl | mem
            · exact .inl (by omega)
            · exact .inl (Nat.le_refl _)
            · exact .inr mem
      obtain ⟨g, hg', gaps⟩ := exists_insertSpaces_gap columns column hg (text ++ behind)
      have inner (n : Nat) (hn : n ∈ columns) : n ≤ column + Text.byteLength gap ∨
          column + Text.byteLength gap + Text.byteLength text ≤ n := by
        rcases place n hn with le | rfl | mem
        · exact .inl le
        · exact .inr (Nat.le_refl _)
        · exact .inr (le_of_mem_bounds mem)
      have texts := insertSpaces_append_of_inner taken.ne_nil inner behind
      have taken' := rest.takes_regap plain (fun _ => isBreak_of_isGap) taken
        (regapped_insertSpaces behind) (itemized.next_concat_of_apart words plain)
      have gap' : ∀ c ∈ g ++ spaceAt columns (column + Text.byteLength gap), isGap c :=
        List.forall_mem_append.mpr ⟨hg', fun _ => isGap_of_mem_spaceAt⟩
      have whole := Itemized.cons gap' taken' he itemized
      rw [List.append_assoc, List.append_assoc, ← List.append_assoc _ text, ← texts, ← gaps,
        ← List.append_assoc] at whole
      refine ⟨_, whole, ?_⟩
      rw [List.map_cons, List.map_cons, words]
      rfl

/-- The tokens of a statement begin and end at the bounds of its items. -/
theorem mem_bounds_of_tokens
    (h : RowItem.tokens row line depth column (items ++ [⟨gap, .terminator, text⟩]) = .ok r) :
    ∀ t ∈ r.tokens, t.isContent →
      t.start.column ∈ bounds column items ∧ t.stop.column ∈ bounds column items := by
  induction items generalizing depth column r with
  | nil =>
      intro t ht content
      cases RowItem.leads_of_tokens h with
      | joint hk | openLiteral hk => cases hk
      | terminator =>
          obtain rfl := List.mem_singleton.mp ht
          simp only [Token.isContent] at content
          split at content <;> cases content
      | token he => cases he
  | cons item items ih =>
      intro t ht content
      cases RowItem.leads_of_tokens h with
      | joint | openLiteral => cases ht
      | terminator =>
          obtain rfl := List.mem_singleton.mp ht
          simp only [Token.isContent] at content
          split at content <;> cases content
      | token _ _ rest =>
          rcases List.mem_cons.mp ht with rfl | ht
          · simp [bounds, RowItem.token]
          · obtain ⟨start, stop⟩ := ih rest t ht content
            simp only [bounds, List.mem_cons]
            exact ⟨.inr (.inr start), .inr (.inr stop)⟩

end Bounds

end MissingOperatorSpace

end StyleGuide
