import StyleGuide.Proofs.Lexeme.Spread
import StyleGuide.Proofs.Contents

/-! # Spaces at the seams of a row

Two parts of a statement meet at a seam where nothing stands between them. Spaces that come in at
seams leave every lexeme what it is, and every token moves by the spaces that come in before it.
-/

namespace StyleGuide

open Lexeme

theorem Lexeme.Takes.byteLength_pos {k : Lexeme} {text behind : Text} (h : k.Takes text behind) :
    0 < Text.byteLength text :=
  Nat.pos_of_ne_zero (mt Text.byteLength_eq_zero.mp h.ne_nil)

namespace RowItem

/-- Whether the lexeme is a part of a statement that rules for spaces look at. -/
def isSpaced (item : RowItem) : Bool :=
  match item.lexeme with
  | .number | .operator | .literal | .word => true
  | .joint | .comment | .terminator | .openLiteral _ | .stray => false

theorem isSpaced_token {gap text : Text} {k : Lexeme} (he : k.endsRow = false) (row : Nat)
    (line : Text) (column : Nat) :
    StyleGuide.isSpaced (token ⟨gap, k, text⟩ row line column) = isSpaced ⟨gap, k, text⟩ := by
  cases k with
  | joint | terminator | openLiteral => cases he
  | comment | number | operator | literal | stray => rfl
  | word =>
      simp only [StyleGuide.isSpaced, Token.isContent, token, kind]
      split <;> rfl

/-- A stray character of a row that can be read is no quote mark. -/
theorem isQuote_of_depthAfter {item : RowItem} {depth d : Nat} (hk : item.lexeme = .stray)
    (ok : item.depthAfter depth = .ok d) : ∀ c ∈ item.text.head?, isQuote c = false := by
  intro c hc
  cases quote : isQuote c with
  | false => rfl
  | true => simp [depthAfter, hk, Option.mem_def.mp hc, quote] at ok

end RowItem

/-- What reading the rest `s` of the row `line` from byte `column` on comes to, where nothing goes
    on with the next row. -/
inductive ReadsRow (row : Nat) (line : Text) :
    Nat → Nat → Text → List RowItem → RowTokens → Prop where
  | nil {depth column : Nat} {gap : Text} (hg : ∀ c ∈ gap, isGap c) :
      ReadsRow row line depth column gap [] ⟨[], depth, .plain⟩
  | terminator {depth column : Nat} {gap text behind : Text} (hg : ∀ c ∈ gap, isGap c)
      (taken : Lexeme.terminator.Takes text behind) :
      ReadsRow row line depth column (gap ++ text ++ behind) [⟨gap, .terminator, text⟩]
        ⟨[{ RowItem.token ⟨gap, .terminator, text⟩ row line column with
          kind := if depth = 0 then .newline else .rowBreak }], depth, .plain⟩
  | cons {depth d column : Nat} {gap text behind : Text} {k : Lexeme} {items : List RowItem}
      {r : RowTokens} (hg : ∀ c ∈ gap, isGap c) (taken : k.Takes text behind)
      (he : k.endsRow = false) (ok : RowItem.depthAfter ⟨gap, k, text⟩ depth = .ok d)
      (rest : ReadsRow row line d (column + Text.byteLength gap + Text.byteLength text) behind
        items r) :
      ReadsRow row line depth column (gap ++ text ++ behind) (⟨gap, k, text⟩ :: items)
        (r.after (RowItem.token ⟨gap, k, text⟩ row line column))

namespace ReadsRow

variable {row depth column : Nat} {line s : Text} {item : RowItem} {items : List RowItem}
  {r : RowTokens} {t : Token}

theorem of_scanRow (scan : scanRow row line depth column s = .ok r) (plain : r.rowEnd = .plain) :
    ReadsRow row line depth column s (RowItem.list s) r := by
  rw [scanRow] at scan
  have itemized := itemized_list s
  generalize RowItem.list s = items at scan itemized
  induction itemized generalizing depth column r with
  | nil hg =>
      obtain rfl := Except.ok.inj scan
      exact .nil hg
  | last hg taken he =>
      cases RowItem.leads_of_tokens scan with
      | joint | openLiteral => cases plain
      | token off => exact absurd he (Bool.eq_false_iff.mp off)
      | terminator hk =>
          obtain rfl := hk
          exact .terminator hg taken
  | cons hg taken he _ ih =>
      cases RowItem.leads_of_tokens scan with
      | joint hk | openLiteral hk | terminator hk =>
          obtain rfl := hk
          cases he
      | token _ ok rest => exact .cons hg taken he ok (ih plain rest)

theorem itemized (h : ReadsRow row line depth column s items r) : Itemized s items := by
  induction h with
  | nil hg => exact .nil hg
  | terminator hg taken => exact .last hg taken rfl
  | cons hg taken he _ _ ih => exact .cons hg taken he ih

theorem scanRow_eq (h : ReadsRow row line depth column s items r) :
    scanRow row line depth column s = .ok r := by
  rw [scanRow, h.itemized.list_eq]
  induction h with
  | nil | terminator => rfl
  | cons _ _ he ok _ ih =>
      rw [RowItem.tokens_cons he ok]
      exact congrArg (Except.map (RowTokens.after _)) ih

theorem rowEnd_eq (h : ReadsRow row line depth column s items r) : r.rowEnd = .plain := by
  induction h with
  | nil | terminator => rfl
  | cons _ _ _ _ _ ih => exact ih

theorem head (h : ReadsRow row line depth column s (item :: items) r) :
    item.lexeme = .terminator ∨
      item.lexeme.endsRow = false ∧ ∃ d, item.depthAfter depth = .ok d := by
  cases h with
  | terminator => exact .inl rfl
  | cons _ _ he ok => exact .inr ⟨he, _, ok⟩

/-- A row begins with a quote mark only where it begins with a literal. -/
theorem literal?_of_isQuote {c : Char} (h : ReadsRow row line depth column s items r)
    (hc : c ∈ s.head?) (quote : isQuote c) : ∃ m, literal? s = some (.closed m) := by
  obtain ⟨k, text, behind, rest, rfl, rfl, taken, head⟩ :=
    h.itemized.exists_cons hc fun gap => not_of_isGap (by decide) gap quote
  obtain ⟨more, rfl⟩ := List.head?_eq_some_iff.mp head
  have reading := reading_next (isOrdinary_of_isFirm (isFirm_of_isQuote quote)) (more ++ behind)
  rw [← List.cons_append, taken.next_eq] at reading
  generalize (c :: more).length = n at reading
  cases reading with
  | literal _ _ found => exact ⟨_, found⟩
  | number found =>
      obtain ⟨reads, pos⟩ := reads_number? found
      exact absurd quote (not_isQuote_of_isNumeric (reads.head pos))
  | operator _ found =>
      obtain ⟨reads, pos⟩ := reads_operator? found
      exact absurd quote (not_isQuote_of_isSymbol (reads.head pos))
  | openLiteral =>
      rcases h.head with hk | ⟨he, -⟩
      · cases hk
      · cases he
  | word _ _ _ hw => exact absurd quote (not_isQuote_of_isWord hw)
  | stray =>
      rcases h.head with hk | ⟨-, d, ok⟩
      · cases hk
      · rw [RowItem.isQuote_of_depthAfter rfl ok c rfl] at quote
        cases quote

theorem row_eq (h : ReadsRow row line depth column s items r) (ht : t ∈ r.tokens) :
    t.stop.row = row := by
  induction h with
  | nil => cases ht
  | terminator =>
      obtain rfl := List.mem_singleton.mp ht
      rfl
  | cons _ _ _ _ _ ih =>
      rcases List.mem_cons.mp ht with rfl | ht
      · rfl
      · exact ih ht

/-- A token of the rest of a row stands behind what has been read, and begins the rest if it stands
    directly behind that. -/
theorem start (h : ReadsRow row line depth column s items r) (ht : t ∈ r.tokens) :
    column ≤ t.start.column ∧ (t.start.column = column → t.text <+: s) := by
  have first (column : Nat) (gap text behind : Text) : column ≤ column + Text.byteLength gap ∧
      (column + Text.byteLength gap = column → text <+: gap ++ text ++ behind) := by
    refine ⟨Nat.le_add_right .., fun here => ?_⟩
    obtain rfl := Text.byteLength_eq_zero.mp (Nat.add_eq_left.mp here)
    exact List.prefix_append _ _
  induction h with
  | nil => cases ht
  | terminator =>
      obtain rfl := List.mem_singleton.mp ht
      exact first ..
  | cons _ taken _ _ _ ih =>
      have := taken.byteLength_pos
      rcases List.mem_cons.mp ht with rfl | ht
      · exact first ..
      · have := (ih ht).1
        exact ⟨by omega, fun here => by omega⟩

end ReadsRow

namespace MissingOperatorSpace

variable {columns : List Nat} {near : Bool} {row depth column n : Nat}
  {line s gap text behind : Text} {k : Lexeme} {item : RowItem} {items : List RowItem} {r : RowTokens} {t u : Token}

/-- Two parts of a statement meet at column `n` of a row, where the first of these items has its gap
    at `column` and `near` says that a part of the statement ends there. -/
inductive IsSeam (n : Nat) : Bool → Nat → List RowItem → Prop where
  | here {near : Bool} {item : RowItem} {items : List RowItem} (hn : near) (hg : item.gap = [])
      (spaced : item.isSpaced) : IsSeam n near n (item :: items)
  | later {near : Bool} {column : Nat} {item : RowItem} {items : List RowItem}
      (rest : IsSeam n item.isSpaced
        (column + Text.byteLength item.gap + Text.byteLength item.text) items) :
      IsSeam n near column (item :: items)

namespace IsSeam

theorem le (h : IsSeam n near column items) : column ≤ n := by
  induction h with
  | here => exact Nat.le_refl _
  | later _ ih => omega

/-- No seam is where no part of the statement ends. -/
theorem lt (h : IsSeam n false column items) (hi : Itemized s items) : column < n := by
  cases h with
  | here hn => cases hn
  | later rest =>
      have le := rest.le
      cases hi with
      | last _ taken | cons _ taken =>
          have := taken.byteLength_pos
          dsimp only at le
          omega

/-- A seam is inside the row. -/
theorem lt_add (h : IsSeam n near column items) (hi : Itemized s items) :
    n < column + Text.byteLength s := by
  induction hi generalizing near column with
  | nil => cases h
  | last _ taken =>
      have := taken.byteLength_pos
      cases h with
      | here =>
          simp only [Text.byteLength_append]
          omega
      | later rest => cases rest
  | cons _ taken _ _ ih =>
      have := taken.byteLength_pos
      simp only [Text.byteLength_append]
      cases h with
      | here => omega
      | later rest =>
          have := ih rest
          dsimp only at this
          omega

end IsSeam

/-- Spaces come in at the seams of a row and in front of it. -/
def AtSeams (columns : List Nat) (near : Bool) (column : Nat) (items : List RowItem) : Prop :=
  ∀ n ∈ columns, n < column ∨ IsSeam n near column items

namespace AtSeams

/-- The next item has no space inside its gap or inside its text. -/
theorem place (h : AtSeams columns near column (⟨gap, k, text⟩ :: items)) :
    ∀ n ∈ columns, n < column ∨ n = column + Text.byteLength gap ∨
      column + Text.byteLength gap + Text.byteLength text ≤ n := by
  intro n hn
  rcases h n hn with before | seam
  · exact .inl before
  · cases seam with
    | here _ hg =>
        obtain rfl : gap = [] := hg
        exact .inr (.inl rfl)
    | later rest => exact .inr (.inr rest.le)

theorem tail (h : AtSeams columns near column (⟨gap, k, text⟩ :: items))
    (pos : 0 < Text.byteLength text) :
    AtSeams columns (RowItem.isSpaced ⟨gap, k, text⟩)
      (column + Text.byteLength gap + Text.byteLength text) items := by
  intro n hn
  rcases h n hn with before | seam
  · exact .inl (by omega)
  · cases seam with
    | here => exact .inl (by omega)
    | later rest => exact .inr rest

theorem lt (h : AtSeams columns near column []) (hn : n ∈ columns) : n < column := by
  rcases h n hn with before | seam
  · exact before
  · cases seam

/-- The first item of a row has no space in front. -/
theorem first (h : AtSeams columns false column (⟨gap, k, text⟩ :: items)) :
    ∀ n ∈ columns, n < column ∨ column + Text.byteLength (gap ++ text) ≤ n := by
  intro n hn
  rcases h n hn with before | seam
  · exact .inl before
  · cases seam with
    | here near => cases near
    | later rest =>
        rw [Text.byteLength_append, ← Nat.add_assoc]
        exact .inr rest.le

theorem not_mem (h : AtSeams columns false column items) (hi : Itemized s items) :
    column ∉ columns := by
  intro mem
  rcases h column mem with before | seam
  · exact absurd before (Nat.lt_irrefl _)
  · exact absurd (seam.lt hi) (Nat.lt_irrefl _)

end AtSeams

/-- An item whose gap begins at `column`, with a space behind the gap if the item begins at one of
    the columns. -/
def spaced (columns : List Nat) (column : Nat) (item : RowItem) : RowItem :=
  { item with gap := item.gap ++ spaceAt columns (column + Text.byteLength item.gap) }

/-- The items of a row with spaces in front of those that begin at the columns. -/
def spread (columns : List Nat) (column : Nat) : List RowItem → List RowItem
  | [] => []
  | item :: items => spaced columns column item ::
      spread columns (column + Text.byteLength item.gap + Text.byteLength item.text) items

theorem spread_insertSpaces (columns : List Nat) (column : Nat) (s : Text) :
    Spread s (insertSpaces columns column s) := by
  have space {s s' : Text} {column : Nat} (h : Spread s s') :
      Spread s (spaceAt columns column ++ s') := by
    rw [spaceAt]
    split
    · exact .space h
    · exact h
  induction s generalizing column with
  | nil =>
      rw [insertSpaces_nil, ← List.append_nil (spaceAt ..)]
      exact space .nil
  | cons c s ih =>
      rw [insertSpaces_cons]
      exact space (.keep c (ih _))

theorem head?_insertSpaces (none : column ∉ columns) :
    (insertSpaces columns column s).head? = s.head? := by
  cases s with
  | nil => rw [insertSpaces_nil, spaceAt_eq_nil none]
  | cons c s =>
      rw [insertSpaces_cons, spaceAt_eq_nil none]
      rfl

/-- A text without columns in it stays as it is. -/
theorem insertSpaces_eq_self (none : ∀ n ∈ columns, n < column ∨ column + Text.byteLength s < n) :
    insertSpaces columns column s = s := by
  have free : column + Text.byteLength s ∉ columns := fun mem => by
    have := none _ mem
    omega
  have same := insertSpaces_append (fun n hn => (none n hn).imp_right Nat.le_of_lt) []
  rwa [List.append_nil, insertSpaces_nil, spaceAt_eq_nil free, List.append_nil] at same

theorem insertSpaces_concat (columns : List Nat) (column : Nat) (s : Text) (c : Char) :
    insertSpaces columns column (s ++ [c]) = insertSpaces columns column s ++
      c :: spaceAt columns (column + Text.byteLength s + c.utf8Size) := by
  induction s generalizing column with
  | nil => rw [List.nil_append, insertSpaces_cons, insertSpaces_nil, insertSpaces_nil]; rfl
  | cons d s ih =>
      rw [List.cons_append, insertSpaces_cons, ih, insertSpaces_cons, Text.byteLength_cons,
        List.append_assoc, List.cons_append, Nat.add_assoc column]

/-- An item keeps its text and gets a space behind its gap at most. -/
theorem insertSpaces_item (taken : k.Takes text behind)
    (place : ∀ n ∈ columns, n < column ∨ n = column + Text.byteLength gap ∨
      column + Text.byteLength gap + Text.byteLength text ≤ n) :
    insertSpaces columns column (gap ++ text ++ behind) =
      gap ++ spaceAt columns (column + Text.byteLength gap) ++ text ++
        insertSpaces columns (column + Text.byteLength gap + Text.byteLength text) behind := by
  have outer : ∀ n ∈ columns, n < column ∨ column + Text.byteLength gap ≤ n := by
    intro n hn
    have := place n hn
    omega
  have inner : ∀ n ∈ columns, n ≤ column + Text.byteLength gap ∨
      column + Text.byteLength gap + Text.byteLength text ≤ n := by
    intro n hn
    have := place n hn
    omega
  rw [List.append_assoc, insertSpaces_append outer, insertSpaces_append_of_inner taken.ne_nil inner]
  simp only [List.append_assoc]

/-- A row keeps the gap at its start and the character behind it. -/
theorem start_insertSpaces (hi : Itemized s items) (seams : AtSeams columns false column items) :
    (insertSpaces columns column s).takeWhile isGap = s.takeWhile isGap ∧
      ((insertSpaces columns column s).dropWhile isGap).head? = (s.dropWhile isGap).head? := by
  have first {gap text behind : Text} {k : Lexeme} {items : List RowItem} (hg : ∀ c ∈ gap, isGap c)
      (taken : k.Takes text behind)
      (seams : AtSeams columns false column (⟨gap, k, text⟩ :: items)) :
      (insertSpaces columns column (gap ++ text ++ behind)).takeWhile isGap =
          (gap ++ text ++ behind).takeWhile isGap ∧
        ((insertSpaces columns column (gap ++ text ++ behind)).dropWhile isGap).head? =
          ((gap ++ text ++ behind).dropWhile isGap).head? := by
    rw [insertSpaces_append seams.first]
    obtain ⟨c, more, rfl⟩ := List.exists_cons_of_ne_nil taken.ne_nil
    have hc : ¬isGap c := taken.not_isGap c rfl
    simp only [List.append_assoc, List.cons_append, List.takeWhile_append_of_pos hg,
      List.dropWhile_append_of_pos hg, List.takeWhile_cons_of_neg hc,
      List.dropWhile_cons_of_neg hc, List.head?_cons, and_self]
  cases hi with
  | nil => rw [insertSpaces_eq_self fun n hn => .inl (seams.lt hn)]; exact ⟨rfl, rfl⟩
  | last hg taken | cons hg taken => exact first hg taken seams

/-- The number of spaces that come in before byte `n`. -/
def spacesBefore (columns : List Nat) (n : Nat) : Nat := (List.range n).countP columns.contains

theorem spacesBefore_succ (columns : List Nat) (n : Nat) :
    spacesBefore columns (n + 1) =
      spacesBefore columns n + Text.byteLength (spaceAt columns n) := by
  rw [spacesBefore, spacesBefore, List.range_succ, List.countP_append, List.countP_singleton,
    spaceAt]
  split <;> rfl

theorem spacesBefore_mono {a b : Nat} (le : a ≤ b) :
    spacesBefore columns a ≤ spacesBefore columns b := by
  induction le with
  | refl => exact Nat.le_refl _
  | step _ ih => exact Nat.le_trans ih (by rw [spacesBefore_succ]; exact Nat.le_add_right ..)

theorem spacesBefore_eq {a b : Nat} (le : a ≤ b) (none : ∀ n ∈ columns, n < a ∨ b ≤ n) :
    spacesBefore columns b = spacesBefore columns a := by
  induction le with
  | refl => rfl
  | @step b le ih =>
      have le : a ≤ b := le
      have free : b ∉ columns := fun mem => by
        have := none b mem
        omega
      rw [spacesBefore_succ, spaceAt_eq_nil free, ih fun n hn => by have := none n hn; omega]
      rfl

/-- The token on the row `line` with the spaces, where those at its start stand in front of it. -/
def moved (columns : List Nat) (line : Text) (t : Token) : Token :=
  { t with
    start := { t.start with
      column := t.start.column + spacesBefore columns (t.start.column + 1) }
    stop := { t.stop with column := t.stop.column + spacesBefore columns t.stop.column }
    line }

/-- The token of an item moves by the spaces before it. -/
theorem moved_token (seams : AtSeams columns near column (⟨gap, k, text⟩ :: items))
    (pos : 0 < Text.byteLength text) (row : Nat) (line line' : Text) :
    RowItem.token ⟨gap ++ spaceAt columns (column + Text.byteLength gap), k, text⟩ row line'
        (column + spacesBefore columns column) =
      moved columns line' (RowItem.token ⟨gap, k, text⟩ row line column) := by
  have start : spacesBefore columns (column + Text.byteLength gap) = spacesBefore columns column :=
    spacesBefore_eq (Nat.le_add_right ..) fun n hn => by
      have := seams.place n hn
      omega
  have stop : spacesBefore columns (column + Text.byteLength gap + Text.byteLength text) =
      spacesBefore columns (column + Text.byteLength gap + 1) :=
    spacesBefore_eq (by omega) fun n hn => by
      have := seams.place n hn
      omega
  simp only [RowItem.token, moved, Text.byteLength_append, stop, spacesBefore_succ, start,
    Token.mk.injEq, Position.mk.injEq, true_and, and_true]
  refine ⟨rfl, ?_, ?_⟩ <;> omega

/-- Spaces at the seams of a row leave its lexemes what they are and move its tokens. -/
theorem readsRow_spread (h : ReadsRow row line depth column s items r)
    (seams : AtSeams columns near column items) (line' : Text) :
    ReadsRow row line' depth (column + spacesBefore columns column) (insertSpaces columns column s)
      (spread columns column items) { r with tokens := r.tokens.map (moved columns line') } := by
  have gapped {gap : Text} {start : Nat} (hg : ∀ c ∈ gap, isGap c) :
      ∀ c ∈ gap ++ spaceAt columns start, isGap c :=
    List.forall_mem_append.mpr ⟨hg, fun _ => isGap_of_mem_spaceAt⟩
  induction h generalizing near with
  | nil hg =>
      rw [insertSpaces_eq_self fun n hn => .inl (seams.lt hn)]
      exact .nil hg
  | @terminator depth column gap text behind hg taken =>
      have first := moved_token seams taken.byteLength_pos row line line'
      have gap' : ∀ c ∈ gap ++ spaceAt columns (column + Text.byteLength gap), isGap c := gapped hg
      rw [insertSpaces_item taken seams.place]
      have taken' := taken.terminator
        (insertSpaces columns (column + Text.byteLength gap + Text.byteLength text) behind)
      have last : ReadsRow row line' depth (column + spacesBefore columns column) _ _ _ :=
        .terminator gap' taken'
      rw [first] at last
      exact last
  | @cons depth d column gap text behind k items r hg taken he ok rest ih =>
      have first := moved_token seams taken.byteLength_pos row line line'
      have stop : column + spacesBefore columns column +
          Text.byteLength (gap ++ spaceAt columns (column + Text.byteLength gap)) +
          Text.byteLength text = column + Text.byteLength gap + Text.byteLength text +
            spacesBefore columns (column + Text.byteLength gap + Text.byteLength text) :=
        congrArg (·.stop.column) first
      have gap' : ∀ c ∈ gap ++ spaceAt columns (column + Text.byteLength gap), isGap c := gapped hg
      have tail := seams.tail taken.byteLength_pos
      have taken' := taken.spread he (spread_insertSpaces ..)
        (by rintro rfl; exact head?_insertSpaces (tail.not_mem rest.itemized))
        (by rintro rfl; exact RowItem.isQuote_of_depthAfter rfl ok)
        fun d hd quote => rest.literal?_of_isQuote hd quote
      have more := ih tail
      rw [← stop] at more
      rw [insertSpaces_item taken seams.place]
      have whole := ReadsRow.cons gap' taken' he ok more
      rw [first] at whole
      exact whole

/-- The end of a row is no part of a statement. -/
theorem isSpaced_terminator (t : Token) :
    isSpaced { t with kind := if depth = 0 then .newline else .rowBreak } = false := by
  simp only [isSpaced, Token.isContent]
  split <;> rfl

/-- A part of a statement directly behind what has been read is at a seam. -/
theorem isSeam_of_mem (h : ReadsRow row line depth column s items r) (hu : u ∈ r.tokens)
    (part : isSpaced u) (here : u.start.column = column) : IsSeam column true column items := by
  cases h with
  | nil => cases hu
  | terminator =>
      rw [List.mem_singleton.mp hu, isSpaced_terminator] at part
      cases part
  | cons _ taken he _ rest =>
      rcases List.mem_cons.mp hu with rfl | hu
      · rw [RowItem.isSpaced_token he] at part
        exact .here rfl (Text.byteLength_eq_zero.mp (Nat.add_eq_left.mp here)) part
      · have := (rest.start hu).1
        have := taken.byteLength_pos
        omega

/-- Two parts of a statement in a row meet at a seam if the second begins where the first ends. -/
theorem isSeam_of_infix (h : ReadsRow row line depth column s items r)
    (sub : [t, u] <:+: r.tokens.filter isSpaced) (glued : u.start.column = t.stop.column) :
    IsSeam t.stop.column near column items := by
  induction h generalizing near with
  | nil => cases List.infix_nil.mp sub
  | terminator =>
      rw [List.filter_cons_of_neg (by rw [isSpaced_terminator]; decide)] at sub
      cases List.infix_nil.mp sub
  | cons _ taken he _ rest ih =>
      apply IsSeam.later
      simp only [RowTokens.after, List.filter_cons, RowItem.isSpaced_token he] at sub
      split at sub
      · next spaced =>
          rcases List.infix_cons_iff.mp sub with first | sub
          · obtain ⟨rfl, second⟩ := List.cons_prefix_cons.mp first
            obtain ⟨hu, this⟩ := List.mem_filter.mp (second.subset (List.mem_singleton.mpr rfl))
            rw [spaced]
            exact isSeam_of_mem rest hu this glued
          · exact ih sub
      · exact ih sub

end MissingOperatorSpace

end StyleGuide
