import StyleGuide.Proofs.Text.MadeOf
import StyleGuide.Proofs.TokenStream.Place

/-! # Tokens are made of their source

The text of a token and the row that it remembers have no characters but those of the source.
-/

namespace StyleGuide

open Text

/-- The token has its text and its row from the source. -/
structure Token.IsFrom (source : Text) (t : Token) : Prop where
  text : t.text ⊆ source
  line : t.line ⊆ source

/-- So far the text and the row of each token and of an open literal are from the source. -/
structure ScanState.IsFrom (source : Text) (s : ScanState) : Prop where
  tokens : ∀ t ∈ s.tokens.toList, t.IsFrom source
  literal : ∀ literal, s.rowEnd = .inLiteral literal →
    literal.text ⊆ source ∧ literal.line ⊆ source

/-- The tokens of a row, and a literal that it leaves open, are from the source. -/
structure RowTokens.IsFrom (source : Text) (r : RowTokens) : Prop where
  tokens : ∀ t ∈ r.tokens, t.IsFrom source
  literal : ∀ literal, r.rowEnd = .inLiteral literal →
    literal.text ⊆ source ∧ literal.line ⊆ source

variable {source line rest : Text} {items : List RowItem} {row depth column : Nat} {r : RowTokens}

theorem Itemized.text_subset (h : Itemized rest items) : ∀ item ∈ items, item.text ⊆ rest := by
  induction h with
  | nil hg => exact nofun
  | last hg taken he =>
      intro item hi c hc
      rw [List.mem_singleton.mp hi] at hc
      simp [hc]
  | cons hg taken he _ ih =>
      intro item hi c hc
      rcases List.mem_cons.mp hi with rfl | hi
      · simp [hc]
      · exact List.mem_append_right _ (ih item hi hc)

theorem RowItem.isFrom_tokens (sub : line ⊆ source) (texts : ∀ item ∈ items, item.text ⊆ source)
    (h : RowItem.tokens row line depth column items = .ok r) : r.IsFrom source := by
  induction items generalizing depth column r with
  | nil =>
      obtain rfl := Except.ok.inj h
      exact ⟨nofun, nofun⟩
  | cons item more ih =>
      have text : item.text ⊆ source := texts item List.mem_cons_self
      cases RowItem.leads_of_tokens h with
      | joint => exact ⟨nofun, nofun⟩
      | openLiteral =>
          refine ⟨nofun, fun literal hl => ?_⟩
          obtain rfl := RowEnd.inLiteral.inj hl
          exact ⟨text, sub⟩
      | terminator => exact ⟨List.forall_mem_singleton.mpr ⟨text, sub⟩, nofun⟩
      | token _ _ rest =>
          obtain ⟨tokens, literal⟩ :=
            ih (fun item hi => texts item (List.mem_cons_of_mem _ hi)) rest
          exact ⟨List.forall_mem_cons.mpr ⟨⟨text, sub⟩, tokens⟩, literal⟩

theorem isFrom_scanRow (sub : line ⊆ source) (part : rest ⊆ source)
    (h : scanRow row line depth column rest = .ok r) : r.IsFrom source :=
  RowItem.isFrom_tokens sub
    (fun item hi => List.Subset.trans ((itemized_list rest).text_subset item hi) part) h

namespace ScanState

variable {s t : ScanState}

theorem IsFrom.advance {first : List Token} (h : s.IsFrom source)
    (marks : ∀ t ∈ first, t.IsFrom source) (scan : r.IsFrom source) :
    (s.advance first r).IsFrom source where
  tokens := by
    rw [toList_tokens_advance, List.forall_mem_append, List.forall_mem_append]
    exact ⟨⟨h.tokens, marks⟩, scan.tokens⟩
  literal := scan.literal

theorem IsFrom.withIndents (h : s.IsFrom source) (indents : List Nat) :
    { s with indents }.IsFrom source := ⟨h.tokens, h.literal⟩

/-- A row that is read adds tokens that are from the source. -/
theorem IsFrom.feeds (h : s.IsFrom source) (sub : line ⊆ source) (feeds : Feeds s line t) :
    t.IsFrom source := by
  have behind {p : Char → Bool} : line.dropWhile p ⊆ source :=
    List.Subset.trans (List.dropWhile_suffix _).subset sub
  cases feeds with
  | literalEnd he hn scan =>
      rename_i literal n r
      obtain ⟨text, row⟩ := h.literal literal he
      have closing : line.take n ⊆ source := List.Subset.trans (List.take_subset _ _) sub
      apply h.advance
      · exact List.forall_mem_singleton.mpr ⟨List.append_subset.mpr ⟨text, closing⟩, row⟩
      · exact isFrom_scanRow sub (List.Subset.trans (List.drop_subset _ _) sub) scan
  | literalMore he hn more =>
      rename_i literal
      obtain ⟨text, row⟩ := h.literal literal he
      refine h.advance (List.forall_mem_nil _) ⟨List.forall_mem_nil _, fun literal hl => ?_⟩
      obtain rfl := RowEnd.inLiteral.inj hl
      exact ⟨List.append_subset.mpr ⟨text, sub⟩, row⟩
  | continued he scan => exact h.advance (List.forall_mem_nil _) (isFrom_scanRow sub sub scan)
  | nothing he hd between => exact h
  | between he hd between =>
      apply h.advance (List.forall_mem_nil _)
      cases isBetween_of_betweenStatements? between with
      | comment hg hl hc rest =>
          rename_i gap rest' comment ending
          have text : comment ⊆ source := fun c hc => sub (by simp [hl, hc])
          have last : ending ⊆ source := fun c hc => sub (by simp [hl, hc])
          refine ⟨List.forall_mem_cons.mpr ⟨⟨text, sub⟩, ?_⟩, nofun⟩
          exact List.forall_mem_singleton.mpr ⟨last, sub⟩
      | blank hg hl hc =>
          rename_i gap rest c
          have text : c :: rest ⊆ source := fun d hd => sub (hl ▸ List.mem_append_right _ hd)
          exact ⟨List.forall_mem_singleton.mpr ⟨text, sub⟩, nofun⟩
  | indented he hd between deeper scan =>
      apply (h.withIndents _).advance _ (isFrom_scanRow sub behind scan)
      have indent : line.takeWhile Lexeme.isGap ⊆ source :=
        List.Subset.trans (List.takeWhile_prefix _).subset sub
      exact List.forall_mem_singleton.mpr ⟨indent, sub⟩
  | aligned he hd between indents inner width scan =>
      apply (h.withIndents _).advance _ (isFrom_scanRow sub behind scan)
      intro t ht
      obtain ⟨-, -, rfl⟩ := List.mem_map.mp ht
      exact ⟨List.nil_subset _, sub⟩

theorem IsFrom.feedsAll {lines : List Text} (h : s.IsFrom source)
    (sub : ∀ line ∈ lines, line ⊆ source) (feeds : FeedsAll s lines t) : t.IsFrom source := by
  induction feeds with
  | nil => exact h
  | cons fed _ ih =>
      exact ih (h.feeds (sub _ List.mem_cons_self) fed)
        fun line hl => sub line (List.mem_cons_of_mem _ hl)

end ScanState

/-- The tokens of a source have their texts and rows from it. -/
theorem isFrom_of_tokenize {tokens : List Token} (read : tokenize source = .ok tokens) :
    ∀ t ∈ tokens, t.IsFrom source := by
  obtain ⟨s, fed, -, -, rfl⟩ := exists_of_tokenize read
  have start : ScanState.initial.IsFrom source := ⟨nofun, nofun⟩
  have from_ := start.feedsAll (fun line hl => subset_of_mem_rows hl) fed
  intro t ht
  rcases List.mem_append.mp ht with ht | ht
  · exact from_.tokens t ht
  · have bare : t.text = [] ∧ t.line = [] := by
      simp only [ScanState.endMarks, List.mem_append, List.mem_map, List.mem_singleton] at ht
      rcases ht with (ht | ⟨-, -, rfl⟩) | rfl
      · split at ht
        · rw [List.mem_singleton.mp ht]
          exact ⟨rfl, rfl⟩
        · cases ht
      · exact ⟨rfl, rfl⟩
      · exact ⟨rfl, rfl⟩
    constructor
    · rw [bare.1]
      exact List.nil_subset _
    · rw [bare.2]
      exact List.nil_subset _

end StyleGuide
