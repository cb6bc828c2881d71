import StyleGuide.Proofs.Checker.Mend
import StyleGuide.Registry
import StyleGuide.Proofs.Rule.Regapping
import StyleGuide.Proofs.Rule.Spreading
import StyleGuide.Proofs.TokenStream.OneRow

/-! # The content of a statement that is spaced anew

The rules for spaces change the gaps of a statement. Where its lexemes are plain and no equals sign
waits behind an operator that would take it in, the statement keeps its tokens through all of them.
-/

namespace StyleGuide

open Lexeme

/-- What a token says, wherever it stands. -/
def Token.content (t : Token) : Token.Kind × Text := (t.kind, t.text)

/-- What the content tokens of a source say. -/
def contents (source : Text) : Except SyntaxError (List (Token.Kind × Text)) := do
  let tokens ← tokenize source
  return (tokens.filter Token.isContent).map Token.content

/-- Whether a token is part of a statement does not depend on where it stands. -/
theorem map_content_filter (tokens : List Token) :
    (tokens.filter Token.isContent).map Token.content =
      (tokens.map Token.content).filter fun w => !w.1.isLayout && w.1 != .comment := by
  rw [List.filter_map]
  rfl

section Words

variable {row depth column : Nat} {line : Text} {item : RowItem}
  {items items' : List RowItem} {r : RowTokens}

/-- The tokens of a row say what its lexemes say, whatever the gaps are. -/
theorem RowItem.exists_tokens_of_words (row' : Nat) (line' : Text) (column' : Nat)
    (same : items'.map word = items.map word)
    (ends : ∀ item ∈ items, item.lexeme.endsRow = false)
    (h : RowItem.tokens row line depth column items = .ok r) :
    ∃ r', RowItem.tokens row' line' depth column' items' = .ok r' ∧
      r'.tokens.map Token.content = r.tokens.map Token.content ∧ r'.depth = r.depth ∧
      r'.rowEnd = r.rowEnd := by
  induction items generalizing items' depth column column' r with
  | nil =>
      obtain rfl := List.map_eq_nil_iff.mp same
      exact ⟨r, h, rfl, rfl, rfl⟩
  | cons item items ih =>
      obtain ⟨⟨gap, k, text⟩, items', rfl, first, rest⟩ := List.map_eq_cons_iff.mp same
      obtain ⟨rfl, rfl⟩ := Prod.mk.inj first
      obtain ⟨he, ends⟩ := List.forall_mem_cons.mp ends
      cases leads_of_tokens h with
      | joint hk | openLiteral hk | terminator hk =>
          rw [hk] at he
          cases he
      | token _ ok read =>
          let item' : RowItem := ⟨gap, item.lexeme, item.text⟩
          obtain ⟨r', read', contents, depth, ending⟩ :=
            ih (item'.token row' line' column').stop.column rest ends read
          have step := tokens_cons (show item'.lexeme.endsRow = false from he) ok row' line' column'
            items'
          refine ⟨r'.after (item'.token row' line' column'), ?_, ?_, depth, ending⟩
          · rw [step, read']
            rfl
          · simp only [RowTokens.after, List.map_cons, contents]
            rfl

end Words

namespace Text

/-- The lexemes of a row and their texts. -/
def lexemes (s : Text) : List (Lexeme × Text) := (RowItem.list s).map RowItem.word

/-- A text whose lexemes are plain. -/
def IsPlain (s : Text) : Prop := ArePlain s.lexemes

instance (s : Text) : Decidable s.IsPlain :=
  decidable_of_iff ((s.lexemes.all fun w => w.1.isPlain w.2) ∧ s.lexemes.IsChain StandsApart)
    ⟨fun ⟨whole, apart⟩ => ⟨List.all_eq_true.mp whole, apart⟩,
      fun ⟨whole, apart⟩ => ⟨List.all_eq_true.mpr whole, apart⟩⟩

variable {s s' : Text} {ws : List (Token.Kind × Text)}

namespace IsPlain

theorem hasPlainGaps (h : s.IsPlain) : HasPlainGaps s := (itemized_list s).isGap_of_isBlank h

theorem not_mem_newline (h : s.IsPlain) : '\n' ∉ s :=
  fun mem => absurd (h.hasPlainGaps '\n' mem rfl) (by decide)

theorem of_lexemes (h : s.IsPlain) (same : s'.lexemes = s.lexemes) : s'.IsPlain := by
  rwa [IsPlain, same]

end IsPlain

/-- The content of a plain text is that of its lexemes. -/
theorem IsPlain.contents_eq_ok_iff (h : s.IsPlain) :
    contents s = .ok ws ↔ ∃ r, scanRow 1 s 0 0 s = .ok r ∧ r.rowEnd = .plain ∧ r.depth = 0 ∧
      (r.tokens.filter Token.isContent).map Token.content = ws := by
  have of_read {tokens : List Token} (read : tokenize s = .ok tokens) :
      ∃ r, scanRow 1 s 0 0 s = .ok r ∧ r.rowEnd = .plain ∧ r.depth = 0 ∧
        tokens.filter Token.isContent = r.tokens.filter Token.isContent := by
    by_cases ne : s = []
    · subst ne
      obtain rfl := Except.ok.inj read
      exact ⟨⟨[], 0, .plain⟩, by rw [scanRow, RowItem.list_of_gap (by simp)]; rfl, rfl, rfl, rfl⟩
    rcases content_of_tokenize_row (rows_of_not_mem ne h.not_mem_newline) read with
      ⟨-, c, hc, between⟩ | found
    · obtain ⟨comment, newline, carriage, -⟩ := (itemized_list s).isOrdinary_of_head? h hc
      rcases between with rfl | rfl | rfl <;> contradiction
    · exact found
  constructor
  · intro ok
    obtain ⟨tokens, read, eq⟩ := ScanState.exists_of_bind_eq_ok ok
    obtain ⟨r, scan, ending, depth, content⟩ := of_read read
    exact ⟨r, scan, ending, depth, by rw [← content]; exact Except.ok.inj eq⟩
  · rintro ⟨r, scan, ending, depth, rfl⟩
    obtain ⟨tokens, read⟩ := exists_tokenize_of_scanRow h.not_mem_newline scan ending depth
    obtain ⟨r', scan', -, -, content⟩ := of_read read
    obtain rfl := Except.ok.inj (scan.symm.trans scan')
    rw [contents, read, ← content]
    rfl

/-- Plain texts with the same lexemes have the same content. -/
theorem IsPlain.contents_of_lexemes (h : s.IsPlain) (same : s'.lexemes = s.lexemes)
    (ok : contents s = .ok ws) : contents s' = .ok ws := by
  obtain ⟨r, scan, ending, depth, rfl⟩ := h.contents_eq_ok_iff.mp ok
  have ends : ∀ item ∈ RowItem.list s, item.lexeme.endsRow = false :=
    fun item hi => endsRow_of_isPlain (h.whole item.word (List.mem_map_of_mem hi))
  obtain ⟨r', scan', content, depth', ending'⟩ :=
    RowItem.exists_tokens_of_words 1 s' 0 same ends scan
  rw [(h.of_lexemes same).contents_eq_ok_iff]
  refine ⟨r', scan', ending'.trans ending, depth'.trans depth, ?_⟩
  rw [map_content_filter, content, ← map_content_filter]

end Text

namespace MissingOperatorSpace

/-- Spaces come in only at the bounds of the lexemes. -/
theorem mem_bounds_of_gaps {s : Text} {tokens : List Token} {p : Position} (plain : s.IsPlain)
    (read : tokenize (s ++ ['\n']) = .ok tokens) (hp : p ∈ gaps tokens) :
    p.column ∈ bounds 0 (RowItem.list s) := by
  obtain ⟨t, ht, -, place⟩ := exists_of_mem_gaps hp
  obtain ⟨ht, spaced⟩ := List.mem_filter.mp ht
  have content : t.isContent := (Bool.and_eq_true_iff.mp spaced).1
  have mem : t ∈ tokens.filter Token.isContent := List.mem_filter.mpr ⟨ht, content⟩
  rcases content_of_tokenize_row (Text.rows_append plain.not_mem_newline []) read with
    ⟨none, -⟩ | ⟨r, scan, -, -, eq⟩
  · rw [none] at mem
    cases mem
  · rw [eq, List.mem_filter] at mem
    obtain ⟨gap, itemized⟩ := (itemized_list s).newline plain
    rw [scanRow, itemized.list_eq] at scan
    obtain ⟨start, stop⟩ := mem_bounds_of_tokens scan t mem.1 content
    rcases place with rfl | rfl
    · exact start
    · exact stop

theorem exists_of_fix {ctx : StatementContext} {f : Fix} (plain : ctx.text.IsPlain)
    (h : fix ctx = some f) : ∃ new, f.edit = .line new ∧ new.lexemes = ctx.text.lexemes := by
  rw [fix] at h
  split at h
  · cases h
  · next tokens read =>
      obtain rfl := Option.some.inj h
      have outer : ∀ n ∈ ((gaps tokens).filter (·.row = 1)).map Position.column,
          n ≤ 0 ∨ n ∈ bounds 0 (RowItem.list ctx.text) := by
        intro n hn
        obtain ⟨p, hp, rfl⟩ := List.mem_map.mp hn
        exact .inr (mem_bounds_of_gaps plain read (List.mem_filter.mp hp).1)
      obtain ⟨items, itemized, words⟩ :=
        exists_itemized_insertSpaces 0 (itemized_list ctx.text) plain outer
      exact ⟨_, rfl, by rw [Text.lexemes, itemized.list_eq, words]; rfl⟩

end MissingOperatorSpace

namespace StatementRule

/-- A rule all of whose codes begin with `E2`: it is about spaces in a statement. -/
def isSpacing (rule : StatementRule) : Bool :=
  rule.codes.all fun code => CodeFilter.startsWithAny ["E2"] code.text

/-- A fix of a rule for spaces leaves a plain statement its lexemes. -/
theorem lexemes_of_fix {rule : StatementRule} (spacing : rule.isSpacing) {ctx : StatementContext}
    {description : String} {new : Text} (plain : ctx.text.IsPlain)
    (h : rule.fix ctx = some ⟨description, .line new⟩) : new.lexemes = ctx.text.lexemes := by
  have regapped {s : Text} (regaps : Regaps ctx.text s) : s.lexemes = ctx.text.lexemes := by
    obtain ⟨items, itemized, words⟩ := (itemized_list ctx.text).regap plain (regaps none)
    rw [Text.lexemes, itemized.list_eq, words]
    rfl
  cases rule with
  | compoundStatement | separateImports | blockIndentation | hasKey | inlineComment
  | argumentSpace => cases h
  | blankLines | backticks | notEqual | raiseComma => cases spacing
  | innerSpace =>
      cases h
      exact regapped (InnerSpace.regaps_remove _ _)
  | missingSeparatorSpace =>
      cases h
      exact regapped (MissingSeparatorSpace.regaps_add _ _ _)
  | missingOperatorSpace =>
      obtain ⟨new', eq, same⟩ := MissingOperatorSpace.exists_of_fix plain h
      cases eq
      exact same
  | wideSeparatorSpace =>
      cases h
      exact regapped (WideSeparatorSpace.regaps_collapse _)
  | argumentEquals =>
      cases h
      exact regapped (ArgumentEquals.regaps_tighten plain.hasPlainGaps)
  | wideOperatorSpace =>
      cases h
      exact regapped (WideOperatorSpace.regaps_collapse plain.hasPlainGaps)

end StatementRule

/-- Under rules for spaces, in any order and with any of their codes kept out, a plain statement
    keeps the kinds and texts of its content tokens. -/
theorem contents_mend {p : Pass} {s : CheckState} {line : LogicalLine}
    {words : List (Token.Kind × Text)}
    (spacing : ∀ rule ∈ p.registry.statementRules, rule.isSpacing) (plain : line.text.IsPlain)
    (read : contents line.text = .ok words) : contents (p.mend s line).text = .ok words := by
  have same : (p.mend s line).text.lexemes = line.text.lexemes := by
    apply Pass.mend_induction (P := fun text => text.lexemes = line.text.lexemes) rfl
    intro rule mem ctx description new fixed same
    have plain : ctx.text.IsPlain := plain.of_lexemes same
    rw [StatementRule.lexemes_of_fix (spacing rule mem) plain fixed, same]
  exact plain.contents_of_lexemes same read

/-- Six rules change the spaces of a call, and its tokens stay. -/
theorem contents_mend_call :
    let source := "x=f( a ,b = 'c') -  1\n".toList
    let p := Checker.pass ⟨⟨[], StatementRule.all.filter StatementRule.isSpacing⟩, { fix := true }⟩
      source
    let s := p.after (((tokenize source).toOption.getD []).take 12)
    ∃ line words, LogicalLine.ofTokens? p.rows s.run.toList = some line ∧ line.text.IsPlain ∧
      (p.mend s line).text = "x = f(a, b='x') - 1".toList ∧ contents line.text = .ok words ∧
      contents (p.mend s line).text = .ok words := by
  intro source p s
  let line : LogicalLine :=
    ⟨"x=f( a ,b = 'x') -  1".toList,
      [⟨0, ⟨1, 0⟩⟩, ⟨1, ⟨1, 1⟩⟩, ⟨2, ⟨1, 2⟩⟩, ⟨3, ⟨1, 3⟩⟩, ⟨5, ⟨1, 5⟩⟩, ⟨7, ⟨1, 7⟩⟩, ⟨8, ⟨1, 8⟩⟩,
        ⟨10, ⟨1, 10⟩⟩, ⟨12, ⟨1, 12⟩⟩, ⟨15, ⟨1, 15⟩⟩, ⟨17, ⟨1, 17⟩⟩, ⟨20, ⟨1, 20⟩⟩],
      ["'c'".toList], none, 1, 1⟩
  have found : LogicalLine.ofTokens? p.rows s.run.toList = some line := by decide +kernel
  have plain : line.text.IsPlain := by decide +kernel
  have mended : (p.mend s line).text = "x = f(a, b='x') - 1".toList := by decide +kernel
  obtain ⟨words, read⟩ : ∃ words, (contents line.text).toOption = some words :=
    Option.isSome_iff_exists.mp (by decide +kernel)
  have spacing : ∀ rule ∈ p.registry.statementRules, rule.isSpacing := by decide
  have read := eq_ok_of_toOption read
  exact ⟨line, words, found, plain, mended, read, contents_mend spacing plain read⟩

/-- The operator of an assignment expression is parted by the space that is put behind its colon. -/
theorem walrus_parted :
    let source := "{y:=f(x), y}\n".toList
    let p := Checker.pass ⟨⟨[], StatementRule.all.filter StatementRule.isSpacing⟩, { fix := true }⟩
      source
    let s := p.after (((tokenize source).toOption.getD []).take 10)
    ∃ line words words', LogicalLine.ofTokens? p.rows s.run.toList = some line ∧ line.isSingleRow ∧
      (p.mend s line).text = "{y: =f(x), y}".toList ∧ contents line.text = .ok words ∧
      contents (p.mend s line).text = .ok words' ∧ words ≠ words' := by
  intro source p s
  let line : LogicalLine :=
    ⟨"{y:=f(x), y}".toList,
      [⟨0, ⟨1, 0⟩⟩, ⟨1, ⟨1, 1⟩⟩, ⟨2, ⟨1, 2⟩⟩, ⟨4, ⟨1, 4⟩⟩, ⟨5, ⟨1, 5⟩⟩, ⟨6, ⟨1, 6⟩⟩, ⟨7, ⟨1, 7⟩⟩,
        ⟨8, ⟨1, 8⟩⟩, ⟨10, ⟨1, 10⟩⟩, ⟨11, ⟨1, 11⟩⟩], [], none, 1, 1⟩
  let words (signs : List Text) : List (Token.Kind × Text) :=
    [(.operator, ['\x7b']), (.name, ['y'])] ++ signs.map (Token.Kind.operator, ·) ++
      [(.name, ['f']), (.operator, ['(']), (.name, ['x']), (.operator, [')']), (.operator, [',']),
        (.name, ['y']), (.operator, ['\x7d'])]
  refine ⟨line, words [[':', '=']], words [[':'], ['=']], ?_, ?_, ?_, eq_ok_of_toOption ?_,
    eq_ok_of_toOption ?_, ?_⟩
  all_goals decide +kernel

end StyleGuide
