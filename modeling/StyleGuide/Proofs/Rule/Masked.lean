import StyleGuide.Proofs.Checker.Parallel
import StyleGuide.Proofs.TokenStream.Alike
import StyleGuide.StatementRule

/-! # Rules do not look into literals

Most rules for statements read the logical line, in which literals are masked. The others read
tokens: of a literal they see no more than that it is one and where it stands, since its text is no
bracket, no operator and no word.
-/

namespace StyleGuide

/-- Two tokens between which no rule can tell. -/
structure Token.Resembles (t u : Token) : Prop extends Token.Alike t u where
  literal : t.kind = .string → IsLiteral t.text ∧ IsLiteral u.text
  beginsRow : t.beginsRow = u.beginsRow

/-- A text without quote marks. -/
def IsUnquoted (s : Text) : Prop := ∀ c ∈ s, ¬Lexeme.isQuote c

instance (s : Text) : Decidable (IsUnquoted s) :=
  List.decidableBAll (fun c => ¬Lexeme.isQuote c) s

theorem IsLiteral.ne {text s : Text} (h : IsLiteral text) (unquoted : IsUnquoted s) : text ≠ s := by
  obtain ⟨-, x, c, rfl, hc⟩ := h.edges
  rintro rfl
  exact unquoted c (by simp) hc

/-- No reserved word has a quote mark in it. -/
theorem IsLiteral.not_isKeyword {text : Text} (h : IsLiteral text) : isKeyword text = false := by
  have words : ∀ word ∈ keywords, IsUnquoted word.toList := by decide +kernel
  rw [isKeyword, List.any_eq_false]
  intro word hw eq
  exact h.ne (words word hw) (beq_iff_eq.mp eq).symm

namespace Token.Resembles

variable {t u before before' : Token} (h : t.Resembles u) (hb : before.Resembles before')

include h

theorem countsAs : t.CountsAs u :=
  ⟨h.kind, fun operator => h.text_eq (by simp [operator]), h.beginsRow⟩

theorem text_eq_iff {s : Text} (unquoted : IsUnquoted s) : t.text = s ↔ u.text = s := by
  by_cases string : t.kind = .string
  · obtain ⟨literal, literal'⟩ := h.literal string
    exact iff_of_false (literal.ne unquoted) (literal'.ne unquoted)
  · rw [h.text_eq string]

theorem text_beq {s : Text} (unquoted : IsUnquoted s) : (t.text == s) = (u.text == s) := by
  rw [Bool.eq_iff_iff, beq_iff_eq, beq_iff_eq, h.text_eq_iff unquoted]

theorem isKeyword_eq : isKeyword t.text = isKeyword u.text := by
  by_cases string : t.kind = .string
  · obtain ⟨literal, literal'⟩ := h.literal string
    rw [literal.not_isKeyword, literal'.not_isKeyword]
  · rw [h.text_eq string]

theorem isSpaced_eq : isSpaced t = isSpaced u := by rw [isSpaced, isSpaced, h.isContent_eq, h.kind]

/-! ## Operators -/

theorem depthBehind_eq (depth : Nat) :
    MissingOperatorSpace.depthBehind depth t = MissingOperatorSpace.depthBehind depth u := by
  simp only [MissingOperatorSpace.depthBehind, h.text_eq_iff (s := ['(']) (by decide),
    h.text_eq_iff (s := "lambda".toList) (by decide), h.text_eq_iff (s := [')']) (by decide)]

theorem hasTwoOperands_eq :
    MissingOperatorSpace.hasTwoOperands t = MissingOperatorSpace.hasTwoOperands u := by
  by_cases string : t.kind = .string
  · simp [MissingOperatorSpace.hasTwoOperands, string, h.kind ▸ string]
  · rw [MissingOperatorSpace.hasTwoOperands, MissingOperatorSpace.hasTwoOperands, h.kind,
      h.text_eq string]

include hb

theorem isSpacedBehind_eq (depth : Nat) : MissingOperatorSpace.isSpacedBehind depth before t =
    MissingOperatorSpace.isSpacedBehind depth before' u := by
  by_cases operator : t.kind = .operator
  · have text : t.text = u.text := h.text_eq (by simp [operator])
    rw [MissingOperatorSpace.isSpacedBehind, MissingOperatorSpace.isSpacedBehind,
      h.countsAs.isOperator_eq, h.kind, text, hb.hasTwoOperands_eq]
  · have operator' : u.kind ≠ .operator := h.kind ▸ operator
    simp [MissingOperatorSpace.isSpacedBehind, operator, operator']

/-! ## Brackets -/

theorem isApart_eq {before? before'? : Option Token}
    (hb? : Option.Rel Token.Resembles before? before'?) :
    ArgumentSpace.isApart before? before t = ArgumentSpace.isApart before'? before' u := by
  have word : (before?.map Token.text != some "class".toList) =
      (before'?.map Token.text != some "class".toList) := by
    cases hb? with
    | none => rfl
    | some h? =>
        rw [Bool.eq_iff_iff, bne_iff_ne, bne_iff_ne, Option.map_some, Option.map_some]
        simp only [ne_eq, Option.some.injEq, h?.text_eq_iff (s := "class".toList) (by decide)]
  rw [ArgumentSpace.isApart, ArgumentSpace.isApart, h.countsAs.isOperator_eq,
    h.countsAs.isOperator_eq, h.start, hb.stop, hb.kind, hb.text_beq (s := [')']) (by decide),
    hb.text_beq (s := [']']) (by decide), hb.text_beq (s := ['\x7d']) (by decide), word,
    hb.isKeyword_eq]

end Token.Resembles

section Tokens

variable {ts us : List Token} (h : List.Forall₂ Token.Resembles ts us)

include h

theorem filter_isSpaced_resembles :
    List.Forall₂ Token.Resembles (ts.filter isSpaced) (us.filter isSpaced) :=
  List.rel_filter (fun _ _ pair => Eq.to_iff (congrArg (· = true) pair.isSpaced_eq)) h

theorem MissingOperatorSpace.gapsBehind_eq {before before' : Token}
    (hb : before.Resembles before') (depth : Nat) (isNeeded : Bool) :
    gapsBehind depth isNeeded before ts = gapsBehind depth isNeeded before' us := by
  induction h generalizing before before' depth isNeeded with
  | nil => rfl
  | cons pair _ ih =>
      simp only [gapsBehind, ih pair, pair.depthBehind_eq, pair.isSpacedBehind_eq hb, pair.start,
        hb.stop, pair.text_beq (s := ['>']) (by decide), hb.text_beq (s := ['<']) (by decide)]

theorem MissingOperatorSpace.gaps_eq : gaps ts = gaps us := by
  have spaced := filter_isSpaced_resembles h
  rw [gaps, gaps]
  generalize ts.filter isSpaced = ts at spaced
  generalize us.filter isSpaced = us at spaced
  cases spaced with
  | nil => rfl
  | cons pair rest =>
      simp only [gapsBehind_eq rest pair, pair.depthBehind_eq]

theorem ArgumentSpace.first?_eq {before? before'? : Option Token} {before before' : Token}
    (hb? : Option.Rel Token.Resembles before? before'?) (hb : before.Resembles before') :
    first? before? before ts = first? before'? before' us := by
  induction h generalizing before? before'? before before' with
  | nil => rfl
  | cons pair _ ih =>
      rename_i t u _ _ _
      rw [first?, first?, pair.isApart_eq hb hb?, ih (.some hb) pair, hb.stop]
      split
      · next apart =>
          have operator : u.kind = .operator := by
            simp only [isApart, Token.isOperator, Bool.and_eq_true, Bool.or_eq_true,
              beq_iff_eq] at apart
            obtain ⟨⟨⟨⟨⟨kind, -⟩ | ⟨kind, -⟩, -⟩, -⟩, -⟩, -⟩ := apart <;> exact kind
          rw [pair.text_eq (by rw [pair.kind, operator]; simp)]
      · rfl

theorem InlineComment.first?_eq (before : Position) : first? before ts = first? before us := by
  induction h generalizing before with
  | nil => rfl
  | cons pair _ ih =>
      rename_i t u _ _ _
      simp only [first?, ← pair.kind, ← pair.stop, ih]
      by_cases comment : t.kind = .comment
      · have alone : isAlone t = isAlone u := by
          have := pair.beginsRow
          simpa [Token.beginsRow, ← pair.kind, comment, isAlone] using this
        rw [alone, pair.start, pair.text_eq (by simp [comment])]
      · simp [comment]

end Tokens

/-- Two statements between which no rule can tell, but for the first indentation of the file. -/
structure StatementContext.Resembles (ctx ctx' : StatementContext) : Prop where
  text : ctx.text = ctx'.text
  tokens : List.Forall₂ Token.Resembles ctx.tokens ctx'.tokens
  row : ctx.row = ctx'.row
  indentLevel : ctx.indentLevel = ctx'.indentLevel
  previousIndentLevel : ctx.previousIndentLevel = ctx'.previousIndentLevel
  previous : ctx.previous = ctx'.previous
  blankLines : ctx.blankLines = ctx'.blankLines
  blankLinesBeforeComment : ctx.blankLinesBeforeComment = ctx'.blankLinesBeforeComment

/-- Only the rule for the indentation of blocks looks at the first indentation of the file. -/
theorem StatementRule.check_eq {rule : StatementRule} (other : rule ≠ .blockIndentation)
    {ctx ctx' : StatementContext} (h : ctx.Resembles ctx') : rule.check ctx = rule.check ctx' := by
  cases rule with
  | blockIndentation => exact absurd rfl other
  | blankLines =>
      obtain ⟨text, tokens, char, row, level, previousLevel, previous, blank, before⟩ := ctx
      obtain ⟨text, -, row, level, previousLevel, previous, blank, before⟩ := h
      dsimp only at text row level previousLevel previous blank before
      subst text row level previousLevel previous blank before
      rfl
  | missingOperatorSpace =>
      rw [check, check, MissingOperatorSpace.check, MissingOperatorSpace.check,
        MissingOperatorSpace.gaps_eq h.tokens]
  | inlineComment =>
      exact InlineComment.first?_eq h.tokens ⟨0, 0⟩
  | argumentSpace =>
      have spaced := filter_isSpaced_resembles h.tokens
      rw [check, check, ArgumentSpace.check, ArgumentSpace.check]
      generalize ctx.tokens.filter isSpaced = ts at spaced
      generalize ctx'.tokens.filter isSpaced = us at spaced
      cases spaced with
      | nil => rfl
      | cons pair rest => exact ArgumentSpace.first?_eq rest .none pair
  | compoundStatement => simp only [check, CompoundStatement.check, h.text]
  | innerSpace => simp only [check, InnerSpace.check, h.text]
  | separateImports => simp only [check, SeparateImports.check, h.text]
  | missingSeparatorSpace => simp only [check, MissingSeparatorSpace.check, h.text]
  | backticks => simp only [check, Backticks.check, h.text]
  | hasKey => simp only [check, HasKey.check, h.text]
  | notEqual => simp only [check, NotEqual.check, h.text]
  | raiseComma => simp only [check, RaiseComma.check, h.text]
  | wideSeparatorSpace => simp only [check, WideSeparatorSpace.check, h.text]
  | argumentEquals => simp only [check, ArgumentEquals.check, h.text]
  | wideOperatorSpace => simp only [check, WideOperatorSpace.check, h.text]

end StyleGuide
