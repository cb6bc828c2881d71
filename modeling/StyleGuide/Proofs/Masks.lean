import StyleGuide.Proofs.LogicalLine.Inside
import StyleGuide.Proofs.StringTokens

/-! # What a mask hides

A mask tells the delimiter of its literal from the last characters alone. For a string token this
never goes wrong: between single marks a quote mark at the end of the body is hidden by a backslash,
so that the literal cannot seem to end in three marks. What is hidden is the body, and the parts of
the mask are those of the token but for the body. They make up a literal again, so a mask is its own
mask.
-/

namespace StyleGuide

/-- A byte offset at one of the ends of the text, or between two of its characters. -/
def Text.IsBorder (s : Text) (n : Nat) : Prop :=
  ∃ before, before <+: s ∧ Text.byteLength before = n

namespace LiteralParts

variable {p : LiteralParts}

/-- The parts with a filler for each byte of the body. -/
def masked (p : LiteralParts) : LiteralParts :=
  { p with body := List.replicate (Text.byteLength p.body) maskFiller }

theorem masked_masked (p : LiteralParts) : p.masked.masked = p.masked := by
  simp [masked, byteLength_replicate_maskFiller]

theorem byteLength_masked (p : LiteralParts) :
    Text.byteLength p.masked.text = Text.byteLength p.text := by
  simp [text, masked, byteLength_replicate_maskFiller]

namespace IsValid

/-- A mark at the end of a body between single marks is hidden, so no mark stands in front of it. -/
theorem closesAlone (h : p.IsValid) : p.delimiter.ClosesAlone p.body := by
  intro single b eq ends
  have shown : b.hides = false := by
    rcases List.eq_nil_or_concat b with rfl | ⟨front, c, rfl⟩
    · rfl
    · rw [List.concat_eq_append, ← List.cons_append, List.singleton_suffix_iff_getLast?_eq_some,
        List.getLast?_concat] at ends
      rw [List.concat_eq_append]
      exact Text.hides_of_getLast? (List.getLast?_concat ..)
        (Option.some.inj ends ▸ Delimiter.ne_backslash_of_isQuote h.mark)
  exact h.quiet b [p.delimiter.mark] eq (List.cons_ne_nil _ _) shown
    (by simp [Delimiter.text, single])

theorem mask_text (h : p.IsValid) : mask p.text = p.masked.text :=
  mask_append_of_closesAlone h.mark (Lexeme.isLiteralLetter_of_areOpening h.letters) h.closesAlone

/-- A body of fillers holds no delimiter. -/
theorem masked (h : p.IsValid) : p.masked.IsValid := by
  refine ⟨h.letters, h.mark, ?_⟩
  have other : p.delimiter.mark ≠ maskFiller := by
    intro same
    have mark := h.mark
    rw [same] at mark
    exact absurd mark (by decide)
  show p.delimiter.IsQuietIn (List.replicate _ maskFiller) _
  induction Text.byteLength p.body with
  | zero => exact .nil
  | succ n ih =>
      refine .cons (by decide) ?_ ih
      obtain ⟨marks, text⟩ := p.delimiter.exists_cons
      rintro ⟨rest, eq⟩
      rw [text] at eq
      exact other (List.cons.inj eq).1

theorem mask_mask (h : p.IsValid) : mask (mask p.text) = mask p.text := by
  rw [h.mask_text, h.masked.mask_text, masked_masked]

/-- The two offsets at which a literal is cut are those of its body. -/
theorem isBorder_of_hiddenRange? (h : p.IsValid) :
    ∀ range ∈ hiddenRange? p.text, p.text.IsBorder range.1 ∧ p.text.IsBorder range.2 := by
  intro range hidden
  rw [text, hiddenRange?_append h.mark (Lexeme.isLiteralLetter_of_areOpening h.letters)
    h.closesAlone] at hidden
  obtain ⟨-, eq⟩ := Option.ite_none_left_eq_some.mp hidden
  rw [← Option.some.inj eq]
  exact ⟨⟨_, ⟨p.body ++ p.delimiter.text, by simp [text]⟩, rfl⟩, ⟨_, ⟨_, rfl⟩, rfl⟩⟩

end IsValid

end LiteralParts

/-- What is shown of a token is as long as the token. -/
theorem byteLength_shown_of_tokenize {source : Text} {tokens : List Token} {t : Token}
    (read : tokenize source = .ok tokens) (mem : t ∈ tokens) :
    Text.byteLength t.shown = Text.byteLength t.text := by
  by_cases string : t.kind = .string
  · obtain ⟨p, same, valid, -⟩ := isWritten_of_tokenize read mem string
    rw [Token.shown, if_pos string, ← same, valid.mask_text, p.byteLength_masked]
  · rw [Token.shown, if_neg string]

/-- The mask of a string token keeps the letters and both delimiters and has a filler for each byte
    of the body. It has the length of the token, cuts it between characters only, and is its own
    mask. -/
theorem mask_of_string {source : Text} {tokens : List Token} {t : Token}
    (read : tokenize source = .ok tokens) (mem : t ∈ tokens) (string : t.kind = .string) :
    ∃ p : LiteralParts, p.text = t.text ∧ p.IsValid ∧
      mask t.text = p.letters ++ p.delimiter.text ++
        List.replicate (Text.byteLength p.body) maskFiller ++ p.delimiter.text ∧
      Text.byteLength (mask t.text) = Text.byteLength t.text ∧
      (∀ range ∈ hiddenRange? t.text, t.text.IsBorder range.1 ∧ t.text.IsBorder range.2) ∧
      mask (mask t.text) = mask t.text := by
  obtain ⟨p, same, valid, -⟩ := isWritten_of_tokenize read mem string
  refine ⟨p, same, valid, ?_⟩
  rw [← same]
  refine ⟨valid.mask_text, ?_, valid.isBorder_of_hiddenRange?, valid.mask_mask⟩
  rw [valid.mask_text, p.byteLength_masked]

/-- A hidden quote mark at the end of a body on two rows does not make the literal one between
    three marks. -/
theorem mask_of_hidden_mark :
    let source := "x = Rb'a\\\r\né\\''\n".toList
    ∃ tokens t, tokenize source = .ok tokens ∧ t ∈ tokens ∧ t.kind = .string ∧
      mask t.text = "Rb'xxxxxxxx'".toList ∧ Text.byteLength t.text = 12 ∧
      mask (mask t.text) = mask t.text := by
  intro source
  obtain ⟨tokens, read, t, mem, string, text⟩ : ∃ tokens ∈ (tokenize source).toOption,
      ∃ t ∈ tokens, t.kind = .string ∧ t.text = "Rb'a\\\r\né\\''".toList := by decide +kernel
  obtain ⟨p, -, -, -, length, -, again⟩ := mask_of_string (eq_ok_of_toOption read) mem string
  have hidden : mask t.text = "Rb'xxxxxxxx'".toList := by
    rw [text]
    decide +kernel
  refine ⟨tokens, t, eq_ok_of_toOption read, mem, string, hidden, ?_, again⟩
  rw [← length, hidden]
  decide

end StyleGuide
