import Mathlib.Data.List.TakeWhile
import StyleGuide.FixedText
import StyleGuide.Proofs.Lexeme.Sign
import StyleGuide.Proofs.Text.Respacing
import StyleGuide.Proofs.Text.Trim

/-! # Literals woven into a text

A weave is a text with string literals in it, each behind the text in front of it. It can be read
with the literals as they are written or with their masks, and restoring leads from the second
form to the first if each mask is found in its own place. Respacing the masked form respaces the
text between the literals, so it moves no literal to another place and makes none harder to find.
-/

namespace StyleGuide

theorem isFirm_of_isLiteralLetter {c : Char} (h : Lexeme.isLiteralLetter c) : isFirm c :=
  isFirm_of_isWord (Lexeme.isWord_of_isLiteralLetter h)

/-- A literal begins with a letter or a quote mark. -/
theorem IsLiteral.isFirm_head {literal : Text} (h : IsLiteral literal) :
    ∃ c rest, literal = c :: rest ∧ isFirm c := by
  obtain ⟨hl, hq, -⟩ := h
  rename_i letters body q
  cases letters with
  | nil =>
      obtain ⟨more, hm⟩ := q.exists_cons
      exact ⟨q.mark, more ++ body ++ q.text, by simp [hm], isFirm_of_isQuote hq⟩
  | cons c letters =>
      exact ⟨c, _, rfl, isFirm_of_isLiteralLetter (hl c (List.mem_cons_self ..))⟩

/-- A mask is firm and ends in a quote mark. -/
theorem exists_mask_eq {literal : Text} (h : IsLiteral literal) :
    ∃ m c, mask literal = m ++ [c] ∧ (∀ d ∈ m, isFirm d) ∧ Lexeme.isQuote c := by
  obtain ⟨hl, hq, single⟩ := h
  rename_i letters body q
  have quote : ∀ d ∈ q.text, isFirm d := by
    intro d hd
    have : d = q.mark := by
      rw [Delimiter.text] at hd
      split at hd <;> simpa using hd
    exact this ▸ isFirm_of_isQuote hq
  obtain ⟨marks, hm⟩ := q.text_eq_append
  refine ⟨letters ++ q.text ++ List.replicate (Text.byteLength body) maskFiller ++ marks, q.mark,
    ?_, ?_, hq⟩
  · rw [mask_append hq hl single, List.append_assoc _ marks, ← hm]
  · intro d hd
    simp only [List.mem_append, List.mem_replicate] at hd
    obtain ((hd | hd) | hd) | hd := hd
    · exact isFirm_of_isLiteralLetter (hl d hd)
    · exact quote d hd
    · exact hd.2 ▸ rfl
    · exact quote d (by rw [hm]; exact List.mem_append_left _ hd)

/-- A text with string literals in it. -/
inductive Weave where
  /-- The text behind the last literal. -/
  | plain (text : Text)
  /-- A literal with the text in front of it, and what follows. -/
  | strand (gap literal : Text) (rest : Weave)
  deriving Repr, DecidableEq

namespace Weave

/-- The text with the literals as they are written. -/
def written : Weave → Text
  | plain text => text
  | strand gap literal rest => gap ++ literal ++ rest.written

/-- The text with a mask for each literal. -/
def masked : Weave → Text
  | plain text => text
  | strand gap literal rest => gap ++ mask literal ++ rest.masked

/-- The literals in order. -/
def literals : Weave → List Text
  | plain _ => []
  | strand _ literal rest => literal :: rest.literals

/-- The number of quote marks in each text between the literals. -/
def quotes : Weave → List Nat
  | plain text => [text.countP Lexeme.isQuote]
  | strand gap _ rest => gap.countP Lexeme.isQuote :: rest.quotes

/-- The texts between the literals. -/
def texts : Weave → List Text
  | plain text => [text]
  | strand gap _ rest => gap :: rest.texts

/-- No text between the literals has become empty. -/
def StaysApart (w w' : Weave) : Prop := ∀ i : Nat, w'.texts[i]? = some [] → w.texts[i]? = some []

/-- Restoring finds each mask in its own place. -/
def InPlace : Weave → Prop
  | plain _ => True
  | strand gap literal rest =>
    Text.cut? (mask literal) (gap ++ mask literal ++ rest.masked) = some (gap, rest.masked) ∧
      rest.InPlace

/-- No mask occurs earlier behind the literal before it than in its own place. -/
def IsClear : Weave → Prop
  | plain _ => True
  | strand gap literal rest => Text.IsFirst gap (mask literal) ∧ rest.IsClear

variable {w : Weave}

theorem restore?_masked (h : w.InPlace) : restore? w.masked w.literals = some w.written := by
  induction w with
  | plain text => rfl
  | strand gap literal rest ih =>
      simp only [masked, literals, restore?, h.1, ih h.2, Option.map_some, written]

/-- Restoring finds some place for each mask, and there is none left to fall back from. -/
theorem exists_restore? (s : Text) : ∃ r, restore? (s ++ w.masked) w.literals = some r := by
  induction w generalizing s with
  | plain text => exact ⟨_, rfl⟩
  | strand gap literal rest ih =>
      obtain ⟨before, y, found⟩ :=
        Text.exists_cut?_append (mask literal) (s ++ gap) rest.masked
      obtain ⟨r, hr⟩ := ih y
      refine ⟨before ++ literal ++ r, ?_⟩
      rw [masked, List.append_assoc gap, ← List.append_assoc s, ← List.append_assoc (s ++ gap),
        literals, restore?, found]
      simp only [hr, Option.map_some]

theorem inPlace_iff_isClear (h : ∀ l ∈ w.literals, IsLiteral l) : w.InPlace ↔ w.IsClear := by
  induction w with
  | plain text => exact Iff.rfl
  | strand gap literal rest ih =>
      obtain ⟨m, c, hm, -, -⟩ := exists_mask_eq (h literal (by simp [literals]))
      have rest := ih fun l hl => h l (by simp [literals, hl])
      exact and_congr (Text.cut?_eq_some_iff (by simp [hm])) rest

/-- Between a literal and the one before it no quote mark leaves the next mask its place. -/
theorem isClear_of_quotes (h : ∀ l ∈ w.literals, IsLiteral l) (free : ∀ n ∈ w.quotes, n = 0) :
    w.IsClear := by
  induction w with
  | plain text => trivial
  | strand gap literal rest ih =>
      refine ⟨?_, ih (fun l hl => h l (by simp [literals, hl]))
        (fun n hn => free n (by simp [quotes, hn]))⟩
      obtain ⟨m, c, hm, -, hc⟩ := exists_mask_eq (h literal (by simp [literals]))
      intro x y eq
      have count := congrArg (List.countP Lexeme.isQuote) eq
      have none : gap.countP Lexeme.isQuote = 0 := free _ (by simp [quotes])
      simp only [List.countP_append, none] at count
      rcases List.eq_nil_or_concat y with rfl | ⟨z, d, rfl⟩
      · rfl
      · rw [hm, List.concat_eq_append, ← List.append_assoc, ← List.append_assoc] at eq
        obtain ⟨-, end_eq⟩ := List.append_inj' eq rfl
        obtain rfl : c = d := by simpa using end_eq
        simp [hc] at count
        omega

/-- Respacing the masked form respaces the text between the literals. -/
theorem exists_of_reworked {new : Text} (h : ∀ l ∈ w.literals, IsLiteral l)
    (reworked : Reworked w.masked new) :
    ∃ w' : Weave, w'.masked = new ∧ w'.literals = w.literals ∧ w'.quotes = w.quotes ∧
      w.StaysApart w' ∧ (w'.IsClear ↔ w.IsClear) := by
  induction w generalizing new with
  | plain text =>
      obtain ⟨s', tail, rfl, respaced, ht⟩ := reworked
      refine ⟨.plain (s' ++ tail), rfl, rfl, ?_, fun i => ?_, Iff.rfl⟩
      · rw [quotes, List.countP_append, respaced.countP_isQuote, List.countP_eq_zero.mpr ht]
        rfl
      · cases i with
        | zero =>
            intro none
            obtain ⟨none, -⟩ := List.append_eq_nil_iff.mp (Option.some.inj none)
            exact congrArg some (respaced.eq_nil_iff.mpr none)
        | succ i => exact nofun
  | strand gap literal rest ih =>
      obtain ⟨m, c, hm, firm, hc⟩ := exists_mask_eq (h literal (by simp [literals]))
      have firm_mask : ∀ d ∈ mask literal, isFirm d := by
        intro d hd
        rw [hm, List.mem_append, List.mem_singleton] at hd
        obtain hd | rfl := hd
        · exact firm d hd
        · exact isFirm_of_isQuote hc
      obtain ⟨s', tail, rfl, respaced, ht⟩ := reworked
      obtain ⟨gap', rest', rfl, hg, hr⟩ :=
        Respaced.exists_of_append_append (by simp [hm]) firm_mask respaced
      obtain ⟨w', hw, hl, hq, apart, clear⟩ := ih (fun l hl => h l (by simp [literals, hl]))
        ⟨rest', tail, rfl, hr, ht⟩
      refine ⟨.strand gap' literal w', ?_, ?_, ?_, ?_, ?_⟩
      · simp only [masked, hw, List.append_assoc]
      · rw [literals, hl, literals]
      · rw [quotes, hq, hg.countP_isQuote, quotes]
      · intro i
        cases i with
        | zero => simp [texts, hg.eq_nil_iff]
        | succ i => exact apart i
      · rw [IsClear, IsClear, hm, hg.isFirst_iff firm hc, clear]

/-- Text without quote marks in front of a mask does not give the mask again. -/
theorem eq_nil_of_append_mask {m d r r' : Text} (some : ∃ c ∈ m, Lexeme.isQuote c)
    (eq : m ++ r = d ++ (m ++ r')) (free : d.countP Lexeme.isQuote = 0) : d = [] := by
  have quoteFree : ∀ c ∈ d, (!Lexeme.isQuote c) = true := by
    simpa using List.countP_eq_zero.mp free
  have first : ∀ t : Text, (m ++ t).takeWhile (!Lexeme.isQuote ·) =
      m.takeWhile (!Lexeme.isQuote ·) := by
    intro t
    obtain ⟨c, hc, quote⟩ := some
    rw [List.takeWhile_append, if_neg]
    intro all
    have whole := (List.takeWhile_prefix (!Lexeme.isQuote ·)).eq_of_length all
    have inside : c ∈ m.takeWhile (!Lexeme.isQuote ·) := by rwa [whole]
    simpa [quote] using List.mem_takeWhile_imp inside
  have lengths := congrArg (fun t => (t.takeWhile (!Lexeme.isQuote ·)).length) eq
  simp only [List.takeWhile_append_of_pos quoteFree, first, List.length_append] at lengths
  exact List.length_eq_zero_iff.mp (by omega)

/-- A mask keeps its place if the number of quote marks in front of it is kept. -/
theorem gap_eq_of_countP {m g g' r r' : Text} (some : ∃ c ∈ m, Lexeme.isQuote c)
    (eq : g ++ m ++ r = g' ++ m ++ r')
    (count : g.countP Lexeme.isQuote = g'.countP Lexeme.isQuote) : g = g' := by
  rw [List.append_assoc, List.append_assoc] at eq
  rcases List.append_eq_append_iff.mp eq with ⟨d, rfl, hd⟩ | ⟨d, rfl, hd⟩
  · rw [List.countP_append] at count
    rw [eq_nil_of_append_mask some hd (by omega), List.append_nil]
  · rw [List.countP_append] at count
    rw [eq_nil_of_append_mask some hd (by omega), List.append_nil]

/-- The masked form, the literals and the numbers of quote marks between them make the weave. -/
theorem eq_of_masked_eq {w' : Weave} (h : ∀ l ∈ w.literals, IsLiteral l)
    (masked_eq : w.masked = w'.masked) (literals_eq : w.literals = w'.literals)
    (quotes_eq : w.quotes = w'.quotes) : w = w' := by
  induction w generalizing w' with
  | plain text =>
      cases w' with
      | plain text' => exact congrArg plain masked_eq
      | strand => cases literals_eq
  | strand gap literal rest ih =>
      cases w' with
      | plain => cases literals_eq
      | strand gap' literal' rest' =>
          simp only [literals, List.cons.injEq] at literals_eq
          simp only [quotes, List.cons.injEq] at quotes_eq
          obtain ⟨rfl, literals_eq⟩ := literals_eq
          obtain ⟨m, c, hm, -, hc⟩ := exists_mask_eq (h literal (by simp [literals]))
          obtain rfl := gap_eq_of_countP ⟨c, by simp [hm], hc⟩ masked_eq quotes_eq.1
          have rest_eq := List.append_cancel_left masked_eq
          rw [ih (fun l hl => h l (by simp [literals, hl])) rest_eq literals_eq quotes_eq.2]

/-- The weave with more text in front. -/
def prepend (s : Text) : Weave → Weave
  | plain text => plain (s ++ text)
  | strand gap literal rest => strand (s ++ gap) literal rest

@[simp] theorem masked_prepend (s : Text) (w : Weave) : (w.prepend s).masked = s ++ w.masked := by
  cases w <;> simp [prepend, masked]

@[simp] theorem written_prepend (s : Text) (w : Weave) :
    (w.prepend s).written = s ++ w.written := by
  cases w <;> simp [prepend, written]

@[simp] theorem literals_prepend (s : Text) (w : Weave) : (w.prepend s).literals = w.literals := by
  cases w <;> rfl

theorem quotes_prepend {s : Text} (hs : s.countP Lexeme.isQuote = 0) (w : Weave) :
    (w.prepend s).quotes = w.quotes := by
  cases w <;> simp [prepend, quotes, hs]

/-- The weave without white space at its end. -/
def trimEnd : Weave → Weave
  | plain text => plain (Text.trimEnd text)
  | strand gap literal rest => strand gap literal rest.trimEnd

@[simp] theorem literals_trimEnd (w : Weave) : w.trimEnd.literals = w.literals := by
  induction w with
  | plain => rfl
  | strand gap literal rest ih => rw [trimEnd, literals, ih, literals]

theorem isClear_trimEnd (w : Weave) : w.trimEnd.IsClear ↔ w.IsClear := by
  induction w with
  | plain => exact Iff.rfl
  | strand gap literal rest ih => exact and_congr Iff.rfl ih

private theorem trimEnd_behind_quote {s t : Text} {c : Char} (hc : Lexeme.isQuote c) :
    Text.trimEnd (s ++ [c] ++ t) = s ++ [c] ++ Text.trimEnd t :=
  Text.dropEndWhile_append (fun hb => not_isFirm_of_isBlank hb (isFirm_of_isQuote hc)) t

theorem masked_trimEnd (h : ∀ l ∈ w.literals, IsLiteral l) :
    w.trimEnd.masked = Text.trimEnd w.masked := by
  induction w with
  | plain => rfl
  | strand gap literal rest ih =>
      obtain ⟨m, c, hm, -, hc⟩ := exists_mask_eq (h literal (by simp [literals]))
      rw [trimEnd, masked, masked, hm, ih fun l hl => h l (by simp [literals, hl]),
        ← List.append_assoc gap, trimEnd_behind_quote hc]

theorem written_trimEnd (h : ∀ l ∈ w.literals, IsLiteral l) :
    w.trimEnd.written = Text.trimEnd w.written := by
  induction w with
  | plain => rfl
  | strand gap literal rest ih =>
      obtain ⟨hl, hq, -⟩ := h literal (by simp [literals])
      rename_i letters body q
      obtain ⟨marks, hm⟩ := q.text_eq_append
      rw [trimEnd, written, written, ih fun l hl => h l (by simp [literals, hl])]
      have literal_end : gap ++ (letters ++ q.text ++ body ++ q.text) =
          gap ++ (letters ++ q.text ++ body ++ marks) ++ [q.mark] := by
        simp [hm]
      rw [literal_end, trimEnd_behind_quote hq]

end Weave

end StyleGuide
