import StyleGuide.Proofs.Lexeme.Items
import StyleGuide.Proofs.Lexeme.Sign
import StyleGuide.Proofs.Text.Regapping
import StyleGuide.Proofs.Text.Respacing

/-! # Plain lexemes

A plain lexeme is one whose text tells its extent. What is looked for before it, and in vain, is
known from its kind.
-/

namespace StyleGuide

namespace Lexeme

variable {c d : Char} {k : Lexeme} {n : Nat} {rest text behind behind' : Text}

/-- A character that begins no comment, no row terminator and no joint. -/
def IsOrdinary (c : Char) : Prop := c ≠ '#' ∧ c ≠ '\n' ∧ c ≠ '\r' ∧ c ≠ '\\'

/-- What is read at an ordinary character, and what is looked for before that in vain. -/
inductive Reading (c : Char) (rest : Text) : Lexeme → Nat → Prop where
  | number {n : Nat} (found : number? (c :: rest) = some n) : Reading c rest .number n
  | operator {n : Nat} (number : number? (c :: rest) = none)
      (found : operator? (c :: rest) = some n) : Reading c rest .operator n
  | literal {n : Nat} (number : number? (c :: rest) = none) (operator : operator? (c :: rest) = none)
      (found : literal? (c :: rest) = some (.closed n)) : Reading c rest .literal n
  | openLiteral {q : Delimiter} (number : number? (c :: rest) = none)
      (operator : operator? (c :: rest) = none) (found : literal? (c :: rest) = some (.runsOn q)) :
      Reading c rest (.openLiteral q) (rest.length + 1)
  | word {n : Nat} (number : number? (c :: rest) = none) (operator : operator? (c :: rest) = none)
      (literal : literal? (c :: rest) = none) (hc : Text.isWord c)
      (length : ((c :: rest).takeWhile Text.isWord).length = n) : Reading c rest .word n
  | stray (number : number? (c :: rest) = none) (operator : operator? (c :: rest) = none)
      (literal : literal? (c :: rest) = none) (hc : ¬Text.isWord c) : Reading c rest .stray 1

theorem terminator?_eq_none (hc : IsOrdinary c) (rest : Text) : terminator? (c :: rest) = none := by
  obtain ⟨-, newline, carriage, -⟩ := hc
  cases h : terminator? (c :: rest) with
  | none => rfl
  | some n =>
      obtain ⟨eq | eq, pos, -⟩ := isTerminator_of_terminator? h
      all_goals
        obtain ⟨n, rfl⟩ := Nat.exists_eq_succ_of_ne_zero (Nat.ne_of_gt pos)
        rw [List.take_succ_cons] at eq
      · exact absurd (List.cons.inj eq).1 newline
      · exact absurd (List.cons.inj eq).1 carriage

theorem reading_next (hc : IsOrdinary c) (rest : Text) :
    Reading c rest (next (c :: rest)).1 (next (c :: rest)).2 := by
  have ends := terminator?_eq_none hc rest
  obtain ⟨comment, -, -, joint⟩ := hc
  simp only [next, beq_iff_eq, comment, if_false, ends, joint]
  cases number : number? (c :: rest) with
  | some n => exact .number number
  | none =>
      cases operator : operator? (c :: rest) with
      | some n => exact .operator number operator
      | none =>
          cases literal : literal? (c :: rest) with
          | some r =>
              cases r with
              | closed n => exact .literal number operator literal
              | runsOn q => exact .openLiteral number operator literal
          | none =>
              simp only
              split
              · next hw => exact .word number operator literal hw rfl
              · next hw => exact .stray number operator literal hw

theorem Reading.next_eq (hc : IsOrdinary c) (h : Reading c rest k n) :
    next (c :: rest) = (k, n) := by
  have ends := terminator?_eq_none hc rest
  obtain ⟨comment, -, -, joint⟩ := hc
  simp only [next, beq_iff_eq, comment, if_false, ends, joint]
  cases h with
  | word number operator literal hw length => simp [number, operator, literal, hw, ← length]
  | number | operator | literal | openLiteral | stray => simp [*]


section Characters

theorem isOrdinary_of_isNumeric (h : isNumeric c) : IsOrdinary c := by
  refine ⟨?_, ?_, ?_, ?_⟩ <;> rintro rfl <;> exact absurd h (by decide)

theorem isOrdinary_of_isSymbol (h : isSymbol c) : IsOrdinary c := by
  refine ⟨?_, ?_, ?_, ?_⟩ <;> rintro rfl <;> exact absurd h (by decide)

theorem isOrdinary_of_isFirm (h : isFirm c) : IsOrdinary c := by
  refine ⟨?_, ?_, ?_, ?_⟩ <;> rintro rfl <;> exact absurd h (by decide)

/-- What no sign of an operator is by itself, none is. -/
theorem not_of_isSymbol {p : Char → Bool}
    (none : (augmentable ++ single ++ ['!']).all fun d => !p d) (h : isSymbol c) : ¬p c := by
  have mem : c ∈ augmentable ++ single ++ ['!'] := by
    simpa [isSymbol, or_assoc] using h
  simpa using List.all_eq_true.mp none c mem

theorem not_isSymbol_of_isFirm (h : isFirm c) : ¬isSymbol c :=
  fun symbol => not_of_isSymbol (by decide) symbol h

theorem toNat_lt_of_isAlphanum (h : c.isAlphanum) : c.toNat < 0x80 := by
  have bound {m : UInt32} (small : m.toNat < 0x80) (le : c.val ≤ m) : c.toNat < 0x80 :=
    Nat.lt_of_le_of_lt (UInt32.le_iff_toNat_le.mp le) small
  rcases Bool.or_eq_true_iff.mp h with alpha | digit
  · rcases Bool.or_eq_true_iff.mp alpha with upper | lower
    · exact bound (by decide) (of_decide_eq_true upper).2
    · exact bound (by decide) (of_decide_eq_true (Bool.and_eq_true_iff.mp lower).2)
  · exact bound (by decide) (of_decide_eq_true (Bool.and_eq_true_iff.mp digit).2)

theorem not_isBlank_of_isNumeric (h : isNumeric c) : ¬Text.isBlank c := by
  simp only [isNumeric, Bool.or_eq_true, beq_iff_eq] at h
  rcases h with (((alphanumeric | rfl) | rfl) | rfl) | rfl
  · intro blank
    apply Text.not_isWord_of_isBlank blank
    rw [Text.isWord, if_pos (toNat_lt_of_isAlphanum alphanumeric), alphanumeric]
    rfl
  all_goals decide

theorem free_of_isNumeric (h : isNumeric c) : ¬isHinge c ∧ c ≠ '=' := by
  refine ⟨fun hinge => not_of_isHinge (by decide) hinge h, ?_⟩
  rintro rfl
  exact absurd h (by decide)

theorem free_of_isFirm (h : isFirm c) : ¬isHinge c ∧ c ≠ '=' := by
  refine ⟨fun hinge => not_of_isHinge (by decide) hinge h, ?_⟩
  rintro rfl
  exact absurd h (by decide)

theorem not_mem_laterSigns_of_isBreak (h : isBreak c) : c ∉ laterSigns := by
  have := not_of_isBreak (p := laterSigns.contains) (by decide) h
  simpa using this

theorem not_mem_laterSigns_of_isHinge (h : isHinge c) : c ∉ laterSigns := by
  have := not_of_isHinge (p := laterSigns.contains) (by decide) h
  simpa using this

end Characters

/-- A lexeme whose text tells its extent: the body of a literal is hidden, a colon is no part of a
    longer operator, and a character that starts nothing else is no white space, quote mark or
    backslash. -/
def isPlain (k : Lexeme) (text : Text) : Bool :=
  match k with
  | .word | .number => true
  | .operator => text != [':', '=']
  | .literal => text.all isFirm
  | .stray => text.all fun c => !Text.isBlank c && !isQuote c && c != '\\'
  | .joint | .comment | .terminator | .openLiteral _ => false

theorem endsRow_of_isPlain (h : k.isPlain text) : k.endsRow = false := by
  cases k <;> first | rfl | cases h

/-- What is known of a plain lexeme by its kind. -/
inductive IsRead (behind : Text) : Lexeme → Text → Prop where
  | number {text : Text} (chars : ∀ c ∈ text, isNumeric c)
      (found : number? (text ++ behind) = some text.length) : IsRead behind .number text
  | operator {text : Text} (chars : ∀ c ∈ text, isSymbol c)
      (number : number? (text ++ behind) = none)
      (found : operator? (text ++ behind) = some text.length) (whole : text ≠ [':', '=']) :
      IsRead behind .operator text
  | literal {text : Text} (chars : ∀ c ∈ text, isFirm c) (number : number? (text ++ behind) = none)
      (found : literal? (text ++ behind) = some (.closed text.length)) :
      IsRead behind .literal text
  | word {text : Text} (chars : ∀ c ∈ text, Text.isWord c)
      (number : number? (text ++ behind) = none) (literal : literal? (text ++ behind) = none)
      (stop : ∀ c ∈ behind.head?, ¬Text.isWord c) : IsRead behind .word text
  | stray {c : Char} (hb : ¬Text.isBlank c) (ordinary : IsOrdinary c) (hq : isQuote c = false)
      (hw : ¬Text.isWord c) (number : number? (c :: behind) = none)
      (operator : operator? (c :: behind) = none) : IsRead behind .stray [c]

theorem Takes.isRead (h : k.Takes text behind) (plain : k.isPlain text) : IsRead behind k text := by
  obtain ⟨c, rest, rfl⟩ := List.exists_cons_of_ne_nil h.ne_nil
  have starts := starts_next c (rest ++ behind)
  rw [← List.cons_append, h.next_eq] at starts
  have reading (ordinary : IsOrdinary c) : Reading c (rest ++ behind) k (c :: rest).length := by
    have := reading_next ordinary (rest ++ behind)
    rwa [← List.cons_append, h.next_eq] at this
  have taken : (c :: rest ++ behind).take (c :: rest).length = c :: rest := List.take_left
  cases k with
  | joint | comment | terminator | openLiteral => cases plain
  | number =>
      cases starts with
      | number found =>
          apply IsRead.number _ found
          intro d hd
          apply (reads_number? found).1.2
          rwa [← List.cons_append, taken]
  | operator =>
      cases starts with
      | operator found =>
          have chars : ∀ d ∈ c :: rest, isSymbol d := by
            intro d hd
            apply (reads_operator? found).1.2
            rwa [← List.cons_append, taken]
          cases reading (isOrdinary_of_isSymbol (chars c (List.mem_cons_self ..))) with
          | operator number found => exact .operator chars number found (by simpa [isPlain] using plain)
  | literal =>
      have chars : ∀ d ∈ c :: rest, isFirm d := List.all_eq_true.mp plain
      cases reading (isOrdinary_of_isFirm (chars c (List.mem_cons_self ..))) with
      | literal number _ found => exact .literal chars number found
  | word =>
      have hw : Text.isWord c := by
        generalize (c :: rest).length = n at starts
        cases starts
        assumption
      cases reading (isOrdinary_of_isFirm (isFirm_of_isWord hw)) with
      | word number _ literal _ length =>
          obtain ⟨chars, stop⟩ : (∀ d ∈ c :: rest, Text.isWord d) ∧
            ∀ d ∈ behind.head?, ¬Text.isWord d := length_takeWhile_append_iff.mp length
          exact .word chars number literal stop
  | stray =>
      obtain ⟨hw, rfl⟩ : ¬Text.isWord c ∧ rest = [] := by
        generalize length : (c :: rest).length = n at starts
        cases starts with
        | stray hw => exact ⟨hw, List.length_eq_zero_iff.mp (Nat.succ.inj length)⟩
      simp only [isPlain, List.all_cons, List.all_nil, Bool.and_true, Bool.and_eq_true,
        Bool.not_eq_true', bne_iff_ne, ne_eq] at plain
      obtain ⟨⟨blank, quote⟩, backslash⟩ := plain
      have ordinary : IsOrdinary c := by
        refine ⟨?_, ?_, ?_, backslash⟩
        · rintro rfl
          have := h.next_eq
          simp [next] at this
        · rintro rfl
          exact absurd blank (by decide)
        · rintro rfl
          exact absurd blank (by decide)
      cases reading ordinary with
      | stray number operator literal =>
          exact .stray (by simpa using blank) ordinary quote hw number operator

namespace IsRead

theorem not_isBlank (h : IsRead behind k text) : ∀ c ∈ text, ¬Text.isBlank c := by
  intro c hc
  cases h with
  | number chars => exact not_isBlank_of_isNumeric (chars c hc)
  | operator chars => exact not_of_isSymbol (by decide) (chars c hc)
  | literal chars => exact fun blank => not_isFirm_of_isBlank blank (chars c hc)
  | word chars => exact fun blank => Text.not_isWord_of_isBlank blank (chars c hc)
  | stray hb => rwa [List.mem_singleton.mp hc]

theorem not_isGap (h : IsRead behind k text) : ∀ c ∈ text, ¬isGap c := by
  intro c hc gap
  have := not_of_isGap (p := fun d => !Text.isBlank d) (by decide) gap
  exact h.not_isBlank c hc (by simpa using this)

theorem isOrdinary (h : IsRead behind k text) : ∀ c ∈ text, IsOrdinary c := by
  intro c hc
  cases h with
  | number chars => exact isOrdinary_of_isNumeric (chars c hc)
  | operator chars => exact isOrdinary_of_isSymbol (chars c hc)
  | literal chars => exact isOrdinary_of_isFirm (chars c hc)
  | word chars => exact isOrdinary_of_isFirm (isFirm_of_isWord (chars c hc))
  | stray _ ordinary => rwa [List.mem_singleton.mp hc]

/-- A bracket or a separator is a lexeme of its own. -/
theorem length_eq_one (h : IsRead behind k text) (hc : c ∈ text) (hinge : isHinge c) :
    text.length = 1 := by
  cases h with
  | number chars => exact absurd hinge (free_of_isNumeric (chars c hc)).1
  | operator _ _ found whole =>
      have pos : 0 < text.length := List.length_pos_of_mem hc
      by_contra other
      have loose := isLooseSign_of_mem (operator?_of_append found) (by omega) whole c hc
      exact not_of_isHinge (by decide) hinge loose
  | literal chars => exact absurd hinge (free_of_isFirm (chars c hc)).1
  | word chars => exact absurd hinge (free_of_isFirm (isFirm_of_isWord (chars c hc))).1
  | stray => rfl

theorem next_eq (h : IsRead behind k text) (ne : text ≠ []) :
    next (text ++ behind) = (k, text.length) := by
  obtain ⟨c, rest, rfl⟩ := List.exists_cons_of_ne_nil ne
  have first : c ∈ c :: rest := List.mem_cons_self ..
  cases h with
  | number chars found => exact (Reading.number found).next_eq (isOrdinary_of_isNumeric (chars c first))
  | operator chars number found =>
      exact (Reading.operator number found).next_eq (isOrdinary_of_isSymbol (chars c first))
  | literal chars number found =>
      have operator := operator?_eq_none (s := rest ++ behind) (not_isSymbol_of_isFirm (chars c first))
      exact (Reading.literal number operator found).next_eq (isOrdinary_of_isFirm (chars c first))
  | word chars number literal stop =>
      have firm := isFirm_of_isWord (chars c first)
      have operator := operator?_eq_none (s := rest ++ behind) (not_isSymbol_of_isFirm firm)
      apply (Reading.word number operator literal (chars c first) _).next_eq (isOrdinary_of_isFirm firm)
      exact length_takeWhile_append_iff.mpr ⟨chars, stop⟩
  | stray _ ordinary hq hw number operator =>
      exact (Reading.stray number operator (literal?_cons_eq_none hq hw _) hw).next_eq ordinary

end IsRead

end Lexeme

end StyleGuide
