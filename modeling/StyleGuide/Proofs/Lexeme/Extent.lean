import Mathlib.Data.List.TakeWhile
import StyleGuide.Lexeme
import StyleGuide.Proofs.Lexeme.Literal

/-! # How far a lexeme reaches

Each reader of a lexeme stays inside the text that it is given and takes only characters of its
own kind. None but the readers of comments and literals takes a quote mark.
-/

namespace StyleGuide.Lexeme

/-- The first `n` characters are there and satisfy `p`. -/
def Reads (p : Char → Bool) (n : Nat) (s : Text) : Prop := n ≤ s.length ∧ ∀ c ∈ s.take n, p c

namespace Reads

variable {p : Char → Bool} {n m : Nat} {s : Text}

theorem zero : Reads p 0 s := ⟨Nat.zero_le _, by simp⟩

theorem cons {c : Char} (hc : p c) (h : Reads p n s) : Reads p (n + 1) (c :: s) :=
  ⟨Nat.succ_le_succ h.1, by simpa [hc] using h.2⟩

theorem add (h : Reads p n s) (more : Reads p m (s.drop n)) : Reads p (n + m) s := by
  obtain ⟨le, mem⟩ := h
  obtain ⟨le', mem'⟩ := more
  refine ⟨by rw [List.length_drop] at le'; omega, ?_⟩
  intro c hc
  rw [List.take_add, List.mem_append] at hc
  exact hc.elim (mem c) (mem' c)

theorem head {c : Char} (h : Reads p n (c :: s)) (pos : 0 < n) : p c := by
  obtain ⟨n, rfl⟩ := Nat.exists_eq_succ_of_ne_zero (Nat.ne_of_gt pos)
  exact h.2 c (List.mem_cons_self ..)

theorem mono {q : Char → Bool} (h : Reads p n s) (sub : ∀ c, p c → q c) : Reads q n s :=
  ⟨h.1, fun c hc => sub c (h.2 c hc)⟩

end Reads

/-- A letter, digit, underscore, point or sign: a number holds no others. -/
def isNumeric (c : Char) : Bool := c.isAlphanum || c == '_' || c == '.' || c == '+' || c == '-'

/-- A character of a row of decimal digits. -/
def isDecimal (c : Char) : Bool := c.isDigit || c == '_'

/-- A character of a float. -/
def isFloating (c : Char) : Bool :=
  isDecimal c || c == '.' || c == 'e' || c == 'E' || c == '+' || c == '-'

/-- A character that some number holds. Most letters are none. -/
def isNumeral (c : Char) : Bool :=
  isHexDigit c || isFloating c || ['x', 'X', 'o', 'O', 'l', 'L', 'j', 'J'].contains c

/-- A character of an operator. -/
def isSymbol (c : Char) : Bool := augmentable.contains c || single.contains c || c == '!'

theorem eq_or_eq_of_orElse {a b : Option Nat} {n : Nat} (h : (a <|> b) = some n) :
    a = some n ∨ b = some n := by
  cases a with
  | none => exact .inr h
  | some m => exact .inl h

section Number

variable {p isDigit : Char → Bool} {letters : List Char} {s : Text} {n : Nat}

theorem isNumeric_of_isDigit {c : Char} (h : c.isDigit) : isNumeric c := by
  simp [isNumeric, Char.isAlphanum, h]

theorem isNumeric_of_isAlpha {c : Char} (h : c.isAlpha) : isNumeric c := by
  simp [isNumeric, Char.isAlphanum, h]

theorem isNumeric_of_isHexDigit {c : Char} (h : isHexDigit c) : isNumeric c := by
  simp only [isHexDigit, Bool.or_eq_true, Bool.and_eq_true, decide_eq_true_eq, Char.le_def] at h
  obtain (h | h) | h := h
  · exact isNumeric_of_isDigit h
  · have lower : c.isLower :=
      Bool.and_eq_true_iff.mpr ⟨decide_eq_true h.1, decide_eq_true (UInt32.le_trans h.2 (by decide))⟩
    exact isNumeric_of_isAlpha (Bool.or_eq_true_iff.mpr (.inr lower))
  · have upper : c.isUpper := decide_eq_true ⟨h.1, UInt32.le_trans h.2 (by decide)⟩
    exact isNumeric_of_isAlpha (Bool.or_eq_true_iff.mpr (.inl upper))

theorem isNumeric_of_isFloating {c : Char} (h : isFloating c) : isNumeric c := by
  simp only [isFloating, isDecimal, Bool.or_eq_true, beq_iff_eq] at h
  obtain (((((h | rfl) | rfl) | rfl) | rfl) | rfl) | rfl := h
  · exact isNumeric_of_isDigit h
  all_goals rfl

theorem isNumeral_of_isHexDigit {c : Char} (h : isHexDigit c) : isNumeral c := by
  simp [isNumeral, h]

theorem isNumeral_of_isFloating {c : Char} (h : isFloating c) : isNumeral c := by
  simp [isNumeral, h]

theorem isNumeral_of_isOctalDigit {c : Char} (h : isOctalDigit c) : isNumeral c := by
  simp only [isOctalDigit, Bool.and_eq_true, decide_eq_true_eq, Char.le_def] at h
  have digit : c.isDigit := by
    simp only [Char.isDigit, Bool.and_eq_true, decide_eq_true_eq]
    exact ⟨h.1, UInt32.le_trans h.2 (by decide)⟩
  exact isNumeral_of_isFloating (by simp [isFloating, isDecimal, digit])

theorem isNumeral_of_isBinaryDigit {c : Char} (h : isBinaryDigit c) : isNumeral c := by
  simp only [isBinaryDigit, Bool.or_eq_true, beq_iff_eq] at h
  obtain rfl | rfl := h <;> rfl

theorem isNumeric_of_isNumeral {c : Char} (h : isNumeral c) : isNumeric c := by
  simp only [isNumeral, Bool.or_eq_true, List.contains_eq_mem, decide_eq_true_eq] at h
  obtain (hex | floating) | letter := h
  · exact isNumeric_of_isHexDigit hex
  · exact isNumeric_of_isFloating floating
  · exact List.all_eq_true.mp (show ['x', 'X', 'o', 'O', 'l', 'L', 'j', 'J'].all isNumeric by decide)
      c letter

theorem isFloating_of_isDecimal {c : Char} (h : isDecimal c) : isFloating c := by
  simp [isFloating, h]

theorem reads_moreDigits (hd : ∀ c, isDigit c → p c) (link : p '_') (s : Text) :
    Reads p (moreDigits isDigit s) s := by
  fun_induction moreDigits isDigit s with
  | case1 c rest hc ih => exact .cons link (.cons (hd c hc) ih)
  | case3 c rest _ hc ih => exact .cons (hd c hc) ih
  | case2 | case4 | case5 => exact .zero

theorem reads_optionalLetter (hl : letters.all p) (s : Text) :
    Reads p (optionalLetter letters s) s := by
  cases s with
  | nil => exact .zero
  | cons c s =>
      simp only [optionalLetter]
      split
      · next hc => exact .cons (List.all_eq_true.mp hl c (by simpa using hc)) .zero
      · exact .zero

theorem reads_digits? (h : digits? s = some n) : Reads isDecimal n s ∧ 0 < n := by
  cases s with
  | nil => simp [digits?] at h
  | cons c s =>
      simp only [digits?] at h
      split at h
      · next hc =>
          obtain rfl := Option.some.inj h
          have decimal : ∀ d : Char, d.isDigit → isDecimal d := fun d hd => by simp [isDecimal, hd]
          exact ⟨.cons (decimal c hc) (reads_moreDigits decimal rfl s), Nat.succ_pos _⟩
      · simp at h

theorem reads_exponent? (h : exponent? s = some n) : Reads isFloating n s := by
  cases s with
  | nil => simp [exponent?] at h
  | cons c s =>
      simp only [exponent?] at h
      split at h
      · next hc =>
          obtain ⟨k, hk, rfl⟩ := Option.map_eq_some_iff.mp h
          have sign : Reads isFloating (optionalLetter ['-', '+'] s) s :=
            reads_optionalLetter (by decide) s
          have letter : isFloating c := by
            simp only [Bool.or_eq_true, beq_iff_eq] at hc
            obtain rfl | rfl := hc <;> rfl
          rw [Nat.add_comm k]
          exact .cons letter (sign.add ((reads_digits? hk).1.mono fun _ => isFloating_of_isDecimal))
      · simp at h

theorem reads_pointFloat? (h : pointFloat? s = some n) : Reads isFloating n s ∧ 0 < n := by
  have digits {t : Text} {m : Nat} (hm : digits? t = some m) : Reads isFloating m t :=
    (reads_digits? hm).1.mono fun _ => isFloating_of_isDecimal
  have mantissa {k : Nat} (hk : Reads isFloating k s ∧ 0 < k) :
      Reads isFloating (k + (exponent? (s.drop k)).getD 0) s ∧
        0 < k + (exponent? (s.drop k)).getD 0 := by
    refine ⟨hk.1.add ?_, by omega⟩
    cases he : exponent? (s.drop k) with
    | none => exact .zero
    | some m => exact reads_exponent? he
  simp only [pointFloat?] at h
  obtain ⟨k, hk, rfl⟩ := Option.map_eq_some_iff.mp h
  refine mantissa ?_
  split at hk
  · next whole hw =>
      split at hk
      · next rest hr =>
          obtain rfl := Option.some.inj hk
          refine ⟨?_, by omega⟩
          rw [Nat.add_assoc]
          refine (digits hw).add ?_
          rw [hr, Nat.add_comm 1]
          refine .cons rfl ?_
          cases hd : digits? rest with
          | none => exact .zero
          | some m => exact digits hd
      · simp at hk
  · split at hk
    · obtain ⟨m, hm, rfl⟩ := Option.map_eq_some_iff.mp hk
      exact ⟨.cons rfl (digits hm), Nat.succ_pos _⟩
    · simp at hk

theorem reads_float? (h : float? s = some n) : Reads isFloating n s ∧ 0 < n := by
  simp only [float?] at h
  rcases eq_or_eq_of_orElse h with h | h
  · exact reads_pointFloat? h
  · simp only [Option.bind_eq_bind, Option.bind_eq_some_iff] at h
    obtain ⟨whole, hw, power, hp, eq⟩ := h
    obtain rfl := Option.some.inj eq
    obtain ⟨digits, pos⟩ := reads_digits? hw
    exact ⟨(digits.mono fun _ => isFloating_of_isDecimal).add (reads_exponent? hp), by omega⟩

theorem reads_based? (hl : letters.all isNumeral) (hd : ∀ c, isDigit c → isNumeral c)
    (h : based? letters isDigit s = some n) : Reads isNumeral n s := by
  simp only [based?] at h
  split at h
  · simp at h
  · obtain rfl := Option.some.inj h
    exact (reads_optionalLetter hl s).add (reads_moreDigits hd rfl _)

theorem reads_behindZero (s : Text) : Reads isNumeral (behindZero s) s := by
  have zeros : ∀ c : Char, (c == '0') → isNumeral c := fun c hc => by
    obtain rfl := beq_iff_eq.mp hc
    rfl
  simp only [behindZero]
  cases h : ((if optionalLetter ['x', 'X'] s = 1 then based? ['x', 'X'] isHexDigit s
      else none) <|> (if optionalLetter ['b', 'B'] s = 1 then based? ['b', 'B'] isBinaryDigit s
      else none) <|> based? ['o', 'O'] isOctalDigit s) with
  | none => exact reads_moreDigits zeros rfl s
  | some n =>
      rcases eq_or_eq_of_orElse h with h | h
      · split at h
        · exact reads_based? (by decide) (fun _ => isNumeral_of_isHexDigit) h
        · simp at h
      · rcases eq_or_eq_of_orElse h with h | h
        · split at h
          · exact reads_based? (by decide) (fun _ => isNumeral_of_isBinaryDigit) h
          · simp at h
        · exact reads_based? (by decide) (fun _ => isNumeral_of_isOctalDigit) h

theorem reads_integer? (h : integer? s = some n) : Reads isNumeral n s ∧ 0 < n := by
  have suffixed {k : Nat} (hk : Reads isNumeral k s ∧ 0 < k) :
      Reads isNumeral (k + optionalLetter ['l', 'L'] (s.drop k)) s ∧
        0 < k + optionalLetter ['l', 'L'] (s.drop k) :=
    ⟨hk.1.add (reads_optionalLetter (by decide) _), by omega⟩
  simp only [integer?] at h
  obtain ⟨k, hk, rfl⟩ := Option.map_eq_some_iff.mp h
  refine suffixed ?_
  split at hk
  · next rest =>
      obtain rfl := Option.some.inj hk
      exact ⟨.cons rfl (reads_behindZero rest), Nat.succ_pos _⟩
  · obtain ⟨digits, pos⟩ := reads_digits? hk
    exact ⟨digits.mono fun c hc => isNumeral_of_isFloating (isFloating_of_isDecimal hc), pos⟩

theorem reads_numeral? (h : number? s = some n) : Reads isNumeral n s ∧ 0 < n := by
  have imaginary {k : Nat} (hk : Reads isNumeral k s ∧ 0 < k)
      (h : (if optionalLetter ['j', 'J'] (s.drop k) = 1 then some (k + 1) else none) = some n) :
      Reads isNumeral n s ∧ 0 < n := by
    split at h
    · next hj =>
        obtain rfl := Option.some.inj h
        have : Reads isNumeral (optionalLetter ['j', 'J'] (s.drop k)) (s.drop k) :=
          reads_optionalLetter (by decide) _
        rw [hj] at this
        exact ⟨hk.1.add this, Nat.succ_pos _⟩
    · simp at h
  have float {k : Nat} (hk : Reads isFloating k s ∧ 0 < k) : Reads isNumeral k s ∧ 0 < k :=
    ⟨hk.1.mono fun _ => isNumeral_of_isFloating, hk.2⟩
  simp only [number?] at h
  rcases eq_or_eq_of_orElse h with h | h
  · simp only [Option.bind_eq_bind, Option.bind_eq_some_iff] at h
    obtain ⟨k, hk, h⟩ := h
    obtain ⟨digits, pos⟩ := reads_digits? hk
    exact imaginary (float ⟨digits.mono fun _ => isFloating_of_isDecimal, pos⟩) h
  · rcases eq_or_eq_of_orElse h with h | h
    · simp only [Option.bind_eq_bind, Option.bind_eq_some_iff] at h
      obtain ⟨k, hk, h⟩ := h
      exact imaginary (float (reads_float? hk)) h
    · rcases eq_or_eq_of_orElse h with h | h
      · exact float (reads_float? h)
      · exact reads_integer? h

theorem reads_number? (h : number? s = some n) : Reads isNumeric n s ∧ 0 < n :=
  ⟨(reads_numeral? h).1.mono fun _ => isNumeric_of_isNumeral, (reads_numeral? h).2⟩

end Number

theorem not_isQuote_of_isNumeric {c : Char} (h : isNumeric c) : ¬isQuote c := by
  intro hq
  simp only [isQuote, Bool.or_eq_true, beq_iff_eq] at hq
  obtain rfl | rfl := hq <;> exact absurd h (by decide)

theorem not_isQuote_of_isSymbol {c : Char} (h : isSymbol c) : ¬isQuote c := by
  intro hq
  simp only [isQuote, Bool.or_eq_true, beq_iff_eq] at hq
  obtain rfl | rfl := hq <;> exact absurd h (by decide)

theorem not_isQuote_of_isWord {c : Char} (h : Text.isWord c) : ¬isQuote c := by
  intro hq
  simp only [isQuote, Bool.or_eq_true, beq_iff_eq] at hq
  obtain rfl | rfl := hq <;> exact absurd h (by decide)

section Operator

variable {s : Text} {n : Nat}

theorem reads_equalsSign (s : Text) : Reads isSymbol (equalsSign s) s := by
  fun_cases equalsSign s with
  | case1 => exact .cons rfl .zero
  | case2 => exact .zero

theorem reads_operator? (h : operator? s = some n) : Reads isSymbol n s ∧ 0 < n := by
  have twice {c : Char} (hc : isSymbol c) (rest : Text) :
      Reads isSymbol (2 + equalsSign rest) (c :: c :: rest) ∧ 0 < 2 + equalsSign rest := by
    rw [Nat.add_comm]
    exact ⟨.cons hc (.cons hc (reads_equalsSign rest)), Nat.succ_pos _⟩
  have two {c d : Char} (hc : isSymbol c) (hd : isSymbol d) (rest : Text) :
      Reads isSymbol 2 (c :: d :: rest) ∧ 0 < 2 :=
    ⟨.cons hc (.cons hd .zero), Nat.succ_pos _⟩
  unfold operator? at h
  split at h <;> try obtain rfl := Option.some.inj h
  case h_10 c rest _ _ _ _ _ _ _ _ _ =>
    split at h
    · next hc =>
        obtain rfl := Option.some.inj h
        rw [Nat.add_comm]
        exact ⟨.cons (by simp only [isSymbol, hc, Bool.true_or]) (reads_equalsSign rest),
          Nat.succ_pos _⟩
    · split at h
      · next hc =>
          obtain rfl := Option.some.inj h
          exact ⟨.cons (by simp only [isSymbol, hc, Bool.or_true, Bool.true_or]) .zero,
            Nat.succ_pos _⟩
      · simp at h
  case h_11 => simp at h
  case h_8 => exact ⟨.cons rfl (.cons rfl (.cons rfl .zero)), Nat.succ_pos _⟩
  all_goals first
    | exact twice rfl _
    | exact two rfl rfl _

end Operator

/-- The end of a row. -/
def IsTerminator (s : Text) : Prop := s = ['\n'] ∨ s = ['\r', '\n']

theorem isTerminator_of_terminator? {s : Text} {n : Nat} (h : terminator? s = some n) :
    IsTerminator (s.take n) ∧ 0 < n ∧ n ≤ s.length := by
  unfold terminator? at h
  split at h
  · obtain rfl := Option.some.inj h
    exact ⟨.inl rfl, Nat.succ_pos _, by simp⟩
  · obtain rfl := Option.some.inj h
    exact ⟨.inr rfl, Nat.succ_pos _, by simp⟩
  · simp at h

/-- How the lexeme at the start of the text `c :: rest` comes about. -/
inductive Starts (c : Char) (rest : Text) : Lexeme → Nat → Prop where
  | comment (hc : c = '#') :
      Starts c rest .comment ((c :: rest).takeWhile fun d => d != '\r' && d != '\n').length
  | terminator {n : Nat} (hn : terminator? (c :: rest) = some n) : Starts c rest .terminator n
  | joint {n : Nat} (hc : c = '\\') (hn : terminator? rest = some n) :
      Starts c rest .joint (n + 1)
  | number {n : Nat} (hn : number? (c :: rest) = some n) : Starts c rest .number n
  | operator {n : Nat} (hn : operator? (c :: rest) = some n) : Starts c rest .operator n
  | literal {n : Nat} (hn : literal? (c :: rest) = some (.closed n)) : Starts c rest .literal n
  | openLiteral {q : Delimiter} (hq : literal? (c :: rest) = some (.runsOn q)) :
      Starts c rest (.openLiteral q) (rest.length + 1)
  | word (hc : Text.isWord c) :
      Starts c rest .word ((c :: rest).takeWhile Text.isWord).length
  | stray (hc : ¬Text.isWord c) : Starts c rest .stray 1

theorem starts_next (c : Char) (rest : Text) :
    Starts c rest (next (c :: rest)).1 (next (c :: rest)).2 := by
  simp only [next]
  split
  · next hc => exact .comment (by simpa using hc)
  · split
    · next hn => exact .terminator hn
    · split
      · next hn =>
          split at hn
          · next hc => exact .joint (by simpa using hc) hn
          · simp at hn
      · split
        · next hn => exact .number hn
        · split
          · next hn => exact .operator hn
          · split
            · next hn => exact .literal hn
            · next hq => exact .openLiteral hq
            · split
              · next hc => exact .word hc
              · next hc => exact .stray hc

theorem Starts.length_pos_le {c : Char} {rest : Text} {k : Lexeme} {n : Nat}
    (h : Starts c rest k n) : 0 < n ∧ n ≤ (c :: rest).length := by
  have first {p : Char → Bool} (hc : p c) :
      0 < ((c :: rest).takeWhile p).length ∧
        ((c :: rest).takeWhile p).length ≤ (c :: rest).length := by
    refine ⟨?_, (List.takeWhile_prefix p).length_le⟩
    rw [List.takeWhile_cons_of_pos hc]
    exact Nat.succ_pos _
  cases h with
  | comment hc => exact first (by subst hc; rfl)
  | terminator hn => exact (isTerminator_of_terminator? hn).2
  | joint hc hn =>
      exact ⟨Nat.succ_pos _, Nat.succ_le_succ (isTerminator_of_terminator? hn).2.2⟩
  | number hn => exact ⟨(reads_number? hn).2, (reads_number? hn).1.1⟩
  | operator hn => exact ⟨(reads_operator? hn).2, (reads_operator? hn).1.1⟩
  | literal hn => exact (isLiteral_of_literal? hn).2
  | openLiteral => exact ⟨Nat.succ_pos _, Nat.le_refl _⟩
  | word hc => exact first hc
  | stray => exact ⟨Nat.one_pos, Nat.succ_pos _⟩

end StyleGuide.Lexeme
