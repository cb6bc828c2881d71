import StyleGuide.Proofs.Lexeme.Extent

/-! # How far a number looks ahead

A reader of numbers looks behind the number to see that it ends there. A text that is cut off
behind the number, or goes on with a character of no number, holds the same number. The readers
are built from a few combinators, and each of these keeps this property.
-/

namespace StyleGuide.Lexeme

/-- What is read does not depend on what is cut off behind it, and a text that holds nothing to
    read holds nothing either when its end is cut off. -/
structure IsLocal (f : Text → Option Nat) : Prop where
  le : ∀ {s : Text} {n : Nat}, f s = some n → n ≤ s.length
  cut : ∀ {x b : Text} {n : Nat}, f (x ++ b) = some n → n ≤ x.length → f x = some n
  none : ∀ {x b : Text}, f (x ++ b) = none → f x = none

/-- The same for a reader that may read no character at all. -/
structure IsLocalCount (g : Text → Nat) : Prop where
  le : ∀ s : Text, g s ≤ s.length
  cut : ∀ {x b : Text}, g (x ++ b) ≤ x.length → g x = g (x ++ b)

/-- One reader behind another. -/
def andThen (f g : Text → Option Nat) (s : Text) : Option Nat := do
  let n ← f s
  let m ← g (s.drop n)
  return n + m

/-- A reader with one behind it that may read no character at all. -/
def andPerhaps (f : Text → Option Nat) (g : Text → Nat) (s : Text) : Option Nat :=
  (f s).map fun n => n + g (s.drop n)

/-- A single letter out of `letters`. -/
def letter? (letters : List Char) (s : Text) : Option Nat :=
  if optionalLetter letters s = 1 then some 1 else none

section Combinators

variable {f g : Text → Option Nat} {k : Text → Nat} {x b : Text} {n : Nat}

theorem IsLocal.orElse (hf : IsLocal f) (hg : IsLocal g) : IsLocal fun s => f s <|> g s where
  le {s n} h := (eq_or_eq_of_orElse h).elim hf.le hg.le
  cut {x b n} h le := by
    cases hx : f (x ++ b) with
    | none =>
        have second : g (x ++ b) = some n := by simpa [hx] using h
        simp [hf.none hx, hg.cut second le]
    | some m =>
        obtain rfl : m = n := by simpa [hx] using h
        simp [hf.cut hx le]
  none {x b} h := by
    cases hx : f (x ++ b) with
    | none =>
        have second : g (x ++ b) = Option.none := by simpa [hx] using h
        simp [hf.none hx, hg.none second]
    | some m => simp [hx] at h

theorem IsLocal.getD (hf : IsLocal f) (hk : IsLocalCount k) :
    IsLocalCount fun s => (f s).getD (k s) where
  le s := by
    cases h : f s with
    | none => exact hk.le s
    | some n => exact hf.le h
  cut {x b} h := by
    cases hx : f (x ++ b) with
    | none =>
        simp only [hx, hf.none hx, Option.getD_none] at h ⊢
        exact hk.cut h
    | some n =>
        simp only [hx, Option.getD_some] at h ⊢
        rw [hf.cut hx h, Option.getD_some]

/-- A number ends in front of a character that it cannot hold, whatever comes behind that. -/
theorem IsLocal.stays {p : Char → Bool} (hf : IsLocal f)
    (reads : ∀ {s n}, f s = some n → Reads p n s) (hx : f x = some n)
    (behind : ∃ c ∈ (x.drop n).head?, ¬p c) (b : Text) : f (x ++ b) = some n := by
  obtain ⟨c, hc, other⟩ := behind
  cases h : f (x ++ b) with
  | none =>
      rw [hf.none h] at hx
      cases hx
  | some m =>
      by_cases le : m ≤ x.length
      · rwa [hf.cut h le] at hx
      · have mem : c ∈ x := List.mem_of_mem_drop (List.mem_of_mem_head? hc)
        refine absurd ((reads h).2 c ?_) other
        rw [List.take_append, List.take_of_length_le (by omega)]
        exact List.mem_append_left _ mem

theorem IsLocal.andThen (hf : IsLocal f) (hg : IsLocal g)
    (apart : ∀ {x n m}, f x = some n → g (x.drop n) = some m → ∀ b, f (x ++ b) = some n) :
    IsLocal (andThen f g) where
  le {s n} h := by
    simp only [Lexeme.andThen, Option.bind_eq_bind, Option.bind_eq_some_iff] at h
    obtain ⟨i, hi, j, hj, sum⟩ := h
    obtain rfl := Option.some.inj sum
    have first := hf.le hi
    have second := hg.le hj
    rw [List.length_drop] at second
    omega
  cut {x b n} h le := by
    simp only [Lexeme.andThen, Option.bind_eq_bind, Option.bind_eq_some_iff] at h ⊢
    obtain ⟨i, hi, j, hj, sum⟩ := h
    obtain rfl := Option.some.inj sum
    have inner : i ≤ x.length := Nat.le_trans (Nat.le_add_right i j) le
    rw [List.drop_append_of_le_length inner] at hj
    refine ⟨i, hf.cut hi inner, j, hg.cut hj ?_, rfl⟩
    rw [List.length_drop]
    omega
  none {x b} h := by
    simp only [Lexeme.andThen, Option.bind_eq_bind] at h ⊢
    cases hx : f x with
    | none => rfl
    | some i =>
        rw [Option.bind_some]
        cases hy : g (x.drop i) with
        | none => rfl
        | some j =>
            rw [apart hx hy b, Option.bind_some, List.drop_append_of_le_length (hf.le hx)] at h
            cases hg' : g (x.drop i ++ b) with
            | none =>
                rw [hg.none hg'] at hy
                cases hy
            | some m =>
                rw [hg', Option.bind_some] at h
                cases h

theorem IsLocal.andPerhaps (hf : IsLocal f) (hk : IsLocalCount k) :
    IsLocal (andPerhaps f k) where
  le {s n} h := by
    obtain ⟨i, hi, rfl⟩ := Option.map_eq_some_iff.mp h
    have first := hf.le hi
    have second := hk.le (s.drop i)
    rw [List.length_drop] at second
    omega
  cut {x b n} h le := by
    obtain ⟨i, hi, rfl⟩ := Option.map_eq_some_iff.mp h
    have inner : i ≤ x.length := Nat.le_trans (Nat.le_add_right i _) le
    rw [List.drop_append_of_le_length inner] at le ⊢
    have short : k (x.drop i ++ b) ≤ (x.drop i).length := by
      rw [List.length_drop]
      omega
    rw [Lexeme.andPerhaps, hf.cut hi inner, Option.map_some, hk.cut short]
  none {x b} h := by
    rw [Lexeme.andPerhaps, Option.map_eq_none_iff] at h ⊢
    exact hf.none h

theorem isLocalCount_zero : IsLocalCount fun _ => 0 := ⟨fun _ => Nat.zero_le _, fun _ => rfl⟩

theorem isLocalCount_optionalLetter (letters : List Char) :
    IsLocalCount (optionalLetter letters) where
  le s := by
    cases s with
    | nil => exact Nat.le_refl _
    | cons c s =>
        simp only [optionalLetter, List.length_cons]
        split <;> omega
  cut {x b} h := by
    cases x with
    | nil => exact (Nat.le_zero.mp h).symm
    | cons c x => rfl

theorem isLocal_letter? (letters : List Char) : IsLocal (letter? letters) where
  le {s n} h := by
    simp only [letter?, Option.ite_none_right_eq_some, Option.some.injEq] at h
    obtain ⟨h, rfl⟩ := h
    exact h ▸ (isLocalCount_optionalLetter letters).le s
  cut {x b n} h le := by
    simp only [letter?, Option.ite_none_right_eq_some, Option.some.injEq] at h ⊢
    obtain ⟨h, rfl⟩ := h
    rw [← h] at le
    exact ⟨((isLocalCount_optionalLetter letters).cut le).trans h, rfl⟩
  none {x b} h := by
    cases x with
    | nil => rfl
    | cons c x => exact h

theorem exists_of_letter? {letters : List Char} {s : Text} (h : letter? letters s = some n) :
    ∃ c ∈ s.head?, c ∈ letters := by
  cases s with
  | nil => cases h
  | cons c s =>
      refine ⟨c, rfl, ?_⟩
      simp only [letter?, optionalLetter] at h
      split at h
      · next hc => simpa using hc
      · simp at h

theorem Reads.le_of_stop {p : Char → Bool} (h : Reads p n (x ++ b))
    (stop : ∀ c ∈ b.head?, ¬p c) : n ≤ x.length := by
  by_contra far
  cases b with
  | nil =>
      have := h.1
      rw [List.append_nil] at this
      omega
  | cons c b =>
      refine stop c rfl (h.2 c ?_)
      rw [List.take_append, List.take_of_length_le (by omega), List.mem_append]
      obtain ⟨k, hk⟩ := Nat.exists_eq_succ_of_ne_zero (n := n - x.length) (by omega)
      rw [hk, List.take_succ_cons]
      exact .inr (List.mem_cons_self ..)

/-- Only the characters in front that can be read count. -/
theorem IsLocal.eq_takeWhile {p : Char → Bool} (hf : IsLocal f)
    (reads : ∀ {s n}, f s = some n → Reads p n s) (s : Text) : f s = f (s.takeWhile p) := by
  have whole := List.takeWhile_append_dropWhile (p := p) (l := s)
  have stop : ∀ c ∈ (s.dropWhile p).head?, ¬p c := by
    intro c hc
    have := List.head?_dropWhile_not p s
    rw [Option.mem_def.mp hc] at this
    simpa using this
  cases h : f s with
  | none =>
      rw [← whole] at h
      exact (hf.none h).symm
  | some n =>
      rw [← whole] at h
      exact (hf.cut h ((reads h).le_of_stop stop)).symm

/-- Less to read leaves what is read as it is, if that is still there. -/
theorem IsLocal.eq_some_of_prefix {p : Char → Bool} {s s' : Text} (hf : IsLocal f)
    (reads : ∀ {s n}, f s = some n → Reads p n s) (run : s'.takeWhile p <+: s.takeWhile p)
    (h : f s = some n) (le : n ≤ (s'.takeWhile p).length) : f s' = some n := by
  obtain ⟨more, eq⟩ := run
  rw [hf.eq_takeWhile reads, ← eq] at h
  rw [hf.eq_takeWhile reads]
  exact hf.cut h le

theorem IsLocal.eq_none_of_prefix {p : Char → Bool} {s s' : Text} (hf : IsLocal f)
    (reads : ∀ {s n}, f s = some n → Reads p n s) (run : s'.takeWhile p <+: s.takeWhile p)
    (h : f s = Option.none) : f s' = Option.none := by
  obtain ⟨more, eq⟩ := run
  rw [hf.eq_takeWhile reads, ← eq] at h
  rw [hf.eq_takeWhile reads]
  exact hf.none h

/-- What is read in front of a letter that it cannot hold is read whatever comes behind that. -/
theorem IsLocal.stays_of_letter? {p : Char → Bool} {letters : List Char} {m : Nat}
    (hf : IsLocal f) (reads : ∀ {s n}, f s = some n → Reads p n s)
    (other : letters.all fun c => !p c) (hx : f x = some n)
    (hl : letter? letters (x.drop n) = some m) (b : Text) : f (x ++ b) = some n := by
  obtain ⟨c, hc, mem⟩ := exists_of_letter? hl
  exact hf.stays reads hx ⟨c, hc, by simpa using List.all_eq_true.mp other c mem⟩ b

end Combinators

section Readers

variable {isDigit : Char → Bool} {letters : List Char}

theorem moreDigits_cons {c : Char} (hc : c ≠ '_') (s : Text) :
    moreDigits isDigit (c :: s) = if isDigit c then moreDigits isDigit s + 1 else 0 := by
  rw [moreDigits]
  intro d rest eq
  exact absurd eq hc

theorem isLocalCount_moreDigits (link : isDigit '_' = false) :
    IsLocalCount (moreDigits isDigit) where
  le s := (reads_moreDigits (p := fun _ => true) (fun _ _ => rfl) rfl s).1
  cut {x b} h := by
    fun_induction moreDigits isDigit x with
    | case1 c rest hc ih =>
        simp only [List.cons_append, moreDigits, hc, if_true, List.length_cons] at h ⊢
        rw [ih (by omega)]
    | case2 c rest hc => simp [moreDigits, hc]
    | case3 c rest single hc ih =>
        have other : c ≠ '_' := by
          rintro rfl
          rw [link] at hc
          cases hc
        simp only [List.cons_append, moreDigits_cons other, hc, if_true, List.length_cons] at h ⊢
        rw [ih (by omega)]
    | case4 c rest single hc =>
        by_cases other : c = '_'
        · -- the underscore is the last character, and nothing may join it to a digit
          subst other
          cases rest with
          | cons d rest => exact (single d rest rfl rfl).elim
          | nil =>
              cases b with
              | nil => simp [moreDigits, link]
              | cons d b =>
                  simp only [List.cons_append, List.nil_append, moreDigits] at h ⊢
                  split at h
                  · simp at h
                  · next hd => rw [if_neg hd]
        · rw [List.cons_append, moreDigits_cons other, if_neg hc]
    | case5 => exact (Nat.le_zero.mp h).symm

theorem isLocal_digits? : IsLocal digits? where
  le h := (reads_digits? h).1.1
  cut {x b n} h le := by
    cases x with
    | nil => exact absurd (reads_digits? h).2 (Nat.not_lt_of_le le)
    | cons c x =>
        simp only [List.cons_append, digits?, Option.ite_none_right_eq_some,
          Option.some.injEq] at h ⊢
        obtain ⟨hc, rfl⟩ := h
        rw [List.length_cons, Nat.add_le_add_iff_right] at le
        exact ⟨hc, by rw [(isLocalCount_moreDigits (by decide)).cut le]⟩
  none {x b} h := by
    cases x with
    | nil => rfl
    | cons c x => simpa [digits?] using h

/-- A row of digits with a sign in front, perhaps. -/
def signedDigits? (s : Text) : Option Nat :=
  let sign := optionalLetter ['-', '+'] s
  (digits? (s.drop sign)).map fun n => n + sign

theorem isLocal_signedDigits? : IsLocal signedDigits? where
  le {s n} h := by
    obtain ⟨k, hk, rfl⟩ := Option.map_eq_some_iff.mp h
    have first := (isLocalCount_optionalLetter ['-', '+']).le s
    have second := isLocal_digits?.le hk
    rw [List.length_drop] at second
    omega
  cut {x b n} h le := by
    obtain ⟨k, hk, rfl⟩ := Option.map_eq_some_iff.mp h
    have sign := (isLocalCount_optionalLetter ['-', '+']).cut (x := x) (b := b) (by omega)
    rw [← sign] at hk le ⊢
    have inner := (isLocalCount_optionalLetter ['-', '+']).le x
    rw [List.drop_append_of_le_length inner] at hk
    rw [signedDigits?, isLocal_digits?.cut hk (by rw [List.length_drop]; omega), Option.map_some]
  none {x b} h := by
    cases x with
    | nil => rfl
    | cons c x =>
        have inner := (isLocalCount_optionalLetter ['-', '+']).le (c :: x)
        rw [signedDigits?, Option.map_eq_none_iff] at h ⊢
        refine isLocal_digits?.none (b := b) ?_
        rwa [← List.drop_append_of_le_length inner]

theorem exponent?_eq (s : Text) : exponent? s = andThen (letter? ['e', 'E']) signedDigits? s := by
  cases s with
  | nil => rfl
  | cons c s =>
      have first : letter? ['e', 'E'] (c :: s) =
          if c == 'e' || c == 'E' then some 1 else none := by
        simp only [letter?, optionalLetter, List.contains_eq_mem, List.mem_cons, List.not_mem_nil,
          or_false, Bool.or_eq_true, beq_iff_eq, decide_eq_true_eq]
        split <;> simp
      rw [exponent?, andThen, first]
      split
      · simp only [Option.bind_eq_bind, Option.bind_some, List.drop_succ_cons, List.drop_zero,
          signedDigits?]
        cases digits? (s.drop (optionalLetter ['-', '+'] s)) with
        | none => rfl
        | some n => exact congrArg some (Nat.add_comm _ 1)
      · rfl

theorem isLocal_letter?_andThen (letters : List Char) {g : Text → Option Nat} (hg : IsLocal g) :
    IsLocal (andThen (letter? letters) g) := by
  refine (isLocal_letter? letters).andThen hg fun {x n m} h _ b => ?_
  cases x with
  | nil => cases h
  | cons c x => exact h

theorem isLocal_exponent? : IsLocal exponent? := by
  rw [funext exponent?_eq]
  exact isLocal_letter?_andThen _ isLocal_signedDigits?

/-- A point and perhaps digits behind it. -/
def fraction? : Text → Option Nat := andPerhaps (letter? ['.']) fun s => (digits? s).getD 0

theorem isLocal_fraction? : IsLocal fraction? :=
  (isLocal_letter? _).andPerhaps (isLocal_digits?.getD isLocalCount_zero)

/-- The part of a float in front of its exponent. -/
def mantissa? (s : Text) : Option Nat :=
  andThen digits? fraction? s <|> andThen (letter? ['.']) digits? s

theorem isLocal_mantissa? : IsLocal mantissa? := by
  refine (isLocal_digits?.andThen isLocal_fraction? fun h hf => ?_).orElse
    (isLocal_letter?_andThen _ isLocal_digits?)
  obtain ⟨k, hk, -⟩ := Option.map_eq_some_iff.mp hf
  exact isLocal_digits?.stays_of_letter? (fun h => (reads_digits? h).1) (by decide) h hk

theorem pointFloat?_eq (s : Text) :
    pointFloat? s = andPerhaps mantissa? (fun s => (exponent? s).getD 0) s := by
  unfold pointFloat? andPerhaps
  refine congrArg (Option.map _) ?_
  unfold mantissa? andThen
  cases hd : digits? s with
  | none =>
      cases s with
      | nil => rfl
      | cons c rest =>
          by_cases hc : c = '.'
          · subst hc
            cases hr : digits? rest with
            | none => simp [letter?, optionalLetter, hr]
            | some n => simp [letter?, optionalLetter, hr, Nat.add_comm]
          · simp [letter?, optionalLetter, hc]
  | some whole =>
      have lone : letter? ['.'] s = none := by
        cases s with
        | nil => rfl
        | cons c rest =>
            by_cases hc : c = '.'
            · subst hc
              cases hd
            · simp [letter?, optionalLetter, hc]
      simp only [lone, Option.bind_eq_bind, Option.bind_some]
      cases hr : s.drop whole with
      | nil => rfl
      | cons c rest =>
          by_cases hc : c = '.'
          · subst hc
            simp [fraction?, andPerhaps, letter?, optionalLetter, Nat.add_assoc]
          · simp [fraction?, andPerhaps, letter?, optionalLetter, hc]

theorem isLocal_pointFloat? : IsLocal pointFloat? := by
  rw [funext pointFloat?_eq]
  exact isLocal_mantissa?.andPerhaps (isLocal_exponent?.getD isLocalCount_zero)

theorem isLocal_float? : IsLocal float? := by
  refine isLocal_pointFloat?.orElse (isLocal_digits?.andThen isLocal_exponent? fun h he => ?_)
  simp only [exponent?_eq, andThen, Option.bind_eq_bind, Option.bind_eq_some_iff] at he
  obtain ⟨k, hk, -⟩ := he
  exact isLocal_digits?.stays_of_letter? (fun h => (reads_digits? h).1) (by decide) h hk

theorem isLocal_based? (link : isDigit '_' = false) : IsLocal (based? letters isDigit) where
  le {s n} h := by
    simp only [based?, Option.ite_none_left_eq_some, Option.some.injEq] at h
    obtain ⟨-, rfl⟩ := h
    have first := (isLocalCount_optionalLetter letters).le s
    have second := (isLocalCount_moreDigits link).le (s.drop (optionalLetter letters s))
    rw [List.length_drop] at second
    omega
  cut {x b n} h le := by
    simp only [based?, Option.ite_none_left_eq_some, Option.some.injEq] at h ⊢
    obtain ⟨some, rfl⟩ := h
    have letter := (isLocalCount_optionalLetter letters).cut (x := x) (b := b) (by omega)
    have inner := (isLocalCount_optionalLetter letters).le x
    rw [← letter, List.drop_append_of_le_length inner] at some le ⊢
    have count := (isLocalCount_moreDigits link).cut
      (x := x.drop (optionalLetter letters x)) (b := b) (by rw [List.length_drop]; omega)
    rw [count]
    exact ⟨some, rfl⟩
  none {x b} h := by
    cases x with
    | nil => rfl
    | cons c x =>
        simp only [based?, ite_eq_left_iff, reduceCtorEq, imp_false, not_not] at h ⊢
        have inner := (isLocalCount_optionalLetter letters).le (c :: x)
        have letter : optionalLetter letters (c :: x ++ b) = optionalLetter letters (c :: x) := rfl
        rw [letter, List.drop_append_of_le_length inner] at h
        rw [(isLocalCount_moreDigits link).cut (by rw [h]; exact Nat.zero_le _), h]

theorem isLocalCount_behindZero : IsLocalCount behindZero := by
  have guarded {first : List Char} {f : Text → Option Nat} (hf : IsLocal f)
      (pos : ∀ {s n}, f s = some n → 0 < n) :
      IsLocal fun s => if optionalLetter first s = 1 then f s else none := by
    refine ⟨fun {s n} h => ?_, fun {x b n} h le => ?_, fun {x b} h => ?_⟩
    · split at h
      · exact hf.le h
      · cases h
    · split at h
      · next letter =>
          cases x with
          | nil => exact absurd (pos h) (Nat.not_lt_of_le le)
          | cons c x =>
              have letter : optionalLetter first (c :: x) = 1 := letter
              simp only [letter, if_true]
              exact hf.cut h le
      · cases h
    · cases x with
      | nil => rfl
      | cons c x =>
          have letter : optionalLetter first (c :: x ++ b) = optionalLetter first (c :: x) := rfl
          rw [letter] at h
          split at h
          · next yes => simp only [yes, if_true, hf.none h]
          · next no => simp only [no, if_false]
  have pos {letters : List Char} {isDigit : Char → Bool} {s : Text} {n : Nat}
      (h : based? letters isDigit s = some n) : 0 < n := by
    simp only [based?, Option.ite_none_left_eq_some, Option.some.injEq] at h
    omega
  exact ((guarded (isLocal_based? (by decide)) pos).orElse
    ((guarded (isLocal_based? (by decide)) pos).orElse (isLocal_based? (by decide)))).getD
      (isLocalCount_moreDigits (by decide))

/-- An integer in front of the letter of a long one. -/
def magnitude? : Text → Option Nat
  | '0' :: rest => some (behindZero rest + 1)
  | s => digits? s

theorem magnitude?_cons {c : Char} (hc : c ≠ '0') (s : Text) :
    magnitude? (c :: s) = digits? (c :: s) := by
  rw [magnitude?]
  intro rest eq
  exact hc (List.cons.inj eq).1

theorem isLocal_magnitude? : IsLocal magnitude? where
  le {s n} h := by
    unfold magnitude? at h
    split at h
    · next rest =>
        obtain rfl := Option.some.inj h
        exact Nat.succ_le_succ (isLocalCount_behindZero.le rest)
    · exact isLocal_digits?.le h
  cut {x b n} h le := by
    cases x with
    | nil =>
        obtain rfl := Nat.le_zero.mp le
        unfold magnitude? at h
        split at h
        · cases h
        · exact absurd (reads_digits? h).2 (Nat.lt_irrefl 0)
    | cons c x =>
        by_cases hc : c = '0'
        · subst hc
          obtain rfl := Option.some.inj h
          exact congrArg (some <| · + 1) (isLocalCount_behindZero.cut (Nat.le_of_succ_le_succ le))
        · rw [List.cons_append, magnitude?_cons hc] at h
          rw [magnitude?_cons hc]
          exact isLocal_digits?.cut h le
  none {x b} h := by
    cases x with
    | nil => rfl
    | cons c x =>
        by_cases hc : c = '0'
        · subst hc
          cases h
        · rw [List.cons_append, magnitude?_cons hc] at h
          rw [magnitude?_cons hc]
          exact isLocal_digits?.none h

theorem integer?_eq (s : Text) :
    integer? s = andPerhaps magnitude? (optionalLetter ['l', 'L']) s := by
  unfold integer?
  split
  · rfl
  · next other =>
      rw [andPerhaps, magnitude?]
      exact other

theorem isLocal_integer? : IsLocal integer? := by
  rw [funext integer?_eq]
  exact isLocal_magnitude?.andPerhaps (isLocalCount_optionalLetter ['l', 'L'])

theorem number?_eq (s : Text) :
    number? s = (andThen digits? (letter? ['j', 'J']) s <|>
      (andThen float? (letter? ['j', 'J']) s <|> (float? s <|> integer? s))) := by
  have imaginary (f : Text → Option Nat) : andThen f (letter? ['j', 'J']) s =
      (f s).bind fun n =>
        if optionalLetter ['j', 'J'] (s.drop n) = 1 then some (n + 1) else none := by
    simp only [andThen, letter?, Option.bind_eq_bind]
    refine congrArg _ (funext fun n => ?_)
    split <;> rfl
  rw [imaginary, imaginary]
  rfl
theorem isLocal_number? : IsLocal number? := by
  rw [funext number?_eq]
  refine (isLocal_digits?.andThen (isLocal_letter? _) fun h hl => ?_).orElse
    ((isLocal_float?.andThen (isLocal_letter? _) fun h hl => ?_).orElse
      (isLocal_float?.orElse isLocal_integer?))
  · exact isLocal_digits?.stays_of_letter? (fun h => (reads_digits? h).1) (by decide) h hl
  · exact isLocal_float?.stays_of_letter? (fun h => (reads_float? h).1) (by decide) h hl

end Readers

end StyleGuide.Lexeme
