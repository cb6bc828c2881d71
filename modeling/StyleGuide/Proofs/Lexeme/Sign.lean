import StyleGuide.Proofs.Lexeme.Extent
import StyleGuide.Rule.BracketSpace

/-! # How far an operator and a literal look ahead

An operator is as long as it can be, so the signs behind it have a say in where it ends. One sign
decides, but for the three points of an ellipsis. A literal ends at its own delimiter; only one
with nothing in it looks ahead, since a third quote mark would make its delimiter a triple one.
-/

namespace StyleGuide.Lexeme

section Operator

variable {c d : Char} {s r x b : Text}

theorem equalsSign_eq (s : Text) : equalsSign s = if s.head? = some '=' then 1 else 0 := by
  cases s with
  | nil => rfl
  | cons c s =>
      by_cases hc : c = '='
      · subst hc
        rfl
      · simp [equalsSign, hc]

/-- Whether a sign written twice is an operator that may go on with an equals sign. -/
def isTwin (c : Char) : Bool := c == '*' || c == '>' || c == '<' || c == '/'

/-- Whether two signs are an operator that ends there. -/
def isPair (c d : Char) : Bool :=
  (c == '<' && d == '>') || (c == '!' && d == '=') || (c == '-' && d == '>') || (c == ':' && d == '=')

/-- The operators by their first sign. -/
theorem operator?_cons (c : Char) (s : Text) :
    operator? (c :: s) =
      if isTwin c ∧ s.head? = some c then some (2 + equalsSign s.tail)
      else if s.head?.any (isPair c) then some 2
      else if c = '.' ∧ s.head? = some '.' ∧ s.tail.head? = some '.' then some 3
      else if augmentable.contains c then some (1 + equalsSign s)
      else if single.contains c then some 1
      else none := by
  unfold operator?
  split
  case h_10 d rest star greater less slash unequal bang arrow dots walrus eq =>
    obtain ⟨rfl, rfl⟩ := List.cons.inj eq
    cases s with
    | nil => simp
    | cons e s =>
        have twin : ¬(isTwin c ∧ (e :: s).head? = some c) := by
          simp only [isTwin, Bool.or_eq_true, beq_iff_eq, List.head?_cons, Option.some.injEq]
          rintro ⟨((rfl | rfl) | rfl) | rfl, rfl⟩
          · exact star s rfl rfl
          · exact greater s rfl rfl
          · exact less s rfl rfl
          · exact slash s rfl rfl
        have pair : ¬((e :: s).head?.any (isPair c) = true) := by
          simp only [isPair, List.head?_cons, Option.any_some, Bool.or_eq_true, Bool.and_eq_true,
            beq_iff_eq]
          rintro (((⟨rfl, rfl⟩ | ⟨rfl, rfl⟩) | ⟨rfl, rfl⟩) | ⟨rfl, rfl⟩)
          · exact unequal s rfl rfl
          · exact bang s rfl rfl
          · exact arrow s rfl rfl
          · exact walrus s rfl rfl
        have three : ¬(c = '.' ∧ (e :: s).head? = some '.' ∧ (e :: s).tail.head? = some '.') := by
          rintro ⟨rfl, he, hs⟩
          obtain rfl := Option.some.inj he
          cases s with
          | nil => cases hs
          | cons f s =>
              obtain rfl := Option.some.inj hs
              exact dots s rfl rfl
        rw [if_neg twin, if_neg pair, if_neg three]
  all_goals simp_all [isTwin, isPair]

/-- What stands behind an operator is not needed to read it. -/
theorem operator?_of_append (h : operator? (x ++ b) = some x.length) :
    operator? x = some x.length := by
  match x with
  | [] => exact absurd (reads_operator? h).2 (Nat.lt_irrefl 0)
  | [_] | [_, _] | _ :: _ :: _ :: _ =>
      rw [List.cons_append, operator?_cons] at h
      rw [operator?_cons]
      grind [equalsSign_eq]

theorem operator?_concat_of_append (h : operator? (x ++ d :: r) = some x.length) :
    operator? (x ++ [d]) = some x.length := by
  match x with
  | [] => exact absurd (reads_operator? h).2 (Nat.lt_irrefl 0)
  | [_] | [_, _] | _ :: _ :: _ :: _ =>
      rw [List.cons_append, operator?_cons] at h ⊢
      grind [equalsSign_eq]

/-- The sign behind an operator decides that it ends there, where it is no ellipsis. -/
theorem operator?_append_of_concat (h : operator? (x ++ [d]) = some x.length)
    (dots : x = ['.'] → d = '.' → r.head? ≠ some '.') :
    operator? (x ++ d :: r) = some x.length := by
  match x with
  | [] => exact absurd (reads_operator? h).2 (Nat.lt_irrefl 0)
  | [_] | [_, _] | _ :: _ :: _ :: _ =>
      rw [List.cons_append, operator?_cons] at h ⊢
      grind [equalsSign_eq]

/-- Signs that an operator may go on with. -/
def laterSigns : List Char := ['=', '*', '>', '<', '/', '.']

theorem operator?_concat (h : operator? x = some x.length) (hd : d ∉ laterSigns) :
    operator? (x ++ [d]) = some x.length := by
  match x with
  | [] => exact absurd (reads_operator? h).2 (Nat.lt_irrefl 0)
  | [_] | [_, _] | _ :: _ :: _ :: _ =>
      rw [List.cons_append, operator?_cons]
      rw [operator?_cons] at h
      grind [equalsSign_eq, laterSigns, isTwin, isPair]

/-- The signs of operators that are no brackets and no separators. -/
def isLooseSign (c : Char) : Bool := augmentable.contains c || c == '!' || c == '.'

theorem isLooseSign_of_mem {x : Text} (h : operator? x = some x.length) (long : 2 ≤ x.length)
    (whole : x ≠ [':', '=']) : ∀ c ∈ x, isLooseSign c := by
  match x with
  | [] | [_] => simp at long
  | c :: d :: r =>
      have ends {r : Text} (hr : r.length = equalsSign r) : ∀ e ∈ r, isLooseSign e := by
        rw [equalsSign_eq] at hr
        split at hr
        · next equals =>
            obtain ⟨e, rfl⟩ := List.length_eq_one_iff.mp hr
            obtain rfl := Option.some.inj equals
            exact List.all_eq_true.mp rfl
        · rw [List.length_eq_zero_iff.mp hr]
          simp
      rw [operator?_cons] at h
      split at h
      · next twin =>
          have tail : ∀ e ∈ r, isLooseSign e := by
            apply ends
            have := Option.some.inj h
            simp only [List.tail_cons, List.length_cons] at this
            omega
          obtain ⟨twin, same⟩ := twin
          obtain rfl := Option.some.inj same
          simp only [isTwin, Bool.or_eq_true, beq_iff_eq] at twin
          have sign : isLooseSign d := by
            rcases twin with ((rfl | rfl) | rfl) | rfl <;> rfl
          simpa [sign] using tail
      · split at h
        · next pair =>
            obtain rfl : r = [] := by simpa using h
            simp only [isPair, List.head?_cons, Option.any_some, Bool.or_eq_true, Bool.and_eq_true,
              beq_iff_eq] at pair
            rcases pair with ((⟨rfl, rfl⟩ | ⟨rfl, rfl⟩) | ⟨rfl, rfl⟩) | ⟨rfl, rfl⟩
            · exact List.all_eq_true.mp rfl
            · exact List.all_eq_true.mp rfl
            · exact List.all_eq_true.mp rfl
            · exact absurd rfl whole
        · split at h
          · next dots =>
              obtain ⟨rfl, hd, hr⟩ := dots
              obtain rfl := Option.some.inj hd
              obtain ⟨e, rfl⟩ : ∃ e, r = [e] := List.length_eq_one_iff.mp (by simpa using h.symm)
              obtain rfl := Option.some.inj hr
              exact List.all_eq_true.mp rfl
          · split at h
            · next sign =>
                have tail : ∀ e ∈ d :: r, isLooseSign e := by
                  apply ends
                  have := Option.some.inj h
                  rw [List.length_cons] at this
                  omega
                have first : isLooseSign c := by
                  rw [isLooseSign, sign]
                  rfl
                simpa [first] using tail
            · split at h <;> simp at h

/-- Behind an equals sign an operator goes on with no other sign. -/
theorem operator?_concat_of_equals (h : operator? x = some x.length) (last : x.getLast? = some '=')
    (hd : d ≠ '=') : operator? (x ++ [d]) = some x.length := by
  match x with
  | [] => exact absurd (reads_operator? h).2 (Nat.lt_irrefl 0)
  | [_] | [_, _] | _ :: _ :: _ :: _ =>
      rw [List.cons_append, operator?_cons]
      rw [operator?_cons] at h
      grind [equalsSign_eq, isTwin, isPair]

theorem operator?_of_isOpening (hc : isOpening c) : operator? (c :: s) = some 1 := by
  simp only [isOpening, Bool.or_eq_true, beq_iff_eq] at hc
  rcases hc with (rfl | rfl) | rfl <;> rfl

theorem operator?_eq_none (hc : ¬isSymbol c) : operator? (c :: s) = none := by
  cases h : operator? (c :: s) with
  | none => rfl
  | some n =>
      obtain ⟨reads, pos⟩ := reads_operator? h
      exact absurd (reads.head pos) hc

/-- The only sign that is no operator by itself is an exclamation mark. -/
theorem eq_bang_of_operator? (h : operator? (c :: s) = none) (hc : isSymbol c) : c = '!' := by
  simp only [isSymbol, Bool.or_eq_true, beq_iff_eq] at hc
  rw [operator?_cons] at h
  rcases hc with (augmented | lone) | bang
  · rw [if_pos augmented] at h
    split at h
    · cases h
    · split at h
      · cases h
      · split at h <;> cases h
  · rw [if_pos lone] at h
    split at h
    · cases h
    · split at h
      · cases h
      · split at h
        · cases h
        · split at h <;> cases h
  · exact bang

/-- An exclamation mark is an operator together with an equals sign only. -/
theorem operator?_bang (hs : s.head? ≠ some '=') : operator? ('!' :: s) = none := by
  have pair : ¬(s.head?.any (isPair '!') = true) := by
    cases h : s.head? with
    | none => simp
    | some d =>
        rw [h] at hs
        simpa [isPair] using hs
  rw [operator?_cons, if_neg (by simp [isTwin]), if_neg pair, if_neg (by simp), if_neg (by decide),
    if_neg (by decide)]

end Operator

section Literal

variable {letters s u x b : Text} {n : Nat} {q : Delimiter}

/-- Letters that a literal may start with in front of its delimiter. -/
def areOpening : Text → Bool
  | [] => true
  | [c] => isLiteralLetter c
  | [c, d] => isLiteralPair c d
  | _ => false

theorem isWord_of_isLiteralLetter {c : Char} (h : isLiteralLetter c) : Text.isWord c := by
  simp only [isLiteralLetter, List.contains_eq_mem, List.mem_cons, List.not_mem_nil, or_false,
    decide_eq_true_eq] at h
  rcases h with rfl | rfl | rfl | rfl | rfl | rfl | rfl | rfl <;> rfl

theorem not_isQuote_of_isLiteralLetter {c : Char} (h : isLiteralLetter c) : isQuote c = false :=
  Bool.eq_false_iff.mpr (not_isQuote_of_isWord (isWord_of_isLiteralLetter h))

theorem isLiteralLetter_of_areOpening (h : areOpening letters) :
    ∀ c ∈ letters, isLiteralLetter c := by
  match letters with
  | [] => simp
  | [c] => simpa [areOpening] using h
  | [c, d] => simpa using isLiteralLetter_of_isLiteralPair h

theorem delimiter?_eq_none {c : Char} (hc : isQuote c = false) : delimiter? (c :: s) = none := by
  simp [delimiter?, hc]

theorem opening?_append (hl : areOpening letters) (hq : delimiter? u = some q) :
    opening? (letters ++ u) = some (letters.length, q) := by
  obtain ⟨d, v, rfl⟩ : ∃ d v, u = d :: v := by
    cases u with
    | nil => cases hq
    | cons d v => exact ⟨d, v, rfl⟩
  match letters with
  | [] => simp [opening?, hq]
  | [c] =>
      have none := delimiter?_eq_none (s := d :: v) (not_isQuote_of_isLiteralLetter hl)
      have letter : isLiteralLetter c := hl
      simp [opening?, none, hq, letter]
  | [c, e] =>
      have pair : isLiteralPair c e := hl
      obtain ⟨hc, he⟩ := isLiteralLetter_of_isLiteralPair pair
      have first := delimiter?_eq_none (s := e :: d :: v) (not_isQuote_of_isLiteralLetter hc)
      have second := delimiter?_eq_none (s := d :: v) (not_isQuote_of_isLiteralLetter he)
      simp [opening?, first, second, hq, pair]

theorem exists_areOpening (h : opening? s = some (n, q)) :
    ∃ letters u, s = letters ++ u ∧ letters.length = n ∧ areOpening letters ∧
      delimiter? u = some q := by
  unfold opening? at h
  split at h
  · next c rest =>
      split at h
      · next hd =>
          cases h
          exact ⟨[], c :: rest, rfl, rfl, rfl, hd⟩
      · split at h
        · next d rest _ =>
            split at h
            · next hd =>
                split at h
                · next hl =>
                    cases h
                    exact ⟨[c], d :: rest, rfl, rfl, hl, hd⟩
                · cases h
            · split at h
              · next hl =>
                  obtain ⟨q', hd, eq⟩ := Option.map_eq_some_iff.mp h
                  cases eq
                  exact ⟨[c, d], rest, rfl, rfl, hl, hd⟩
              · cases h
        · cases h
  · cases h

theorem closing?_cons {c : Char} (hc : c ≠ '\\') (s : Text) :
    q.closing? (c :: s) =
      if q.text.isPrefixOf (c :: s) then some q.text.length
      else if c = '\n' ∧ q.isTriple = false then none
      else (q.closing? s).map (· + 1) := by
  rw [Delimiter.closing?]
  · simp [hc]
  · rintro d rest rfl
    exact absurd rfl hc

theorem length_le_of_closing? (h : q.closing? s = some n) : q.text.length ≤ n := by
  obtain ⟨body, behind, -, rfl, -⟩ := Delimiter.exists_of_closing? h
  simp

/-- A backslash is no closing delimiter. -/
theorem closing?_backslash (hq : isQuote q.mark) (s : Text) : q.closing? ('\\' :: s) ≠ some 1 := by
  intro h
  cases s with
  | nil =>
      obtain ⟨body, behind, eq, -, -⟩ := Delimiter.exists_of_closing? h
      have first : q.mark ∈ body ++ q.text ++ behind := by
        unfold Delimiter.text
        split <;> simp
      rw [← eq, List.mem_singleton] at first
      rw [first] at hq
      exact absurd hq (by decide)
  | cons d s =>
      obtain ⟨m, -, sum⟩ := Option.map_eq_some_iff.mp h
      simp at sum

/-- What stands behind the closing delimiter is not needed to find it. -/
theorem closing?_append (hq : isQuote q.mark) (h : q.closing? (x ++ s) = some x.length)
    (s' : Text) : q.closing? (x ++ s') = some x.length := by
  have pos : 0 < q.text.length := List.length_pos_iff.mpr q.text_ne_nil
  induction hn : x.length using Nat.strongRecOn generalizing x with
  | ind n ih =>
      subst hn
      cases x with
      | nil => exact absurd (length_le_of_closing? h) (Nat.not_le_of_gt pos)
      | cons c x =>
          by_cases hc : c = '\\'
          · subst hc
            cases x with
            | nil => exact absurd h (closing?_backslash hq s)
            | cons d x =>
                obtain ⟨m, hm, sum⟩ := Option.map_eq_some_iff.mp h
                obtain rfl : m = x.length := by simpa using sum
                have := ih x.length (Nat.lt_succ_of_lt (Nat.lt_succ_self _)) hm rfl
                simp [Delimiter.closing?, this]
          · rw [List.cons_append, closing?_cons hc] at h ⊢
            split at h
            · next prefixed =>
                have length := Option.some.inj h
                rw [List.isPrefixOf_iff_prefix, ← List.cons_append] at prefixed
                have whole : q.text <+: c :: x :=
                  List.prefix_of_prefix_length_le prefixed (List.prefix_append _ _) (by omega)
                rw [if_pos, length]
                rw [List.isPrefixOf_iff_prefix, ← List.cons_append]
                exact whole.trans (List.prefix_append _ _)
            · next other =>
                split at h
                · cases h
                · next inside =>
                    obtain ⟨m, hm, sum⟩ := Option.map_eq_some_iff.mp h
                    obtain rfl : m = x.length := by simpa using sum
                    have short := length_le_of_closing? hm
                    rw [if_neg, if_neg inside, ih x.length (Nat.lt_succ_self _) hm rfl]
                    · rfl
                    · rw [List.isPrefixOf_iff_prefix, ← List.cons_append] at other ⊢
                      intro prefixed
                      apply other
                      have whole : q.text <+: c :: x :=
                        List.prefix_of_prefix_length_le prefixed (List.prefix_append _ _)
                          (by rw [List.length_cons]; omega)
                      exact whole.trans (List.prefix_append _ _)

theorem literal?_eq_some {r : LiteralStart} (ho : opening? s = some (n, q))
    (h : literal? s = some r) :
    (∃ m, q.closing? (s.drop (n + q.text.length)) = some m ∧ r = .closed (n + q.text.length + m)) ∨
      q.closing? (s.drop (n + q.text.length)) = none ∧ r = .runsOn q := by
  simp only [literal?, ho, Option.bind_eq_bind, Option.bind_some] at h
  split at h
  · next m hm => exact .inl ⟨m, hm, (Option.some.inj h).symm⟩
  · next hm =>
      split at h
      · exact .inr ⟨hm, (Option.some.inj h).symm⟩
      · cases h

theorem literal?_of_closing? {m : Nat} (ho : opening? s = some (n, q))
    (h : q.closing? (s.drop (n + q.text.length)) = some m) :
    literal? s = some (.closed (n + q.text.length + m)) := by
  simp [literal?, ho, h]

theorem exists_opening? {r : LiteralStart} (h : literal? s = some r) :
    ∃ n q, opening? s = some (n, q) := by
  simp only [literal?, Option.bind_eq_bind, Option.bind_eq_some_iff] at h
  obtain ⟨⟨n, q⟩, ho, -⟩ := h
  exact ⟨n, q, ho⟩

/-- A delimiter is found again in front of another text that does not make it a triple one. -/
theorem delimiter?_append {s' : Text} (h : delimiter? (q.text ++ x ++ s) = some q) (ne : x ≠ [])
    (hs : ∀ d ∈ s'.head?, isQuote d → s.head? = some d) :
    delimiter? (q.text ++ x ++ s') = some q := by
  obtain ⟨mark, triple⟩ := q
  cases triple with
  | true =>
      have quote : isQuote mark := (exists_of_delimiter? h).choose_spec.2
      simp [Delimiter.text, delimiter?, quote]
  | false =>
      simp only [Delimiter.text, Bool.false_eq_true, if_false, List.cons_append, List.nil_append,
        delimiter?, Option.ite_none_right_eq_some, Option.some.injEq, Delimiter.mk.injEq,
        true_and] at h ⊢
      obtain ⟨quote, lone⟩ := h
      refine ⟨quote, ?_⟩
      obtain ⟨c, x, rfl⟩ := List.exists_cons_of_ne_nil ne
      rw [Bool.eq_false_iff] at lone ⊢
      intro prefixed
      apply lone
      cases x with
      | cons d x => simpa using prefixed
      | nil =>
          cases s' with
          | nil => simp at prefixed
          | cons e s' =>
              obtain ⟨rfl, rfl⟩ : mark = c ∧ mark = e := by simpa using prefixed
              cases s with
              | nil => simpa using hs mark rfl quote
              | cons f s =>
                  obtain rfl : f = mark := by simpa using hs mark rfl quote
                  simp

/-- What stands behind a literal is not needed to read it, but for a quote mark. -/
theorem literal?_append {b' : Text} (h : literal? (x ++ b) = some (.closed x.length))
    (hb : ∀ d ∈ b'.head?, isQuote d → b.head? = some d) :
    literal? (x ++ b') = some (.closed x.length) := by
  obtain ⟨n, q, ho⟩ := exists_opening? h
  obtain ⟨letters, u, hu, rfl, opens, hq⟩ := exists_areOpening ho
  obtain ⟨rest, rfl, quote⟩ := exists_of_delimiter? hq
  obtain ⟨m, hm, length⟩ | ⟨-, other⟩ := literal?_eq_some ho h
  · have length : x.length = letters.length + q.text.length + m := by simpa using length
    obtain ⟨x, rfl⟩ : letters ++ q.text <+: x := by
      have whole : letters ++ q.text <+: x ++ b := by
        rw [hu, ← List.append_assoc]
        exact List.prefix_append _ _
      apply List.prefix_of_prefix_length_le whole (List.prefix_append _ _)
      rw [List.length_append]
      omega
    obtain rfl : x ++ b = rest := by simpa using hu
    obtain rfl : x.length = m := by simpa [Nat.add_assoc] using length
    rw [← List.length_append, List.append_assoc, List.drop_left] at hm
    have closed := closing?_append quote hm b'
    have ne : x ≠ [] := by
      rintro rfl
      have := length_le_of_closing? hm
      exact absurd (List.length_pos_iff.mpr q.text_ne_nil) (by simpa using this)
    have found := delimiter?_append (by rwa [List.append_assoc]) ne hb
    rw [List.append_assoc] at found
    have opened := opening?_append opens found
    rw [List.append_assoc, List.append_assoc, literal?_of_closing? opened (m := x.length)]
    · simp [Nat.add_assoc]
    · rw [← List.length_append, ← List.append_assoc, List.drop_left]
      exact closed
  · cases other

/-- A word in front of a quote mark is no part of a literal, if it is none in front of a literal. -/
theorem literal?_eq_none {b' : Text} (ne : x ≠ []) (hx : ∀ c ∈ x, Text.isWord c)
    (h : literal? (x ++ b) = none) (stop : ∀ d ∈ b'.head?, ¬Text.isWord d)
    (hb : ∀ d ∈ b'.head?, isQuote d → b.head? = some d ∧ ∃ m, literal? b = some (.closed m)) :
    literal? (x ++ b') = none := by
  cases found : literal? (x ++ b') with
  | none => rfl
  | some r =>
      obtain ⟨n, q, ho⟩ := exists_opening? found
      obtain ⟨letters, u, hu, rfl, opens, hq⟩ := exists_areOpening ho
      obtain ⟨rest, rfl, quote⟩ := exists_of_delimiter? hq
      obtain ⟨more, text⟩ := q.exists_cons
      -- the quote mark is the first character that belongs to no word
      obtain ⟨rfl, rfl⟩ : letters = x ∧ b' = q.text ++ rest := by
        rcases List.append_eq_append_iff.mp hu with ⟨z, rfl, hz⟩ | ⟨z, rfl, hz⟩
        · cases z with
          | nil => exact ⟨by simp, hz⟩
          | cons d z =>
              have letter := isLiteralLetter_of_areOpening opens d (by simp)
              exact absurd (isWord_of_isLiteralLetter letter) (stop d (by simp [hz]))
        · cases z with
          | nil => exact ⟨by simp, hz.symm⟩
          | cons d z =>
              obtain rfl : q.mark = d := by
                rw [text] at hz
                exact (List.cons.inj hz).1
              exact absurd quote (not_isQuote_of_isWord (hx q.mark (by simp)))
      obtain ⟨first, m, closed⟩ := hb q.mark (by simp [text]) quote
      obtain ⟨k, q', ho'⟩ := exists_opening? closed
      obtain ⟨none, v, rfl, rfl, opens', hq'⟩ := exists_areOpening ho'
      obtain rfl : none = [] := by
        cases none with
        | nil => rfl
        | cons d none =>
            obtain rfl := Option.some.inj first
            have letter := isLiteralLetter_of_areOpening opens' q.mark (by simp)
            rw [not_isQuote_of_isLiteralLetter letter] at quote
            cases quote
      obtain ⟨j, hj, -⟩ | ⟨-, other⟩ := literal?_eq_some ho' closed
      · rw [List.nil_append] at h hj
        rw [literal?_of_closing? (opening?_append opens hq') (m := j)] at h
        · cases h
        · rw [← List.drop_drop, List.drop_left]
          simpa using hj
      · cases other

/-- A character that is neither a quote mark nor part of a word starts no literal. -/
theorem literal?_cons_eq_none {c : Char} (hq : isQuote c = false) (hc : ¬Text.isWord c) (s : Text) :
    literal? (c :: s) = none := by
  cases found : literal? (c :: s) with
  | none => rfl
  | some r =>
      obtain ⟨n, q, ho⟩ := exists_opening? found
      obtain ⟨letters, u, hu, rfl, opens, hd⟩ := exists_areOpening ho
      cases letters with
      | nil =>
          rw [List.nil_append] at hu
          rw [← hu, delimiter?_eq_none hq] at hd
          cases hd
      | cons d letters =>
          obtain rfl := (List.cons.inj hu).1
          have letter := isLiteralLetter_of_areOpening opens c (by simp)
          exact absurd (isWord_of_isLiteralLetter letter) hc

end Literal

end StyleGuide.Lexeme
