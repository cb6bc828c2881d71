import Mathlib.Tactic.Tauto
import StyleGuide.Proofs.Lexeme.Sign
import StyleGuide.Proofs.TokenStream.Place

/-! # Skimming a row

What a row leaves open for the next one can be told without its words, numbers and operators: by
its brackets, quote marks and comments and by the backslash that joins it. Skimming goes through a
row character by character and finds what scanning finds.
-/

namespace StyleGuide

open Lexeme

/-- A backslash that joins no row. -/
def Token.isLoneBackslash (t : Token) : Bool := t.kind == .stray && t.text == ['\\']

/-- How a row ends, as far as the next row has to know. -/
inductive Ending where
  | plain
  | joined
  | inLiteral (delimiter : Delimiter)
  deriving Repr, DecidableEq

/-- What is open behind a row. -/
structure Pause where
  depth : Nat
  ending : Ending
  deriving Repr, DecidableEq

namespace Pause

/-- Nothing is open: the next row begins a statement or stands between two. -/
def idle : Pause := ⟨0, .plain⟩

end Pause

/-- The ending, without what has been read of a literal. -/
def RowEnd.ending : RowEnd → Ending
  | .plain => .plain
  | .joined => .joined
  | .inLiteral l => .inLiteral l.delimiter

/-- What is open behind a scanned row. -/
def RowTokens.pause (r : RowTokens) : Pause := ⟨r.depth, r.rowEnd.ending⟩

/-- What the rest of a row leaves open; `none` where a bracket closes that was never opened, where a
    literal on one row does not end and where a backslash joins no row. -/
def skim (depth : Nat) (s : Text) : Option Pause :=
  match s with
  | [] => some ⟨depth, .plain⟩
  | c :: rest =>
    match delimiter? (c :: rest) with
    | some q =>
      let inner := rest.drop (q.text.length - 1)
      match q.closing? inner with
      | some n => skim depth (inner.drop n)
      | none => if q.isTriple || runsOn q.mark inner then some ⟨depth, .inLiteral q⟩ else none
    | none =>
      if c = '#' then skim depth (rest.dropWhile fun d => d != '\r' && d != '\n')
      else if (terminator? (c :: rest)).isSome then some ⟨depth, .plain⟩
      else if c = '\\' then
        if (terminator? rest).isSome then some ⟨depth, .joined⟩ else none
      else (depthAfter? [c] depth).bind fun depth => skim depth rest
termination_by s.length
decreasing_by
  · simp only [List.length_drop, List.length_cons]
    omega
  · have := (List.dropWhile_suffix (l := rest) fun d => d != '\r' && d != '\n').length_le
    simp only [List.length_cons]
    omega
  · simp

/-- A character that opens or closes something or ends a row. -/
def isFraming (c : Char) : Bool :=
  isQuote c || c == '#' || c == '\\' || c == '\r' || c == '\n'

/-- A token whose characters have no part in how its row is read: it is a string literal, or there is
    no quote mark, hash, backslash, line end or white space in it. -/
def Token.isSober (t : Token) : Bool :=
  t.kind == .string || t.text.all fun c => !isFraming c && !Text.isBlank c

/-- A bracket. -/
def isBracket (c : Char) : Bool := isOpening c || isClosing c

/-- What none of these characters is, is neither framing nor a bracket. -/
theorem not_isFraming_of_all {p : Char → Bool} {c : Char}
    (none : ['\'', '"', '#', '\\', '\r', '\n', '(', '[', '\x7b', ')', ']', '\x7d'].all fun d => !p d)
    (h : p c) : ¬isFraming c ∧ ¬isBracket c := by
  rw [← not_or]
  intro other
  have mem : c ∈ ['\'', '"', '#', '\\', '\r', '\n', '(', '[', '\x7b', ')', ']', '\x7d'] := by
    simp only [isFraming, isBracket, isQuote, isOpening, isClosing, Bool.or_eq_true,
      beq_iff_eq] at other
    simp only [List.mem_cons, List.not_mem_nil, or_false]
    tauto
  have := List.all_eq_true.mp none c mem
  simp [h] at this

section Single

variable {c : Char} {s x : Text} {d : Nat}

theorem depthAfter?_of_not_isBracket (h : ¬isBracket c) (d : Nat) :
    depthAfter? [c] d = some d := by
  simp only [isBracket, isOpening, isClosing, Bool.or_eq_true, beq_iff_eq, not_or] at h
  simp [depthAfter?, h]

/-- Outside of literals and comments a character counts as a bracket or not at all. -/
theorem skim_cons (h : ¬isFraming c) (d : Nat) (s : Text) :
    skim d (c :: s) = (depthAfter? [c] d).bind fun d => skim d s := by
  simp only [isFraming, Bool.or_eq_true, beq_iff_eq, not_or, Bool.not_eq_true] at h
  obtain ⟨⟨⟨⟨quote, hash⟩, backslash⟩, return_⟩, newline⟩ := h
  have inner : terminator? (c :: s) = none := by
    unfold terminator?
    split <;> simp_all
  rw [skim, delimiter?_eq_none quote]
  simp [hash, backslash, inner]

theorem skim_append (h : ∀ c ∈ x, ¬isFraming c ∧ ¬isBracket c) (d : Nat) (s : Text) :
    skim d (x ++ s) = skim d s := by
  induction x with
  | nil => rfl
  | cons c x ih =>
      obtain ⟨plain, other⟩ := h c (List.mem_cons_self ..)
      rw [List.cons_append, skim_cons plain, depthAfter?_of_not_isBracket other, Option.bind_some,
        ih fun e he => h e (List.mem_cons_of_mem _ he)]

theorem skim_gap (h : ∀ c ∈ x, isGap c) (d : Nat) (s : Text) : skim d (x ++ s) = skim d s := by
  exact skim_append (fun c hc => not_isFraming_of_all (by decide) (h c hc)) d s

theorem skim_comment (d : Nat) (s : Text) :
    skim d ('#' :: s) = skim d (s.dropWhile fun e => e != '\r' && e != '\n') := by
  rw [skim, delimiter?_eq_none (by decide)]
  simp

theorem skim_terminator (h : (terminator? s).isSome) (d : Nat) : skim d s = some ⟨d, .plain⟩ := by
  cases s with
  | nil => cases h
  | cons c s =>
      have quote : isQuote c = false := by
        by_contra quote
        simp only [Bool.not_eq_false, isQuote, Bool.or_eq_true, beq_iff_eq] at quote
        obtain rfl | rfl := quote <;> cases h
      have hash : c ≠ '#' := by
        rintro rfl
        cases h
      rw [skim, delimiter?_eq_none quote]
      dsimp only
      rw [if_neg hash, if_pos h]

theorem skim_joint (h : (terminator? s).isSome) (d : Nat) :
    skim d ('\\' :: s) = some ⟨d, .joined⟩ := by
  have other : terminator? ('\\' :: s) = none := rfl
  rw [skim, delimiter?_eq_none (by decide), other]
  simp [h]

/-- A backslash that joins no row is not skimmed over. -/
theorem skim_backslash (h : terminator? s = none) (d : Nat) : skim d ('\\' :: s) = none := by
  have other : terminator? ('\\' :: s) = none := rfl
  rw [skim, delimiter?_eq_none (by decide), other, h]
  rfl

theorem skim_return (h : terminator? ('\r' :: s) = none) (d : Nat) :
    skim d ('\r' :: s) = skim d s := by
  rw [skim, delimiter?_eq_none (by decide), h]
  simp [depthAfter?_of_not_isBracket (c := '\r') (by decide)]

/-- What a quote mark opens ends on the row, goes on with the next one or is an error. -/
theorem skim_quote {q : Delimiter} (h : delimiter? (q.text ++ s) = some q) (d : Nat) :
    skim d (q.text ++ s) =
      match q.closing? s with
      | some n => skim d (s.drop n)
      | none => if q.isTriple || runsOn q.mark s then some ⟨d, .inLiteral q⟩ else none := by
  obtain ⟨more, text⟩ := q.exists_cons
  have drop : (more ++ s).drop (q.text.length - 1) = s := by
    rw [text]
    exact List.drop_left
  rw [text, List.cons_append] at h ⊢
  rw [skim, h]
  dsimp only
  rw [drop]

end Single

section Literal

variable {s : Text} {d n : Nat} {q : Delimiter}

/-- The letters in front of a delimiter are skimmed over. -/
theorem skim_letters {letters : Text} (h : areOpening letters) (d : Nat) (s : Text) :
    skim d (letters ++ s) = skim d s := by
  have letter := isLiteralLetter_of_areOpening h
  exact skim_append (fun c hc => not_isFraming_of_all (by decide) (letter c hc)) d s

theorem skim_of_opening? (h : opening? s = some (n, q)) (d : Nat) :
    skim d s =
      match q.closing? (s.drop (n + q.text.length)) with
      | some m => skim d (s.drop (n + q.text.length + m))
      | none =>
        if q.isTriple || runsOn q.mark (s.drop (n + q.text.length)) then some ⟨d, .inLiteral q⟩
        else none := by
  obtain ⟨letters, u, rfl, rfl, opens, hq⟩ := exists_areOpening h
  obtain ⟨rest, rfl, -⟩ := exists_of_delimiter? hq
  have behind : (letters ++ (q.text ++ rest)).drop (letters.length + q.text.length) = rest := by
    rw [← List.append_assoc, ← List.length_append, List.drop_left]
  rw [skim_letters opens, skim_quote hq, behind]
  cases q.closing? rest with
  | none => rfl
  | some m =>
      dsimp only
      rw [← List.drop_drop, behind]

theorem skim_of_literal? (h : literal? s = some (.closed n)) (d : Nat) :
    skim d s = skim d (s.drop n) := by
  obtain ⟨k, q, opened⟩ := exists_opening? h
  rw [skim_of_opening? opened]
  obtain ⟨m, hm, eq⟩ | ⟨-, eq⟩ := literal?_eq_some opened h
  · obtain rfl : n = k + q.text.length + m := LiteralStart.closed.inj eq
    rw [hm]
  · cases eq

theorem skim_of_runsOn (h : literal? s = some (.runsOn q)) (d : Nat) :
    skim d s = some ⟨d, .inLiteral q⟩ := by
  simp only [literal?, Option.bind_eq_bind, Option.bind_eq_some_iff] at h
  obtain ⟨⟨k, q'⟩, opened, h⟩ := h
  rw [skim_of_opening? opened]
  dsimp only at h
  cases closes : q'.closing? (s.drop (k + q'.text.length)) with
  | some n =>
      rw [closes] at h
      cases h
  | none =>
      rw [closes] at h
      dsimp only at h ⊢
      split at h
      · next goes =>
          obtain rfl := LiteralStart.runsOn.inj (Option.some.inj h)
          exact if_pos goes
      · cases h

/-- A quote mark that starts no literal is not skimmed over. -/
theorem skim_of_literal?_eq_none {c : Char} {rest : Text} (hc : isQuote c)
    (h : literal? (c :: rest) = none) (d : Nat) : skim d (c :: rest) = none := by
  have opened : opening? (c :: rest) = some (0, ⟨c, [c, c].isPrefixOf rest⟩) := by
    simp [opening?, delimiter?, hc]
  rw [skim_of_opening? opened]
  simp only [literal?, opened, Option.bind_eq_bind, Option.bind_some] at h
  set q : Delimiter := ⟨c, [c, c].isPrefixOf rest⟩
  cases closes : q.closing? ((c :: rest).drop (0 + q.text.length)) with
  | some n =>
      rw [closes] at h
      cases h
  | none =>
      rw [closes] at h
      dsimp only at h ⊢
      split at h
      · cases h
      · next stops => exact if_neg stops

end Literal

section Scan

variable {gap text behind rest line : Text} {items : List RowItem} {k : Lexeme}
  {depth row column d : Nat} {r : RowTokens} {p : Pause}

theorem skim_operator (h : operator? (text ++ behind) = some text.length) (d : Nat) :
    skim d (text ++ behind) = (depthAfter? text d).bind fun d => skim d behind := by
  obtain ⟨reads, pos⟩ := reads_operator? h
  match text with
  | [] => exact absurd pos (Nat.lt_irrefl 0)
  | [c] =>
      have symbol : isSymbol c := reads.head pos
      refine skim_cons (fun framing => ?_) d behind
      simp only [isFraming, isQuote, Bool.or_eq_true, beq_iff_eq] at framing
      obtain ((((rfl | rfl) | rfl) | rfl) | rfl) | rfl := framing <;>
        exact absurd symbol (by decide)
  | c :: e :: x =>
      have long : depthAfter? (c :: e :: x) d = some d := by simp [depthAfter?]
      rw [long, Option.bind_some]
      by_cases walrus : c :: e :: x = [':', '=']
      · rw [walrus]
        exact skim_append (by simp [isFraming, isBracket, isQuote, isOpening, isClosing]) d behind
      · have sign := isLooseSign_of_mem (operator?_of_append h) (by simp) walrus
        exact skim_append (fun c hc => not_isFraming_of_all (by decide) (sign c hc)) d behind

/-- What a character that starts nothing is not. -/
theorem stray_of_next {c : Char} {n : Nat} {s : Text} (h : next (c :: s) = (.stray, n)) :
    c ≠ '#' ∧ terminator? (c :: s) = none ∧ (c = '\\' → terminator? s = none) ∧
      operator? (c :: s) = none ∧ literal? (c :: s) = none := by
  simp only [next] at h
  split at h
  · cases h
  · next hash =>
      split at h
      · cases h
      · next inner =>
          split at h
          · cases h
          · next joins =>
              split at h
              · cases h
              · split at h
                · cases h
                · next sign =>
                    split at h
                    · cases h
                    · cases h
                    · next opens =>
                        refine ⟨by simpa using hash, Option.eq_none_iff_forall_ne_some.mpr inner,
                          fun backslash => ?_, Option.eq_none_iff_forall_ne_some.mpr sign, opens⟩
                        subst backslash
                        exact Option.eq_none_iff_forall_ne_some.mpr joins

theorem operator?_of_isBracket {c : Char} {s : Text} (h : isBracket c) :
    operator? (c :: s) = some 1 := by
  simp only [isBracket, isOpening, isClosing, Bool.or_eq_true, beq_iff_eq] at h
  obtain ((rfl | rfl) | rfl) | (rfl | rfl) | rfl := h <;> rfl

/-- Of the lexemes that end no row only a stray backslash is not skimmed over. -/
theorem skim_takes (taken : k.Takes text behind) (he : k.endsRow = false) (gap : Text) (d : Nat) :
    skim d (text ++ behind) =
      if k = .stray ∧ text = ['\\'] then none
      else (RowItem.depthAfter ⟨gap, k, text⟩ d).toOption.bind fun d => skim d behind := by
  obtain ⟨c, more, n, rfl, read, starts⟩ := taken.starts
  have length : n = (c :: more).length := by
    have := congrArg List.length read
    rwa [List.length_take, List.cons_append, Nat.min_eq_left starts.length_pos_le.2] at this
  cases starts with
  | terminator | joint | openLiteral => cases he
  | comment hc =>
      subst hc
      rw [← List.cons_append, length_takeWhile_append_iff] at length
      obtain ⟨inside, stop⟩ := length
      have tail : (more ++ behind).dropWhile (fun e => e != '\r' && e != '\n') = behind := by
        rw [List.dropWhile_append_of_pos fun e he => inside e (List.mem_cons_of_mem _ he)]
        cases behind with
        | nil => rfl
        | cons e behind => exact List.dropWhile_cons_of_neg (stop e rfl)
      rw [List.cons_append, skim_comment, tail, if_neg (by simp)]
      rfl
  | number hn =>
      obtain ⟨⟨-, all⟩, -⟩ := reads_number? hn
      rw [← List.cons_append, read] at all
      rw [skim_append fun e he => not_isFraming_of_all (by decide) (all e he), if_neg (by simp)]
      rfl
  | operator hn =>
      rw [← List.cons_append, length] at hn
      rw [skim_operator hn, if_neg (by simp), RowItem.depthAfter]
      dsimp only
      cases depthAfter? (c :: more) d <;> rfl
  | literal hn =>
      rw [← List.cons_append] at hn
      rw [skim_of_literal? hn, length, List.drop_left, if_neg (by simp)]
      rfl
  | word hc =>
      rw [← List.cons_append, length_takeWhile_append_iff] at length
      rw [skim_append fun e he => not_isFraming_of_all (by decide) (length.1 e he),
        if_neg (by simp)]
      rfl
  | stray hc =>
      obtain rfl : more = [] := by simpa using length.symm
      have taken' : next (c :: behind) = (.stray, 1) := taken.next_eq
      obtain ⟨hash, inner, joins, sign, opens⟩ := stray_of_next taken'
      by_cases backslash : c = '\\'
      · subst backslash
        rw [if_pos ⟨rfl, rfl⟩]
        exact skim_backslash (joins rfl) d
      · rw [if_neg (by simpa using backslash)]
        by_cases quote : isQuote c
        · have failed : RowItem.depthAfter ⟨gap, .stray, [c]⟩ d = .error .unterminatedString := by
            simp [RowItem.depthAfter, quote]
          rw [failed]
          exact skim_of_literal?_eq_none quote opens d
        · have kept : RowItem.depthAfter ⟨gap, .stray, [c]⟩ d = .ok d := by
            simp [RowItem.depthAfter, quote]
          rw [kept]
          by_cases return_ : c = '\r'
          · subst return_
            exact skim_return inner d
          · have newline : c ≠ '\n' := by
              rintro rfl
              cases inner
            have plain : ¬isFraming c := by
              simp [isFraming, quote, hash, backslash, return_, newline]
            have other : ¬isBracket c := fun bracket => by
              have := operator?_of_isBracket (s := behind) bracket
              rw [this] at sign
              cases sign
            rw [List.singleton_append, skim_cons plain, depthAfter?_of_not_isBracket other]
            rfl

/-- What a lexeme that ends the row leaves open. -/
theorem skim_ends (taken : k.Takes text behind) (he : k.endsRow) (d : Nat) :
    (k = .joint ∧ skim d (text ++ behind) = some ⟨d, .joined⟩) ∨
      (k = .terminator ∧ skim d (text ++ behind) = some ⟨d, .plain⟩) ∨
      ∃ q, k = .openLiteral q ∧ skim d (text ++ behind) = some ⟨d, .inLiteral q⟩ := by
  obtain ⟨c, more, n, rfl, -, starts⟩ := taken.starts
  cases starts with
  | comment | number | operator | literal | word | stray => cases he
  | joint hc hn =>
      subst hc
      exact .inl ⟨rfl, skim_joint (Option.isSome_of_eq_some hn) d⟩
  | terminator hn => exact .inr (.inl ⟨rfl, skim_terminator (Option.isSome_of_eq_some hn) d⟩)
  | openLiteral hq => exact .inr (.inr ⟨_, rfl, skim_of_runsOn hq d⟩)

/-- What scanning leaves open is found by skimming, where each backslash joins a row. -/
theorem skim_of_tokens (hi : Itemized rest items)
    (h : RowItem.tokens row line depth column items = .ok r)
    (joins : ∀ t ∈ r.tokens, ¬t.isLoneBackslash) : skim depth rest = some r.pause := by
  induction hi generalizing depth column r with
  | nil hg =>
      obtain rfl := Except.ok.inj h
      have := skim_gap hg depth []
      rw [List.append_nil] at this
      rw [this, skim]
      rfl
  | last hg taken he =>
      rw [List.append_assoc, skim_gap hg]
      obtain ⟨hk, eq⟩ | ⟨hk, eq⟩ | ⟨q, hk, eq⟩ := skim_ends taken he depth <;>
        (subst hk; rw [eq])
      all_goals
        obtain rfl := Except.ok.inj h
        rfl
  | @cons gap text behind k items hg taken he _ ih =>
      rw [List.append_assoc, skim_gap hg]
      cases RowItem.leads_of_tokens h with
      | joint hk | openLiteral hk | terminator hk =>
          obtain rfl : k = _ := hk
          cases he
      | token _ ok rest =>
          have other : ¬(k = .stray ∧ text = ['\\']) := fun ⟨hk, ht⟩ =>
            joins _ (List.mem_cons_self ..) (by subst hk ht; rfl)
          rw [skim_takes taken he gap, if_neg other, ok]
          have behind := ih rest fun t ht => joins t (List.mem_cons_of_mem _ ht)
          exact behind

/-- A token is a lone backslash only if its lexeme is. -/
theorem eq_of_isLoneBackslash {item : RowItem} (he : item.lexeme.endsRow = false)
    (h : (item.token row line column).isLoneBackslash) :
    item.lexeme = .stray ∧ item.text = ['\\'] := by
  simp only [Token.isLoneBackslash, RowItem.token, Bool.and_eq_true, beq_iff_eq] at h
  obtain ⟨kind, text⟩ := h
  refine ⟨?_, text⟩
  simp only [RowItem.kind] at kind
  cases hk : item.lexeme with
  | stray => rfl
  | joint | terminator | openLiteral =>
      rw [hk] at he
      cases he
  | word =>
      rw [hk] at kind
      dsimp only at kind
      split at kind <;> cases kind
  | comment | number | operator | literal =>
      rw [hk] at kind
      cases kind

/-- What can be skimmed can be scanned. -/
theorem exists_tokens_of_skim (hi : Itemized rest items) (h : skim depth rest = some p) :
    ∃ r, RowItem.tokens row line depth column items = .ok r ∧ r.pause = p ∧
      ∀ t ∈ r.tokens, ¬t.isLoneBackslash := by
  induction hi generalizing depth column with
  | nil hg =>
      have := skim_gap hg depth []
      rw [List.append_nil] at this
      rw [this, skim] at h
      exact ⟨_, rfl, Option.some.inj h, nofun⟩
  | last hg taken he =>
      rw [List.append_assoc, skim_gap hg] at h
      obtain ⟨hk, eq⟩ | ⟨hk, eq⟩ | ⟨q, hk, eq⟩ := skim_ends taken he depth
      all_goals
        subst hk
        rw [eq] at h
        refine ⟨_, rfl, Option.some.inj h, ?_⟩
      · nofun
      · intro t ht
        rw [List.mem_singleton.mp ht]
        by_cases closed : depth = 0 <;> simp [Token.isLoneBackslash, closed]
      · nofun
  | @cons gap text behind k items hg taken he _ ih =>
      rw [List.append_assoc, skim_gap hg, skim_takes taken he gap] at h
      split at h
      · cases h
      · next other =>
          cases ok : RowItem.depthAfter ⟨gap, k, text⟩ depth with
          | error cause =>
              rw [ok] at h
              cases h
          | ok d =>
              rw [ok] at h
              obtain ⟨r, scan, pause, joins⟩ := ih h
              refine ⟨r.after (RowItem.token ⟨gap, k, text⟩ row line column), ?_, pause, ?_⟩
              · rw [RowItem.tokens_cons he ok, scan]
                rfl
              · exact List.forall_mem_cons.mpr
                  ⟨fun lone => other (eq_of_isLoneBackslash he lone), joins⟩

end Scan

/-- Scanning the rest of a row leaves open what skimming finds. -/
theorem exists_scanRow_of_skim {depth : Nat} {rest : Text} {p : Pause}
    (h : skim depth rest = some p) (row : Nat) (line : Text) (column : Nat) :
    ∃ r, scanRow row line depth column rest = .ok r ∧ r.pause = p ∧
      ∀ t ∈ r.tokens, ¬t.isLoneBackslash :=
  exists_tokens_of_skim (itemized_list rest) h

theorem skim_of_scanRow {row depth column : Nat} {line rest : Text} {r : RowTokens}
    (h : scanRow row line depth column rest = .ok r)
    (joins : ∀ t ∈ r.tokens, ¬t.isLoneBackslash) : skim depth rest = some r.pause :=
  skim_of_tokens (itemized_list rest) h joins

/-- A quote mark opens what is left open. -/
theorem isQuote_of_skim {d : Nat} {s : Text} {p : Pause} {q : Delimiter} (h : skim d s = some p)
    (open_ : p.ending = .inLiteral q) : isQuote q.mark := by
  fun_induction skim d s with
  | case1 | case6 | case7 =>
      obtain rfl := Option.some.inj h
      cases open_
  | case2 _ _ _ _ _ _ _ _ ih | case5 _ _ _ ih => exact ih h
  | case3 _ _ _ _ opens =>
      obtain rfl := Option.some.inj h
      obtain rfl := Ending.inLiteral.inj open_
      obtain ⟨_, -, quote⟩ := exists_of_delimiter? opens
      exact quote
  | case4 | case8 => cases h
  | case9 _ _ _ _ _ _ _ ih =>
      obtain ⟨depth, -, h⟩ := Option.bind_eq_some_iff.mp h
      exact ih depth h

end StyleGuide
