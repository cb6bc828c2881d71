import StyleGuide.Proofs.Rule.Calls
import StyleGuide.Proofs.Rule.Seams
import StyleGuide.Proofs.TokenStream.Cover

/-! # Calls for backticks

A pair of backticks becomes a call. The two backticks are lexemes of their own, and so are the name
and the brackets of the call that takes their place; only a word that ends directly at an opening
backtick takes the name in.
-/

namespace StyleGuide

open Lexeme

namespace Lexeme

variable {c : Char} {s x w text behind : Text} {k : Lexeme}

/-- A number begins with a digit or with a point. -/
theorem number?_eq_none (digit : ¬c.isDigit) (point : c ≠ '.') (s : Text) :
    number? (c :: s) = none := by
  have zero : c ≠ '0' := by
    rintro rfl
    exact digit rfl
  have digits : digits? (c :: s) = none := if_neg digit
  have lone : letter? ['.'] (c :: s) = none := by simp [letter?, optionalLetter, point]
  have float : float? (c :: s) = none := by
    simp [float?, pointFloat?_eq, andPerhaps, mantissa?, andThen, digits, lone]
  have integer : integer? (c :: s) = none := by
    rw [integer?_eq, andPerhaps, magnitude?_cons zero, digits]
    rfl
  simp [number?, digits, float, integer]

theorem not_isDigit_of_number? (missing : number? (c :: s) = none) : ¬c.isDigit := by
  intro digit
  have integer : (integer? (c :: s)).isSome := by
    rw [integer?_eq, andPerhaps, Option.isSome_map]
    by_cases zero : c = '0'
    · subst zero
      rfl
    · rw [magnitude?_cons zero, digits?, if_pos digit]
      rfl
  have last {a b : Option Nat} (h : (a <|> b) = none) : b = none := by
    cases a with
    | none => exact h
    | some n => cases h
  rw [number?_eq] at missing
  rw [last (last (last missing))] at integer
  cases integer

/-- A literal begins with two letters at most in front of its delimiter. -/
theorem literal?_eq_none_of_length (long : 2 < x.length) (free : ∀ c ∈ x, ¬isQuote c) (b : Text) :
    literal? (x ++ b) = none := by
  cases found : literal? (x ++ b) with
  | none => rfl
  | some r =>
      obtain ⟨n, q, ho⟩ := exists_opening? found
      obtain ⟨letters, u, hu, -, opens, hq⟩ := exists_areOpening ho
      obtain ⟨rest, rfl, quote⟩ := exists_of_delimiter? hq
      -- the delimiter begins inside the text, which holds no quote mark
      have short : letters.length ≤ 2 := by
        match letters, opens with
        | [], _ | [_], _ | [_, _], _ => simp
      have here : (x ++ b)[letters.length]? = some q.mark := by
        rw [hu, List.getElem?_append_right (Nat.le_refl _), Nat.sub_self]
        unfold Delimiter.text
        split <;> rfl
      rw [List.getElem?_append_left (by omega)] at here
      exact absurd quote (free q.mark (List.mem_of_getElem? here))

end Lexeme

/-- A bracket that opens or closes does so inside other brackets as well. -/
theorem depthAfter?_add {operator : Text} {depth d : Nat} (h : depthAfter? operator depth = some d)
    (n : Nat) : depthAfter? operator (depth + n) = some (d + n) := by
  unfold depthAfter? at h ⊢
  split at h
  · next opens =>
      obtain rfl := Option.some.inj h
      rw [if_pos opens, Nat.add_right_comm]
  · next opens =>
      rw [if_neg opens]
      split at h
      · next closes =>
          rw [if_pos closes]
          split at h
          · cases h
          · obtain rfl := Option.some.inj h
            rw [if_neg (by omega), Nat.sub_add_comm (by omega)]
      · next other =>
          obtain rfl := Option.some.inj h
          rw [if_neg other]

/-- A lexeme that can be read can be read inside other brackets as well. -/
theorem RowItem.depthAfter_add {item : RowItem} {depth d : Nat}
    (ok : item.depthAfter depth = .ok d) (n : Nat) : item.depthAfter (depth + n) = .ok (d + n) := by
  unfold depthAfter at ok ⊢
  cases hk : item.lexeme with
  | operator =>
      rw [hk] at ok
      dsimp only at ok ⊢
      cases behind : depthAfter? item.text depth with
      | none =>
          rw [behind] at ok
          cases ok
      | some e =>
          rw [behind] at ok
          obtain rfl := Except.ok.inj ok
          rw [depthAfter?_add behind]
  | stray =>
      rw [hk] at ok
      dsimp only at ok ⊢
      split at ok
      · cases ok
      · next free =>
          obtain rfl := Except.ok.inj ok
          rw [if_neg free]
  | joint | comment | number | terminator | literal | openLiteral | word =>
      rw [hk] at ok
      obtain rfl := Except.ok.inj ok
      rfl

namespace Backticks

variable {isOpen : Bool} {s x text behind : Text} {k : Lexeme}

theorem call_append (free : backtick ∉ x) (s : Text) :
    call isOpen (x ++ s) = x ++ call isOpen s := by
  induction x with
  | nil => rfl
  | cons c x ih =>
      have other : ¬(c == backtick) := fun same =>
        free (beq_iff_eq.mp same ▸ List.mem_cons_self ..)
      rw [List.cons_append, call, if_neg other, ih fun mem => free (List.mem_cons_of_mem c mem)]
      rfl

theorem call_eq_self (free : backtick ∉ s) : call isOpen s = s := by
  have same : call isOpen (s ++ []) = s ++ call isOpen [] := call_append free []
  rwa [call, List.append_nil] at same

theorem call_false (s : Text) :
    call false (backtick :: s) = "repr".toList ++ '(' :: call true s := rfl

/-- A bracket or the first letter of the name stands where the texts part. -/
theorem barred_call (isOpen : Bool) (s : Text) : Barred s (call isOpen s) := by
  fun_induction call isOpen s with
  | case1 => exact .nil
  | case2 c rest => exact .bar (by decide) ..
  | case3 isOpen c rest => exact .bar (by decide) ..
  | case4 isOpen c rest other ih => exact .keep c ih

theorem head?_call (other : s.head? ≠ some backtick) : (call isOpen s).head? = s.head? := by
  cases s with
  | nil => rfl
  | cons c s =>
      rw [call, if_neg fun same => other (congrArg some (beq_iff_eq.mp same))]
      rfl

theorem eq_operator (taken : k.Takes [backtick] behind) : k = .operator :=
  (Prod.mk.inj taken.next_eq).1.symm

/-- A comment goes on to the end of its row. -/
theorem head?_ne_of_comment (taken : Lexeme.comment.Takes text behind) :
    behind.head? ≠ some backtick := by
  intro first
  obtain ⟨c, rest, rfl⟩ := List.exists_cons_of_ne_nil taken.ne_nil
  have starts := starts_next c (rest ++ behind)
  rw [← List.cons_append, taken.next_eq] at starts
  generalize length : (c :: rest).length = n at starts
  cases starts with
  | comment =>
      have run : ((c :: rest ++ behind).takeWhile fun d => d != '\r' && d != '\n').length =
        (c :: rest).length := length.symm
      exact (length_takeWhile_append_iff.mp run).2 backtick first (by decide)

theorem takes_closing (s : Text) : Lexeme.operator.Takes [')'] s := ⟨rfl, by simp, by simp [isGap]⟩

theorem takes_opening (s : Text) : Lexeme.operator.Takes ['('] s := ⟨rfl, by simp, by simp [isGap]⟩

/-- The name of the call, perhaps behind a word, is a word. -/
theorem takes_name {w : Text} (word : ∀ c ∈ w, Text.isWord c) (digit : ∀ c ∈ w.head?, ¬c.isDigit)
    (s : Text) : Lexeme.word.Takes (w ++ "repr".toList) ('(' :: s) := by
  have chars : ∀ c ∈ w ++ "repr".toList, Text.isWord c :=
    List.forall_mem_append.mpr ⟨word, List.all_eq_true.mp (by decide)⟩
  have first : ∀ c ∈ (w ++ "repr".toList).head?, ¬c.isDigit := by
    cases w with
    | nil =>
        intro c hc
        obtain rfl := Option.some.inj hc
        decide
    | cons c w => exact digit
  have long : 2 < (w ++ "repr".toList).length := by
    have four : "repr".toList.length = 4 := by decide
    rw [List.length_append, four]
    omega
  generalize w ++ "repr".toList = name at chars first long
  obtain ⟨c, name, rfl⟩ := List.exists_cons_of_length_pos (Nat.zero_lt_of_lt long)
  have hc := chars c (List.mem_cons_self ..)
  have point : c ≠ '.' := by
    rintro rfl
    exact absurd hc (by decide)
  have number : number? (c :: name ++ '(' :: s) = none := number?_eq_none (first c rfl) point _
  have literal := literal?_eq_none_of_length long
    (fun d hd => not_isQuote_of_isWord (chars d hd)) ('(' :: s)
  have stop : ∀ d ∈ ('(' :: s).head?, ¬Text.isWord d := by
    intro d hd
    obtain rfl := Option.some.inj hd
    decide
  have read : IsRead ('(' :: s) .word (c :: name) := .word chars number literal stop
  exact ⟨read.next_eq (List.cons_ne_nil c name), List.cons_ne_nil c name,
    fun d hd => read.not_isGap d (List.mem_of_mem_head? hd)⟩

theorem notMem_of_isGap {gap : Text} (hg : ∀ c ∈ gap, isGap c) : backtick ∉ gap :=
  fun mem => absurd (hg backtick mem) (by decide)

theorem notMem_of_terminator {gap text behind : Text} (hg : ∀ c ∈ gap, isGap c)
    (taken : Lexeme.terminator.Takes text behind) : backtick ∉ gap ++ text := by
  have other : backtick ∉ text := by
    rcases taken.isTerminator with rfl | rfl <;> decide
  exact fun mem => (List.mem_append.mp mem).elim (notMem_of_isGap hg) other


/-- A word begins with no digit. -/
theorem parts_of_word (taken : Lexeme.word.Takes text behind) :
    (∀ c ∈ text, Text.isWord c) ∧ ∀ c ∈ text.head?, ¬c.isDigit := by
  cases taken.isRead rfl with
  | word chars number =>
      refine ⟨chars, fun c hc => ?_⟩
      obtain ⟨rest, rfl⟩ := List.head?_eq_some_iff.mp hc
      exact not_isDigit_of_number? number

theorem isWord_word {gap w : Text} (word : ∀ c ∈ w, Text.isWord c) (row : Nat) (line : Text)
    (column : Nat) : (RowItem.token ⟨gap, .word, w⟩ row line column).isWord := by
  have all : w.all Text.isWord := List.all_eq_true.mpr word
  simp only [Token.isWord, RowItem.token, RowItem.kind]
  split
  · rfl
  · rw [all]
    rfl

/-- Only a word is read as a word. -/
theorem eq_word_of_isWord {gap : Text} {row column : Nat} {line : Text} (taken : k.Takes text behind)
    (h : (RowItem.token ⟨gap, k, text⟩ row line column).isWord) : k = .word := by
  obtain ⟨c, rest, rfl⟩ := List.exists_cons_of_ne_nil taken.ne_nil
  have starts := starts_next c (rest ++ behind)
  rw [← List.cons_append, taken.next_eq] at starts
  cases k with
  | word => rfl
  | joint | comment | number | terminator | literal | openLiteral | stray => cases h
  | operator =>
      have word : Text.isWord c := by
        have all : (c :: rest).all Text.isWord := h
        exact List.all_eq_true.mp all c (List.mem_cons_self ..)
      cases starts with
      | operator found =>
          obtain ⟨reads, pos⟩ := reads_operator? found
          exact absurd (isFirm_of_isWord word) (fun firm => not_isSymbol_of_isFirm firm (reads.head pos))

/-- The rest `s` of a row with calls for its backticks can be read from any byte on, inside `depth`
    brackets and that of the call that is open, and its tokens are `ts` but for the calls. -/
def ReadsCalls (row : Nat) (line : Text) (isOpen : Bool) (depth d : Nat) (s : Text)
    (ts : List Token) : Prop :=
  ∀ column, ∃ items r n, ReadsRow row line (depth + isOpen.toNat) column (call isOpen s) items r ∧
    r.depth = d ∧ Calls isOpen n ts r.tokens

namespace ReadsCalls

variable {row depth d e : Nat} {line line' gap w : Text} {ts : List Token} {t b : Token}

theorem nil (hg : ∀ c ∈ gap, isGap c) : ReadsCalls row line false depth depth gap [] := by
  intro column
  rw [call_eq_self (notMem_of_isGap hg)]
  exact ⟨_, _, 0, .nil hg, rfl, .nil⟩

/-- The end of the row stays. -/
theorem terminator {column' : Nat} (hg : ∀ c ∈ gap, isGap c)
    (taken : Lexeme.terminator.Takes text []) :
    ReadsCalls row line false depth depth (gap ++ text ++ [])
      [{ RowItem.token ⟨gap, .terminator, text⟩ row line' column' with
        kind := if depth = 0 then .newline else .rowBreak }] := by
  intro column
  rw [call_append (notMem_of_terminator hg taken), call]
  have other : (if depth = 0 then Token.Kind.newline else .rowBreak) ≠ .operator := by
    split <;> exact nofun
  exact ⟨_, _, 0, .terminator hg taken, rfl,
    .keep rfl (fun same => other (Prod.mk.inj same).1) (fun _ _ _ hb => nomatch hb) .nil⟩

/-- A closing backtick becomes a bracket. -/
theorem close (hg : ∀ c ∈ gap, isGap c) (old : t.content = mark)
    (rest : ReadsCalls row line false depth d behind ts) :
    ReadsCalls row line true depth d (gap ++ [backtick] ++ behind) (t :: ts) := by
  intro column
  obtain ⟨items, r, n, reads, closed, calls⟩ :=
    rest (column + Text.byteLength gap + Text.byteLength [')'])
  have first : ReadsRow row line (depth + 1) column (gap ++ [')'] ++ call false behind) _ _ :=
    .cons hg (takes_closing _) rfl rfl reads
  have whole : call true (gap ++ [backtick] ++ behind) = gap ++ [')'] ++ call false behind := by
    rw [List.append_assoc, List.append_assoc, call_append (notMem_of_isGap hg)]
    rfl
  rw [whole]
  exact ⟨_, _, n, first, closed, .close old rfl calls⟩

/-- The name of the call, perhaps behind a word, and its bracket are read in the place of an opening
    backtick. -/
theorem exists_name (hg : ∀ c ∈ gap, isGap c) (word : ∀ c ∈ w, Text.isWord c)
    (digit : ∀ c ∈ w.head?, ¬c.isDigit) (rest : ReadsCalls row line true depth d behind ts)
    (column : Nat) :
    ∃ (items : List RowItem) (r : RowTokens) (n : Nat) (name bracket : Token) (ts' : List Token),
      ReadsRow row line depth column (gap ++ w ++ call false (backtick :: behind)) items r ∧
      r.depth = d ∧ r.tokens = name :: bracket :: ts' ∧
      name.content = (RowItem.kind ⟨gap, .word, w ++ "repr".toList⟩, w ++ "repr".toList) ∧
      bracket.content = (.operator, ['(']) ∧ Calls true n ts ts' := by
  obtain ⟨items, r, n, reads, closed, calls⟩ :=
    rest (column + Text.byteLength gap + Text.byteLength (w ++ "repr".toList) +
      Text.byteLength [] + Text.byteLength ['('])
  have second : ReadsRow row line depth _ ([] ++ ['('] ++ call true behind) _ _ :=
    .cons (by simp) (takes_opening _) rfl rfl reads
  have first : ReadsRow row line depth column
    (gap ++ (w ++ "repr".toList) ++ ('(' :: call true behind)) _ _ :=
      .cons hg (takes_name word digit _) rfl rfl second
  have whole : gap ++ w ++ call false (backtick :: behind) =
      gap ++ (w ++ "repr".toList) ++ '(' :: call true behind := by
    rw [call_false, ← List.append_assoc, List.append_assoc gap]
  rw [whole]
  exact ⟨_, _, n, _, _, _, first, closed, rfl, rfl, rfl, calls⟩

/-- An opening backtick becomes a name and a bracket. -/
theorem «open» (hg : ∀ c ∈ gap, isGap c) (old : t.content = mark)
    (rest : ReadsCalls row line true depth d behind ts) :
    ReadsCalls row line false depth d (gap ++ [backtick] ++ behind) (t :: ts) := by
  intro column
  obtain ⟨items, r, n, name, bracket, ts', reads, closed, tokens, name_eq, bracket_eq, calls⟩ :=
    rest.exists_name (w := []) hg (by simp) (by simp) column
  have whole : call false (gap ++ [backtick] ++ behind) =
      gap ++ [] ++ call false (backtick :: behind) := by
    rw [List.append_assoc, List.append_nil, call_append (notMem_of_isGap hg)]
    rfl
  rw [whole]
  refine ⟨items, r, n, reads, closed, ?_⟩
  rw [tokens]
  exact .call old name_eq bracket_eq calls

/-- An opening backtick directly behind a word prolongs the word by the name. -/
theorem merge (hg : ∀ c ∈ gap, isGap c) (word : ∀ c ∈ w, Text.isWord c)
    (digit : ∀ c ∈ w.head?, ¬c.isDigit) (isWord : t.isWord) (old : b.content = mark)
    (meets : b.start = t.stop) (rest : ReadsCalls row line true depth d behind ts) :
    ReadsCalls row line false depth d (gap ++ w ++ backtick :: behind) (t :: b :: ts) := by
  intro column
  obtain ⟨items, r, n, name, bracket, ts', reads, closed, tokens, -, bracket_eq, calls⟩ :=
    rest.exists_name hg word digit column
  have free : backtick ∉ gap ++ w := fun mem => (List.mem_append.mp mem).elim (notMem_of_isGap hg)
    fun mem => absurd (word backtick mem) (by decide)
  rw [call_append free]
  refine ⟨items, r, n + 1, reads, closed, ?_⟩
  rw [tokens]
  exact .merge isWord old meets bracket_eq calls

/-- Any other lexeme is read as before. -/
theorem keep {k : Lexeme} {text : Text} {column' : Nat} (hg : ∀ c ∈ gap, isGap c)
    (free : backtick ∉ text) (taken : k.Takes text (call isOpen behind)) (he : k.endsRow = false)
    (ok : RowItem.depthAfter ⟨gap, k, text⟩ depth = .ok e)
    (apart : isOpen = false → k = .word → ∀ b ∈ ts, b.content = mark →
      b.start ≠ (RowItem.token ⟨gap, k, text⟩ row line' column').stop)
    (rest : ReadsCalls row line isOpen e d behind ts) :
    ReadsCalls row line isOpen depth d (gap ++ text ++ behind)
      (RowItem.token ⟨gap, k, text⟩ row line' column' :: ts) := by
  intro column
  obtain ⟨items, r, n, reads, closed, calls⟩ :=
    rest (column + Text.byteLength gap + Text.byteLength text)
  have whole : call isOpen (gap ++ text ++ behind) = gap ++ text ++ call isOpen behind :=
    call_append (fun mem => (List.mem_append.mp mem).elim (notMem_of_isGap hg) free) behind
  rw [whole]
  refine ⟨_, _, n, .cons hg taken he (RowItem.depthAfter_add ok isOpen.toNat) reads, closed,
    .keep rfl (fun same => free ?_) (fun closed word b hb => ?_) calls⟩
  · have same : text = [backtick] := (Prod.mk.inj same).2
    rw [same]
    exact List.mem_singleton_self backtick
  · exact apart closed (eq_word_of_isWord taken word) b (List.mem_of_mem_head? hb)

end ReadsCalls

/-- A row that begins with a backtick begins with its lexeme. -/
theorem exists_of_backtick {row depth column : Nat} {line : Text} {items : List RowItem}
    {r : RowTokens} (h : ReadsRow row line depth column s items r)
    (own : ∀ t ∈ r.tokens, backtick ∈ t.text → t.text = [backtick])
    (first : s.head? = some backtick) :
    ∃ behind items' r', s = backtick :: behind ∧ items = ⟨[], .operator, [backtick]⟩ :: items' ∧
      r = r'.after (RowItem.token ⟨[], .operator, [backtick]⟩ row line column) ∧
      ReadsRow row line depth (column + Text.byteLength [] + Text.byteLength [backtick]) behind
        items' r' := by
  have alone {gap text behind : Text} (hg : ∀ c ∈ gap, isGap c) (ne : text ≠ [])
      (first : (gap ++ text ++ behind).head? = some backtick) : gap = [] ∧ backtick ∈ text := by
    cases gap with
    | nil =>
        obtain ⟨c, more, rfl⟩ := List.exists_cons_of_ne_nil ne
        obtain rfl := Option.some.inj first
        exact ⟨rfl, List.mem_cons_self ..⟩
    | cons c gap =>
        obtain rfl := Option.some.inj first
        exact absurd (List.mem_cons_self ..) (notMem_of_isGap hg)
  cases h with
  | nil hg => exact absurd (List.mem_of_mem_head? first) (notMem_of_isGap hg)
  | terminator hg taken =>
      obtain ⟨-, mem⟩ := alone hg taken.ne_nil first
      exact absurd (List.mem_append_right _ mem) (notMem_of_terminator hg taken)
  | @cons _ d _ gap text behind k items r hg taken he ok rest =>
      obtain ⟨rfl, mem⟩ := alone hg taken.ne_nil first
      obtain rfl : text = [backtick] := own _ (List.mem_cons_self ..) mem
      obtain rfl := eq_operator taken
      obtain rfl : depth = d := Except.ok.inj ok
      exact ⟨behind, items, r, rfl, rfl, rfl, rest⟩

/-- A row with calls for the backticks in pairs is read as it was but for the calls. -/
theorem readsCalls_of_readsRow {row depth column : Nat} {line line' : Text} {items : List RowItem}
    {r : RowTokens} (h : ReadsRow row line' depth column s items r) (newline : EndsAtNewline s)
    (own : ∀ t ∈ r.tokens, backtick ∈ t.text → t.text = [backtick])
    (parity : s.count backtick % 2 = isOpen.toNat) :
    ReadsCalls row line isOpen depth r.depth s r.tokens := by
  induction hn : items.length using Nat.strongRecOn
    generalizing isOpen s depth column items r with
  | ind n ih =>
  subst hn
  cases h with
  | nil hg =>
      obtain rfl : isOpen = false := by
        rw [List.count_eq_zero_of_not_mem (notMem_of_isGap hg)] at parity
        cases isOpen with
        | false => rfl
        | true => cases parity
      exact .nil hg
  | terminator hg taken =>
      obtain rfl := newline.behind_eq_nil taken.isTerminator
      obtain rfl : isOpen = false := by
        rw [List.append_nil, List.count_eq_zero_of_not_mem (notMem_of_terminator hg taken)] at parity
        cases isOpen with
        | false => rfl
        | true => cases parity
      exact .terminator hg taken
  | @cons depth d column gap text behind k items r hg taken he ok rest =>
      have free := notMem_of_isGap hg
      have later : EndsAtNewline behind := fun a b eq =>
        newline (gap ++ text ++ a) b (by simp [eq])
      obtain ⟨here, own'⟩ := List.forall_mem_cons.mp own
      rw [List.append_assoc, List.count_append, List.count_append,
        List.count_eq_zero_of_not_mem free, Nat.zero_add] at parity
      by_cases mem : backtick ∈ text
      · obtain rfl : text = [backtick] := here mem
        obtain rfl := eq_operator taken
        obtain rfl : depth = d := Except.ok.inj ok
        have single : [backtick].count backtick = 1 := List.count_singleton_self
        rw [single] at parity
        cases isOpen with
        | true =>
            have parity' : behind.count backtick % 2 = false.toNat := by
              simp only [Bool.toNat_true, Bool.toNat_false] at parity ⊢
              omega
            exact .close hg rfl (ih _ (Nat.lt_succ_self _) rest later own' parity' rfl)
        | false =>
            have parity' : behind.count backtick % 2 = true.toNat := by
              simp only [Bool.toNat_true, Bool.toNat_false] at parity ⊢
              omega
            exact .open hg rfl (ih _ (Nat.lt_succ_self _) rest later own' parity' rfl)
      · rw [List.count_eq_zero_of_not_mem mem, Nat.zero_add] at parity
        by_cases meets : isOpen = false ∧ k = .word ∧ behind.head? = some backtick
        · obtain ⟨rfl, rfl, meets⟩ := meets
          obtain rfl : depth = d := Except.ok.inj ok
          obtain ⟨chars, digit⟩ : (∀ c ∈ text, Text.isWord c) ∧ ∀ c ∈ text.head?, ¬c.isDigit :=
            parts_of_word taken
          obtain ⟨behind, items, r, rfl, rfl, rfl, next⟩ := exists_of_backtick rest own' meets
          have later' : EndsAtNewline behind := fun a b eq => later (backtick :: a) b (by rw [eq]; rfl)
          have parity' : behind.count backtick % 2 = true.toNat := by
            rw [List.count_cons_self] at parity
            simp only [Bool.toNat_true, Bool.toNat_false] at parity ⊢
            omega
          have tokens := ih _ (by simp only [List.length_cons]; omega) next later'
            (List.forall_mem_cons.mp own').2 parity' rfl
          exact .merge hg chars digit (isWord_word chars ..) rfl rfl tokens
        · refine (ih _ (Nat.lt_succ_self _) rest later own' parity rfl).keep hg mem ?_ he ok ?_
          · refine taken.barred he (barred_call isOpen behind) ?_ ?_
              (fun _ hd quote => rest.literal?_of_isQuote hd quote) ?_
            · rintro rfl
              exact head?_call fun first => head?_ne_of_comment taken first
            · rintro rfl
              exact RowItem.isQuote_of_depthAfter rfl ok
            · intro word c hc isWord
              by_cases first : behind.head? = some backtick
              · obtain ⟨more, rfl⟩ := List.head?_eq_some_iff.mp first
                cases isOpen with
                | false => exact absurd ⟨rfl, word, first⟩ meets
                | true =>
                    obtain rfl := Option.some.inj hc
                    exact absurd isWord (by decide)
              · rwa [head?_call first] at hc
          · intro closed word b hb old same
            obtain ⟨more, rfl⟩ : b.text <+: behind := (rest.start hb).2 (congrArg Position.column same)
            have text : b.text = [backtick] := (Prod.mk.inj old).2
            exact meets ⟨closed, word, by rw [text]; rfl⟩

end Backticks

end StyleGuide
