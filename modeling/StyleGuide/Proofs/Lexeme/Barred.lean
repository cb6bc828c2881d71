import StyleGuide.Proofs.Lexeme.Lookahead
import StyleGuide.Proofs.Lexeme.Plain

/-! # Lexemes in front of a bar

No reader of a lexeme but that of words looks over a bar: a space is one, and so is a bracket or a
letter that no number holds. Where a text goes on as it did up to a bar, the lexeme in front is read
as before, also one that other gaps would break.
-/

namespace StyleGuide

/-- A character at which a lexeme ends that is no word. -/
def isBar (c : Char) : Bool :=
  !Lexeme.isNumeral c && !Lexeme.laterSigns.contains c && !Lexeme.isQuote c && c != '\r' && c != '\n'

/-- The second text goes on as the first, at least up to a bar. -/
inductive Barred : Text → Text → Prop where
  | nil : Barred [] []
  | keep {s s' : Text} (c : Char) (rest : Barred s s') : Barred (c :: s) (c :: s')
  | bar {c : Char} (hc : isBar c) (s s' : Text) : Barred s (c :: s')

theorem not_isBar_of_isQuote {c : Char} (h : Lexeme.isQuote c) : ¬isBar c := by
  simp [isBar, h]

theorem not_isBar_of_isNumeral {c : Char} (h : Lexeme.isNumeral c) : ¬isBar c := by
  simp [isBar, h]

theorem not_isBar_of_mem_laterSigns {c : Char} (h : c ∈ Lexeme.laterSigns) : ¬isBar c := by
  simp [isBar, h]

namespace Barred

variable {s s' : Text} {c : Char}

theorem append (x : Text) (h : Barred s s') : Barred (x ++ s) (x ++ s') := by
  induction x with
  | nil => exact h
  | cons c x ih => exact .keep c ih

/-- A text that begins with no bar goes on as the first one. -/
theorem exists_of_cons (h : Barred s (c :: s')) (hc : ¬isBar c) :
    ∃ t, s = c :: t ∧ Barred t s' := by
  cases h with
  | keep _ rest => exact ⟨_, rfl, rest⟩
  | bar bar => exact absurd bar hc

theorem head?_eq (h : Barred s s') (first : c ∈ s'.head?) (hc : ¬isBar c) : c ∈ s.head? := by
  obtain ⟨t', rfl⟩ : ∃ t', s' = c :: t' := List.head?_eq_some_iff.mp first
  obtain ⟨t, rfl, -⟩ := h.exists_of_cons hc
  rfl

/-- A run of characters in front gets no longer. -/
theorem prefix_takeWhile {p : Char → Bool} (hp : ∀ c, p c → ¬isBar c) (h : Barred s s') :
    s'.takeWhile p <+: s.takeWhile p := by
  induction h with
  | nil => exact List.prefix_rfl
  | keep c rest ih =>
      by_cases hc : p c
      · rw [List.takeWhile_cons_of_pos hc, List.takeWhile_cons_of_pos hc, List.cons_prefix_cons]
        exact ⟨rfl, ih⟩
      · rw [List.takeWhile_cons_of_neg hc]
        exact List.nil_prefix
  | @bar c bar s s' =>
      rw [List.takeWhile_cons_of_neg fun hc => hp c hc bar]
      exact List.nil_prefix

end Barred

namespace Lexeme

variable {c : Char} {k : Lexeme} {n : Nat} {text behind behind' rest s s' : Text}

/-- No bar makes a row end where it did not. -/
theorem terminator?_barred (other : Barred s s') (missing : terminator? s = none) :
    terminator? s' = none := by
  unfold terminator?
  split
  · obtain ⟨t, rfl, -⟩ := other.exists_of_cons (by decide)
    cases missing
  · obtain ⟨t, rfl, more⟩ := other.exists_of_cons (by decide)
    obtain ⟨u, rfl, -⟩ := more.exists_of_cons (by decide)
    cases missing
  · rfl

/-- The terminator of a row is read in front of any text. -/
theorem Takes.terminator (h : Lexeme.terminator.Takes text behind) (behind' : Text) :
    Lexeme.terminator.Takes text behind' := by
  refine ⟨?_, h.ne_nil, h.not_isGap⟩
  obtain ⟨c, rest, n, rfl, read, starts⟩ := h.starts
  cases starts with
  | terminator hn =>
      obtain ⟨eq, -, -⟩ := isTerminator_of_terminator? hn
      rw [← List.cons_append, read] at eq
      rcases eq with eq | eq <;> rw [eq] <;> rfl

/-- What is looked for in vain at a stray character. -/
theorem next_eq_stray_iff : next (c :: s) = (.stray, 1) ↔
    c ≠ '#' ∧ terminator? (c :: s) = none ∧ (c = '\\' → terminator? s = none) ∧
      number? (c :: s) = none ∧ operator? (c :: s) = none ∧ literal? (c :: s) = none ∧
      ¬Text.isWord c := by
  by_cases comment : c = '#'
  · simp [next, comment]
  by_cases joint : c = '\\' → terminator? s = none
  · have through : (if c == '\\' then terminator? s else none) = none := by simpa using joint
    simp only [next, through, iff_true_intro joint, true_and]
    cases terminator? (c :: s) <;> cases number? (c :: s) <;> cases operator? (c :: s) <;>
      rcases literal? (c :: s) with _ | _ | _ <;> by_cases word : Text.isWord c <;>
        simp [comment, word]
  · obtain ⟨rfl, some⟩ := Classical.not_imp.mp joint
    obtain ⟨n, hn⟩ := Option.ne_none_iff_exists'.mp some
    have ends : terminator? ('\\' :: s) = none := rfl
    simp [next, ends, hn]

theorem number?_barred (other : Barred s s') (missing : number? s = none) : number? s' = none :=
  isLocal_number?.eq_none_of_prefix (fun h => (reads_numeral? h).1)
    (other.prefix_takeWhile fun _ => not_isBar_of_isNumeral) missing

/-- An operator ends where it did. -/
theorem operator?_barred (other : Barred behind behind')
    (h : operator? (text ++ behind) = some text.length) :
    operator? (text ++ behind') = some text.length := by
  have alone := operator?_of_append h
  cases behind' with
  | nil => rwa [List.append_nil]
  | cons d rest =>
      by_cases bar : isBar d
      · have later : d ∉ laterSigns := fun mem => not_isBar_of_mem_laterSigns mem bar
        refine operator?_append_of_concat (operator?_concat alone later) fun _ point => ?_
        subst point
        exact absurd bar (by decide)
      · obtain ⟨t, rfl, more⟩ := other.exists_of_cons bar
        apply operator?_append_of_concat (operator?_concat_of_append h)
        -- the third point of an ellipsis was there before
        rintro rfl rfl third
        obtain ⟨u, rfl⟩ := List.head?_eq_some_iff.mp (more.head?_eq third (by decide))
        simp [operator?] at h

/-- A sign that is no operator is none in front of a bar. -/
theorem operator?_eq_none_of_barred (other : Barred s s') (missing : operator? (c :: s) = none) :
    operator? (c :: s') = none := by
  by_cases symbol : isSymbol c
  · obtain rfl := eq_bang_of_operator? missing symbol
    apply operator?_bang
    intro equals
    obtain ⟨t, rfl⟩ := List.head?_eq_some_iff.mp (other.head?_eq equals (by decide))
    cases missing
  · exact operator?_eq_none symbol

/-- A literal starts with a letter or a quote mark. -/
theorem isFirm_of_literal? {r : LiteralStart} (h : literal? (c :: s) = some r) : isFirm c := by
  by_contra loose
  have quote : isQuote c = false :=
    Bool.eq_false_iff.mpr fun quote => loose (isFirm_of_isQuote quote)
  rw [literal?_cons_eq_none quote fun word => loose (isFirm_of_isWord word)] at h
  cases h

/-- What is read at an ordinary character, but for a stray one, is read in front of a bar as
    well. -/
theorem Reading.barred (h : Reading c (rest ++ behind) k (c :: rest).length)
    (he : k.endsRow = false) (other : Barred behind behind') (whole : k ≠ .stray)
    (apart : k = .word → ∀ d ∈ behind'.head?, Text.isWord d → d ∈ behind.head?)
    (literals : ∀ d ∈ behind.head?, isQuote d → ∃ m, literal? behind = some (.closed m)) :
    Reading c (rest ++ behind') k (c :: rest).length := by
  have number : number? (c :: rest ++ behind) = none → number? (c :: rest ++ behind') = none :=
    number?_barred (other.append (c :: rest))
  have operator :
      operator? (c :: rest ++ behind) = none → operator? (c :: rest ++ behind') = none :=
    operator?_eq_none_of_barred (other.append rest)
  generalize length : (c :: rest).length = n at h
  cases h with
  | openLiteral => cases he
  | stray => exact absurd rfl whole
  | number found =>
      subst length
      have chars : ∀ d ∈ c :: rest, isNumeral d := by
        intro d hd
        apply (reads_numeral? found).1.2
        rwa [← List.cons_append, List.take_left]
      have run := (other.append (c :: rest)).prefix_takeWhile fun _ => not_isBar_of_isNumeral
      apply Reading.number
      apply isLocal_number?.eq_some_of_prefix (fun h => (reads_numeral? h).1) run found
      rw [List.takeWhile_append_of_pos chars, List.length_append]
      exact Nat.le_add_right ..
  | operator missing found =>
      subst length
      have found' : operator? (c :: rest ++ behind') = some (c :: rest).length :=
        operator?_barred other found
      exact .operator (number missing) found'
  | literal missing none found =>
      subst length
      have found' : literal? (c :: rest ++ behind') = some (.closed (c :: rest).length) := by
        apply literal?_append found
        intro d hd quote
        exact other.head?_eq hd (not_isBar_of_isQuote quote)
      exact .literal (number missing) (operator none) found'
  | word missing none literal word run =>
      subst length
      obtain ⟨chars, stop⟩ : (∀ d ∈ c :: rest, Text.isWord d) ∧
        ∀ d ∈ behind.head?, ¬Text.isWord d := length_takeWhile_append_iff.mp run
      have stop' : ∀ d ∈ behind'.head?, ¬Text.isWord d := by
        intro d hd word
        exact stop d (apart rfl d hd word) word
      apply Reading.word (number missing) (operator none) _ word
      · exact length_takeWhile_append_iff.mpr ⟨chars, stop'⟩
      · apply literal?_eq_none (List.cons_ne_nil c rest) chars literal stop'
        intro d hd quote
        have first := other.head?_eq hd (not_isBar_of_isQuote quote)
        exact ⟨first, literals d first quote⟩

/-- A number, an operator, a literal or a word begins with an ordinary character. -/
theorem Starts.isOrdinary (h : Starts c s k n) (he : k.endsRow = false) (comment : k ≠ .comment)
    (stray : k ≠ .stray) : IsOrdinary c := by
  cases h with
  | terminator | joint | openLiteral => cases he
  | comment => exact absurd rfl comment
  | stray => exact absurd rfl stray
  | number found =>
      exact isOrdinary_of_isNumeric ((reads_number? found).1.head (reads_number? found).2)
  | operator found =>
      exact isOrdinary_of_isSymbol ((reads_operator? found).1.head (reads_operator? found).2)
  | literal found => exact isOrdinary_of_isFirm (isFirm_of_literal? found)
  | word hc => exact isOrdinary_of_isFirm (isFirm_of_isWord hc)

/-- A lexeme that ends on its row is taken in front of a bar as well, a word only where the bar does
    not prolong it. -/
theorem Takes.barred (h : k.Takes text behind) (he : k.endsRow = false)
    (other : Barred behind behind') (comment : k = .comment → behind'.head? = behind.head?)
    (stray : k = .stray → ∀ c ∈ text.head?, isQuote c = false)
    (literals : ∀ d ∈ behind.head?, isQuote d → ∃ m, literal? behind = some (.closed m))
    (apart : k = .word → ∀ d ∈ behind'.head?, Text.isWord d → d ∈ behind.head?) :
    k.Takes text behind' := by
  refine ⟨?_, h.ne_nil, h.not_isGap⟩
  have next_eq := h.next_eq
  obtain ⟨c, rest, n, rfl, read, starts⟩ := h.starts
  by_cases marked : k = .comment
  · subst marked
    cases starts with
    | comment hc =>
        subst hc
        have length : ((('#' :: rest) ++ behind).takeWhile fun d => d != '\r' && d != '\n').length =
            ('#' :: rest).length := (Prod.mk.inj next_eq).2
        rw [length_takeWhile_append_iff, ← comment rfl, ← length_takeWhile_append_iff] at length
        exact congrArg (Prod.mk Lexeme.comment) length
  by_cases lone : k = .stray
  · subst lone
    obtain ⟨word, rfl⟩ : ¬Text.isWord c ∧ rest = [] := by
      cases starts with
      | stray word => exact ⟨word, by simpa using read.symm⟩
    obtain ⟨comment, ends, joint, missing, none, -, -⟩ := next_eq_stray_iff.mp next_eq
    exact next_eq_stray_iff.mpr ⟨comment, terminator?_barred (other.append [c]) ends,
      fun hc => terminator?_barred other (joint hc), number?_barred (other.append [c]) missing,
      operator?_eq_none_of_barred other none, literal?_cons_eq_none (stray rfl c rfl) word _, word⟩
  · have ordinary := starts.isOrdinary he marked lone
    have reading := reading_next ordinary (rest ++ behind)
    rw [← List.cons_append, next_eq] at reading
    exact (reading.barred he other lone apart literals).next_eq ordinary

end Lexeme

end StyleGuide
