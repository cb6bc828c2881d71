import Mathlib.Data.List.Chain
import StyleGuide.Proofs.Lexeme.Lookahead
import StyleGuide.Proofs.Lexeme.Plain

/-! # Lexemes in a regapped text

Where the gaps of a text change, its lexemes stay: each reader looks ahead no further than the
characters that a gap never parts. What is asked of the text is that its lexemes are plain ones and
that no equals sign stands behind an operator that would take it in.
-/

namespace StyleGuide

namespace Lexeme

namespace IsRead

variable {c d : Char} {k : Lexeme} {text behind behind' : Text}

section

variable {p : Char → Bool} {Adds : Option Char → Prop} {b : Option Char}

/-- A run of number characters at the start of a lexeme gets no longer. -/
theorem run_prefix (hp : ∀ c, p c → isBreak c) (other : Regapped p Adds text.getLast? behind behind') :
    (text ++ behind').takeWhile isNumeric <+: (text ++ behind).takeWhile isNumeric := by
  by_cases chars : ∀ c ∈ text, isNumeric c
  · rw [List.takeWhile_append_of_pos chars, List.takeWhile_append_of_pos chars]
    apply (List.prefix_append_right_inj text).mpr
    apply other.takeWhile_prefix
    · intro c hc
      refine ⟨fun gap => not_of_isBreak (by decide) (hp c gap) hc, fun d hd => ?_⟩
      exact not_mayClose (by simpa using free_of_isNumeric hd) (free_of_isNumeric hc)
    · intro c hc
      apply not_mayClose _ (free_of_isNumeric hc)
      intro d hd
      exact free_of_isNumeric (chars d (List.mem_of_getLast? hd))
  · have short (s : Text) : (text ++ s).takeWhile isNumeric = text.takeWhile isNumeric := by
      rw [List.takeWhile_append, if_neg]
      intro length
      apply chars
      rw [← (List.takeWhile_prefix isNumeric).eq_of_length length]
      exact fun c hc => List.mem_takeWhile_imp hc
    exact (short behind').trans (short behind).symm ▸ List.prefix_rfl

/-- The character behind a lexeme stays, unless a gap comes in front of it or goes away there. -/
theorem head?_cases (other : Regapped p Adds b behind behind') (hd : d ∈ behind'.head?) :
    p d ∨ behind.head? = some d ∨ MayClose b d := by
  obtain ⟨rest, rfl⟩ : ∃ rest, behind' = d :: rest := by
    cases behind' with
    | nil => cases hd
    | cons e rest => exact ⟨rest, by rw [Option.some.inj hd]⟩
  by_cases gap : p d
  · exact .inl gap
  · exact .inr (other.head?_eq gap)

/-- An operator ends where it did. -/
theorem operator?_regapped (hp : ∀ c, p c → isBreak c)
    (h : operator? (text ++ behind) = some text.length)
    (single : ∀ c ∈ text, isHinge c → text.length = 1)
    (other : Regapped p Adds text.getLast? behind behind')
    (apart : behind'.head? = some '=' → operator? (text ++ ['=']) = some text.length) :
    operator? (text ++ behind') = some text.length := by
  have alone := operator?_of_append h
  cases behind' with
  | nil => rwa [List.append_nil]
  | cons d rest =>
      have concat : operator? (text ++ [d]) = some text.length := by
        rcases head?_cases other (d := d) rfl with gap | same | close
        · exact operator?_concat alone (not_mem_laterSigns_of_isBreak (hp d gap))
        · cases behind with
          | nil => cases same
          | cons e behind =>
              obtain rfl := Option.some.inj same
              exact operator?_concat_of_append h
        · by_cases equals : d = '='
          · subst equals
            exact apart rfl
          · rcases close with ⟨e, he, opening | rfl⟩ | closing | separator | eq
            · have mem := List.mem_of_getLast? he
              obtain ⟨f, rfl⟩ := List.length_eq_one_iff.mp
                (single e mem (by simp [isHinge, opening]))
              obtain rfl := List.mem_singleton.mp mem
              exact operator?_of_isOpening opening
            · exact operator?_concat_of_equals alone he equals
            · have hinge : isHinge d := by simp [isHinge, closing]
              exact operator?_concat alone (not_mem_laterSigns_of_isHinge hinge)
            · have hinge : isHinge d := by simp [isHinge, separator]
              exact operator?_concat alone (not_mem_laterSigns_of_isHinge hinge)
            · exact absurd eq equals
      apply operator?_append_of_concat concat
      -- the third point of an ellipsis would have been behind the second before
      rintro rfl rfl third
      have free : ¬MayClose (some '.') '.' := by
        apply not_mayClose <;> simp [isHinge, isOpening, isClosing, isSeparator]
      have solid : ¬p '.' := fun gap => absurd (hp '.' gap) (by decide)
      obtain ⟨g, t, rfl, hg, more⟩ := other.exists_of_cons solid
      have first := (other.head?_eq solid).resolve_right free
      obtain rfl : g = [] := by
        cases g with
        | nil => rfl
        | cons e g =>
            obtain rfl := Option.some.inj first
            exact absurd (hg '.' (by simp)) solid
      cases rest with
      | nil => cases third
      | cons e rest =>
          obtain rfl := Option.some.inj third
          have second := (more.head?_eq solid).resolve_right free
          cases t with
          | nil => cases second
          | cons e t =>
              obtain rfl := Option.some.inj second
              simp [operator?] at h

/-- A quote mark behind a firm character was there before. -/
theorem head?_eq_of_isFirm (hp : ∀ c, p c → isBreak c) (hb : ∀ c ∈ b, isFirm c)
    (other : Regapped p Adds b behind behind') (hd : d ∈ behind'.head?) (firm : isFirm d) :
    behind.head? = some d := by
  rcases head?_cases other hd with gap | same | close
  · exact absurd firm (not_of_isBreak (by decide) (hp d gap))
  · exact same
  · exact absurd close (not_mayClose (fun c hc => free_of_isFirm (hb c hc)) (free_of_isFirm firm))

/-- A lexeme is read in front of the regapped text as well. -/
theorem regap (hp : ∀ c, p c → isBreak c) (h : IsRead behind k text) (ne : text ≠ [])
    (other : Regapped p Adds text.getLast? behind behind')
    (apart : behind'.head? = some '=' → next (text ++ ['=']) = (k, text.length))
    (literals : ∀ d ∈ behind.head?, isQuote d → ∃ m, literal? behind = some (.closed m)) :
    IsRead behind' k text := by
  have run := run_prefix hp other
  have number (missing : number? (text ++ behind) = none) : number? (text ++ behind') = none :=
    isLocal_number?.eq_none_of_prefix (fun h => (reads_number? h).1) run missing
  cases h with
  | number chars found =>
      apply IsRead.number chars
      apply isLocal_number?.eq_some_of_prefix (fun h => (reads_number? h).1) run found
      rw [List.takeWhile_append_of_pos chars, List.length_append]
      exact Nat.le_add_right ..
  | operator chars missing found whole =>
      apply IsRead.operator chars (number missing) _ whole
      have single : ∀ c ∈ text, isHinge c → text.length = 1 := fun c hc hinge =>
        (IsRead.operator chars missing found whole).length_eq_one hc hinge
      apply operator?_regapped hp found single other
      intro equals
      obtain ⟨c, rest, rfl⟩ := List.exists_cons_of_ne_nil ne
      have reading := reading_next (isOrdinary_of_isSymbol (chars c (by simp))) (rest ++ ['='])
      rw [← List.cons_append, apart equals] at reading
      cases reading with
      | operator _ found => exact found
  | literal chars missing found =>
      apply IsRead.literal chars (number missing)
      apply literal?_append found
      intro d hd quote
      apply head?_eq_of_isFirm hp _ other hd (isFirm_of_isQuote quote)
      exact fun c hc => chars c (List.mem_of_getLast? hc)
  | word chars missing literal stop =>
      have same (d : Char) (hd : d ∈ behind'.head?) (firm : isFirm d) : behind.head? = some d := by
        apply head?_eq_of_isFirm hp _ other hd firm
        exact fun c hc => isFirm_of_isWord (chars c (List.mem_of_getLast? hc))
      have stop' : ∀ d ∈ behind'.head?, ¬Text.isWord d := by
        intro d hd word
        exact stop d (same d hd (isFirm_of_isWord word)) word
      apply IsRead.word chars (number missing) _ stop'
      apply literal?_eq_none ne chars literal stop'
      intro d hd quote
      have first := same d hd (isFirm_of_isQuote quote)
      exact ⟨first, literals d first quote⟩
  | @stray c hb ordinary hq hw missing operator =>
      apply IsRead.stray hb ordinary hq hw (number missing)
      by_cases symbol : isSymbol c
      · obtain rfl := eq_bang_of_operator? operator symbol
        apply operator?_bang
        intro equals
        exact absurd (apart equals) (by decide)
      · exact operator?_eq_none symbol

end

end IsRead

end Lexeme

/-- The lexeme and its text, without the gap in front. -/
def RowItem.word (item : RowItem) : Lexeme × Text := (item.lexeme, item.text)

namespace Lexeme

/-- An equals sign directly behind the first lexeme is not read together with it. -/
def StandsApart (a b : Lexeme × Text) : Prop :=
  b.2.head? = some '=' → next (a.2 ++ ['=']) = (a.1, a.2.length)

instance (a b : Lexeme × Text) : Decidable (StandsApart a b) :=
  inferInstanceAs (Decidable (_ → _))

/-- Lexemes that other gaps leave as they are. -/
structure ArePlain (words : List (Lexeme × Text)) : Prop where
  whole : ∀ w ∈ words, w.1.isPlain w.2
  apart : words.IsChain StandsApart

namespace ArePlain

variable {w : Lexeme × Text} {words : List (Lexeme × Text)}

theorem head (h : ArePlain (w :: words)) : w.1.isPlain w.2 := h.whole w (List.mem_cons_self ..)

theorem tail (h : ArePlain (w :: words)) : ArePlain words :=
  ⟨fun v hv => h.whole v (List.mem_cons_of_mem _ hv), h.apart.tail⟩

end ArePlain

end Lexeme

/-- Gaps come in behind separators. -/
def behindSeparator (b : Option Char) : Prop := ∃ c ∈ b, isSeparator c

namespace Itemized

open Lexeme

variable {s s' behind : Text} {items items' : List RowItem} {b : Option Char}

/-- A text that begins with a character that is no gap begins with an item without gap. -/
theorem exists_cons {d : Char} (h : Itemized s items) (hd : d ∈ s.head?) (hg : ¬isGap d) :
    ∃ k text behind rest, items = ⟨[], k, text⟩ :: rest ∧ s = text ++ behind ∧ k.Takes text behind ∧
      text.head? = some d := by
  have first {gap text behind : Text} {k : Lexeme} (hgap : ∀ c ∈ gap, isGap c)
      (taken : k.Takes text behind) (hd : d ∈ (gap ++ text ++ behind).head?) :
      gap = [] ∧ text.head? = some d := by
    obtain ⟨c, more, rfl⟩ := List.exists_cons_of_ne_nil taken.ne_nil
    cases gap with
    | nil => exact ⟨rfl, hd⟩
    | cons e gap =>
        obtain rfl := Option.some.inj hd
        exact absurd (hgap e (by simp)) hg
  cases h with
  | nil hgap => exact absurd (hgap d (List.mem_of_mem_head? hd)) hg
  | last hgap taken =>
      obtain ⟨rfl, head⟩ := first hgap taken hd
      exact ⟨_, _, _, _, rfl, rfl, taken, head⟩
  | cons hgap taken =>
      obtain ⟨rfl, head⟩ := first hgap taken hd
      exact ⟨_, _, _, _, rfl, rfl, taken, head⟩

/-- A plain text that begins with a quote mark begins with a literal. -/
theorem literal?_of_isQuote {d : Char} (h : Itemized s items)
    (plain : ArePlain (items.map RowItem.word)) (hd : d ∈ s.head?) (quote : isQuote d) :
    ∃ n, literal? s = some (.closed n) := by
  obtain ⟨k, text, behind, rest, rfl, rfl, taken, head⟩ :=
    h.exists_cons hd fun gap => not_of_isGap (by decide) gap quote
  have first : d ∈ text := List.mem_of_mem_head? head
  cases taken.isRead plain.head with
  | number chars => exact absurd quote (not_isQuote_of_isNumeric (chars d first))
  | operator chars => exact absurd quote (not_isQuote_of_isSymbol (chars d first))
  | literal _ _ found => exact ⟨_, found⟩
  | word chars => exact absurd quote (not_isQuote_of_isWord (chars d first))
  | stray _ _ hq =>
      rw [List.mem_singleton.mp first, hq] at quote
      cases quote

section

variable {p : Char → Bool} {Adds : Option Char → Prop} {k : Lexeme} {gap text : Text}

/-- A plain lexeme is taken in front of the regapped text as well. -/
theorem takes_regap (rest : Itemized behind items)
    (plain : ArePlain ((⟨gap, k, text⟩ :: items : List RowItem).map RowItem.word))
    (hp : ∀ c, p c → isBreak c) (taken : k.Takes text behind)
    (other : Regapped p Adds text.getLast? behind s')
    (apart : s'.head? = some '=' → next (text ++ ['=']) = (k, text.length)) : k.Takes text s' := by
  have read := (taken.isRead plain.head).regap hp taken.ne_nil other apart
    fun d hd quote => rest.literal?_of_isQuote plain.tail hd quote
  exact ⟨read.next_eq taken.ne_nil, taken.ne_nil, taken.not_isGap⟩

/-- An equals sign at the start of a text with the same lexemes stands apart as before. -/
theorem next_concat_of_apart (h : Itemized s' items')
    (words : items'.map RowItem.word = items.map RowItem.word)
    (plain : ArePlain ((⟨gap, k, text⟩ :: items : List RowItem).map RowItem.word))
    (equals : s'.head? = some '=') : next (text ++ ['=']) = (k, text.length) := by
  obtain ⟨k', text', -, rest', rfl, -, -, first⟩ := h.exists_cons equals (by decide)
  have apart := plain.apart
  rw [List.map_cons, ← words, List.map_cons] at apart
  exact (List.isChain_cons_cons.mp apart).1 first

/-- No gap comes in inside a plain lexeme. -/
theorem not_behindSeparator {x y : Text} (taken : k.Takes text behind) (plain : k.isPlain text)
    (parts : text = x ++ y) (nx : x ≠ []) (ny : y ≠ []) : ¬behindSeparator x.getLast? := by
  rintro ⟨c, last, separator⟩
  have mem : c ∈ text := parts ▸ List.mem_append_left y (List.mem_of_getLast? last)
  have one := (taken.isRead plain).length_eq_one mem (by simp [isHinge, separator])
  rw [parts, List.length_append] at one
  have := List.length_pos_iff.mpr nx
  have := List.length_pos_iff.mpr ny
  omega

end

/-- White space in a plain text is a gap. -/
theorem isGap_of_isBlank (h : Itemized s items) (plain : ArePlain (items.map RowItem.word)) :
    ∀ c ∈ s, Text.isBlank c → isGap c := by
  induction h with
  | nil hg => exact fun c hc _ => hg c hc
  | last _ _ he => exact absurd he (Bool.eq_false_iff.mp (endsRow_of_isPlain plain.head))
  | cons hg taken _ _ ih =>
      intro c hc blank
      simp only [List.mem_append] at hc
      rcases hc with (gap | text) | behind
      · exact hg c gap
      · exact absurd blank ((taken.isRead plain.head).not_isBlank c text)
      · exact ih plain.tail c behind blank

/-- A plain text begins with an ordinary character behind its gap. -/
theorem isOrdinary_of_head? {c : Char} (h : Itemized s items)
    (plain : ArePlain (items.map RowItem.word)) (hc : c ∈ (s.dropWhile isGap).head?) :
    IsOrdinary c := by
  have first {gap text behind : Text} {k : Lexeme} (hg : ∀ c ∈ gap, isGap c)
      (taken : k.Takes text behind) (plain : k.isPlain text)
      (hc : c ∈ ((gap ++ text ++ behind).dropWhile isGap).head?) : IsOrdinary c := by
    rw [taken.dropWhile_append hg] at hc
    obtain ⟨d, more, rfl⟩ := List.exists_cons_of_ne_nil taken.ne_nil
    obtain rfl := Option.some.inj hc
    exact (taken.isRead plain).isOrdinary d (List.mem_cons_self ..)
  cases h with
  | nil hg =>
      rw [List.dropWhile_eq_nil_iff.mpr hg] at hc
      cases hc
  | last hg taken => exact first hg taken plain.head hc
  | cons hg taken => exact first hg taken plain.head hc

/-- The lexemes of a plain text stay where its gaps change. -/
theorem regap (h : Itemized s items) (plain : ArePlain (items.map RowItem.word))
    (other : Regapped isGap behindSeparator b s s') :
    ∃ items', Itemized s' items' ∧ items'.map RowItem.word = items.map RowItem.word := by
  induction h generalizing b s' with
  | nil hg => exact ⟨[], .nil (other.forall_of_gaps hg), rfl⟩
  | last hg taken he =>
      exact absurd he (Bool.eq_false_iff.mp (endsRow_of_isPlain plain.head))
  | @cons gap text behind k items hg taken he rest ih =>
      have whole : k.isPlain text := plain.head
      obtain ⟨gap', behind', rfl, hg', more⟩ := other.exists_of_append taken.ne_nil hg
        (taken.isRead whole).not_isGap fun _ _ => not_behindSeparator taken whole
      obtain ⟨items', itemized, words⟩ := ih plain.tail more
      have taken' := rest.takes_regap plain (fun _ => isBreak_of_isGap) taken more
        (itemized.next_concat_of_apart words plain)
      refine ⟨_, .cons hg' taken' he itemized, ?_⟩
      rw [List.map_cons, List.map_cons, words]
      rfl

/-- A newline behind a plain text is a terminator. -/
theorem newline (h : Itemized s items) (plain : ArePlain (items.map RowItem.word)) :
    ∃ gap, Itemized (s ++ ['\n']) (items ++ [⟨gap, .terminator, ['\n']⟩]) := by
  induction h with
  | @nil gap hg =>
      have taken : terminator.Takes ['\n'] [] := ⟨by simp [next, terminator?], by simp, by simp [isGap]⟩
      have last := Itemized.last hg taken rfl
      rw [List.append_nil] at last
      exact ⟨gap, last⟩
  | last hg taken he =>
      exact absurd he (Bool.eq_false_iff.mp (endsRow_of_isPlain plain.head))
  | @cons gap text behind k items hg taken he rest ih =>
      obtain ⟨gap', itemized⟩ := ih plain.tail
      have taken' : k.Takes text (behind ++ ['\n']) := by
        have more : Regapped isBreak behindSeparator text.getLast? behind (behind ++ ['\n']) :=
          .concat (List.all_eq_true.mp rfl) behind
        apply rest.takes_regap plain (fun _ => id) taken more
        intro equals
        apply rest.next_concat_of_apart rfl plain
        cases behind with
        | nil => cases equals
        | cons c behind => exact equals
      have whole := Itemized.cons hg taken' he itemized
      rw [← List.append_assoc] at whole
      exact ⟨gap', whole⟩

end Itemized

end StyleGuide
