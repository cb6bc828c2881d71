import StyleGuide.Proofs.Lexeme.Skim
import StyleGuide.Proofs.Lexeme.Unended
import StyleGuide.Proofs.Text.Respacing
import StyleGuide.Proofs.Text.Trim

/-! # White space at the end of a row

What a row leaves open does not depend on the white space at its end, as long as a newline ends it:
no bracket, quote mark or comment hides in white space, and a backslash joins its row only if the
end of the row comes next.
-/

namespace StyleGuide

open Lexeme

section Prefix

variable {x t a : Text} {c : Char}

theorem not_isBlank_of_isQuote (h : isQuote c) : ¬Text.isBlank c := fun blank =>
  not_isFirm_of_isBlank blank (isFirm_of_isQuote h)

/-- What is free of white space stands in front of the white space at the end. -/
theorem prefix_append_blank_iff (free : ∀ c ∈ a, ¬Text.isBlank c) (blank : ∀ c ∈ t, Text.isBlank c) :
    a <+: x ++ t ↔ a <+: x := by
  refine ⟨fun h => ?_, fun h => h.trans (List.prefix_append x t)⟩
  rcases List.prefix_or_prefix_of_prefix h (List.prefix_append x t) with sub | ⟨b, rfl⟩
  · exact sub
  · cases b with
    | nil => exact ⟨[], by simp⟩
    | cons c b =>
        obtain ⟨more, eq⟩ := (List.prefix_append_right_inj x).mp h
        exact absurd (blank c (by simp [← eq])) (free c (by simp))

theorem delimiter?_blank_end (ne : x ≠ []) {t' : Text} (blank : ∀ c ∈ t, Text.isBlank c)
    (blank' : ∀ c ∈ t', Text.isBlank c) : delimiter? (x ++ t) = delimiter? (x ++ t') := by
  obtain ⟨c, x, rfl⟩ := List.exists_cons_of_ne_nil ne
  simp only [List.cons_append, delimiter?]
  by_cases quote : isQuote c
  · have free : ∀ d ∈ [c, c], ¬Text.isBlank d := by
      intro d hd
      have same : d = c := by simpa using hd
      exact same ▸ not_isBlank_of_isQuote quote
    have same : [c, c].isPrefixOf (x ++ t) = [c, c].isPrefixOf (x ++ t') := by
      rw [Bool.eq_iff_iff, List.isPrefixOf_iff_prefix, List.isPrefixOf_iff_prefix,
        prefix_append_blank_iff free blank, prefix_append_blank_iff free blank']
    rw [same]
  · simp [quote]

end Prefix

section Closing

variable {x t : Text} {q : Delimiter} {n : Nat}

/-- A literal that is closed on the row is closed in front of the white space at its end. -/
theorem closing?_of_blank_end (hq : isQuote q.mark) (blank : ∀ c ∈ t, Text.isBlank c)
    (h : q.closing? (x ++ t) = some n) :
    n ≤ x.length ∧ ∀ t', q.closing? (x ++ t') = some n := by
  obtain ⟨body, behind, whole, length, -⟩ := Delimiter.exists_of_closing? h
  obtain ⟨marks, text⟩ := q.text_eq_append
  have le : n ≤ x.length := by
    -- the delimiter ends in a quote mark, which is no white space
    by_contra out
    have mark : (x ++ t)[n - 1]? = some q.mark := by
      rw [whole, length, text]
      simp
    rw [List.getElem?_append_right (by omega)] at mark
    exact not_isBlank_of_isQuote hq (blank _ (List.mem_of_getElem? mark))
  refine ⟨le, fun t' => ?_⟩
  have front : (x.take n).length = n := by rw [List.length_take, Nat.min_eq_left le]
  rw [← List.take_append_drop n x, List.append_assoc] at h ⊢
  conv at h => rhs; rw [← front]
  have := closing?_append hq h (x.drop n ++ t')
  rwa [front] at this

theorem closing?_eq_none_of_blank_end (hq : isQuote q.mark) {t' : Text}
    (blank : ∀ c ∈ t', Text.isBlank c) (missing : q.closing? (x ++ t) = none) :
    q.closing? (x ++ t') = none := by
  cases h : q.closing? (x ++ t') with
  | none => rfl
  | some n =>
      rw [(closing?_of_blank_end hq blank h).2 t] at missing
      cases missing

end Closing

section RunsOn

variable {t : Text} {m : Char}

theorem runsOn_cons {c : Char} (hc : c ≠ '\\') (s : Text) :
    runsOn m (c :: s) = (c != m && c != '\n' && runsOn m s) := by
  have plain : (c != '\\') = true := by simpa using hc
  rw [runsOn, plain, Bool.and_true]
  all_goals
    intros
    exact absurd ‹_› hc

theorem runsOn_pair {s : Text} {c : Char} (h : runsOn m ('\\' :: c :: s)) :
    c :: s = ['\n'] ∨ c :: s = ['\r', '\n'] ∨ runsOn m s := by
  by_cases one : c :: s = ['\n']
  · exact .inl one
  by_cases two : c :: s = ['\r', '\n']
  · exact .inr (.inl two)
  rw [runsOn] at h
  · exact .inr (.inr h)
  all_goals
    intros
    simp_all

theorem runsOn_backslash {s : Text} (h : runsOn m s) (c : Char) : runsOn m ('\\' :: c :: s) := by
  by_cases two : c :: s = ['\r', '\n']
  · rw [two]
    rfl
  by_cases one : c :: s = ['\n']
  · rw [one]
    rfl
  rw [runsOn]
  · exact h
  all_goals
    intros
    simp_all

/-- Only a row with a backslash runs on. -/
theorem mem_of_runsOn {s : Text} (h : runsOn m s) : '\\' ∈ s := by
  fun_induction runsOn m s with
  | case1 | case2 | case3 => simp
  | case4 c rest _ _ _ ih =>
      simp only [Bool.and_eq_true] at h
      exact List.mem_cons_of_mem c (ih h.2)
  | case5 => cases h

/-- A row that runs on ends in a backslash and a newline. -/
theorem runsOn_of_blank_end {x : Text} (h : runsOn m (x ++ t)) (blank : ∀ c ∈ t, Text.isBlank c)
    (last : x.getLast? ≠ some '\n') : runsOn m (x ++ ['\n']) := by
  have front : x ≠ [] := by
    rintro rfl
    exact absurd (blank _ (mem_of_runsOn h)) (by decide)
  match x with
  | [] => exact absurd rfl front
  | [c] =>
      by_cases backslash : c = '\\'
      · rw [backslash]
        rfl
      · rw [List.cons_append, runsOn_cons backslash, Bool.and_eq_true] at h
        exact absurd (blank _ (mem_of_runsOn h.2)) (by decide)
  | c :: d :: x =>
      have last' : (d :: x).getLast? ≠ some '\n' := by simpa using last
      by_cases backslash : c = '\\'
      · subst backslash
        have behind : x.getLast? ≠ some '\n' := by
          cases x with
          | nil => nofun
          | cons e x => simpa using last
        rcases runsOn_pair h with one | two | more
        · obtain ⟨rfl, none⟩ := List.cons.inj one
          obtain ⟨rfl, -⟩ := List.append_eq_nil_iff.mp none
          exact absurd rfl last'
        · obtain ⟨rfl, rest⟩ := List.cons.inj two
          obtain ⟨rfl, -⟩ | ⟨rfl, -⟩ := List.append_eq_singleton_iff.mp rest
          · rfl
          · exact absurd rfl behind
        · exact runsOn_backslash (runsOn_of_blank_end more blank behind) d
      · rw [List.cons_append, runsOn_cons backslash, Bool.and_eq_true] at h ⊢
        exact ⟨h.1, runsOn_of_blank_end h.2 blank last'⟩

end RunsOn

section Skim

variable {x t : Text} {d : Nat} {p : Pause}

theorem not_isFraming_of_isBlank {c : Char} (blank : Text.isBlank c) (return_ : c ≠ '\r')
    (newline : c ≠ '\n') : ¬isFraming c ∧ ¬isBracket c := by
  constructor
  · simp only [isFraming, Bool.or_eq_true, beq_iff_eq, return_, newline, or_false]
    rintro ((quote | rfl) | rfl)
    · exact not_isBlank_of_isQuote quote blank
    · exact absurd blank (by decide)
    · exact absurd blank (by decide)
  · simp only [isBracket, isOpening, isClosing, Bool.or_eq_true, beq_iff_eq]
    rintro (((rfl | rfl) | rfl) | (rfl | rfl) | rfl) <;> exact absurd blank (by decide)

/-- White space leaves nothing open. -/
theorem skim_of_blank (blank : ∀ c ∈ t, Text.isBlank c) (d : Nat) : skim d t = some ⟨d, .plain⟩ := by
  induction t with
  | nil => rw [skim]
  | cons c t ih =>
      obtain ⟨hc, rest⟩ := List.forall_mem_cons.mp blank
      by_cases ends : (terminator? (c :: t)).isSome
      · exact skim_terminator ends d
      · by_cases return_ : c = '\r'
        · subst return_
          rw [skim_return (by simpa using ends), ih rest]
        · have newline : c ≠ '\n' := by
            rintro rfl
            exact ends rfl
          obtain ⟨plain, other⟩ := not_isFraming_of_isBlank hc return_ newline
          rw [skim_cons plain, depthAfter?_of_not_isBracket other, Option.bind_some, ih rest]

/-- The end of a row is found where it was. -/
theorem terminator?_of_blank_end (ne : x ≠ []) (h : (terminator? (x ++ t)).isSome) :
    (terminator? (x ++ ['\n'])).isSome := by
  obtain ⟨c, x, rfl⟩ := List.exists_cons_of_ne_nil ne
  rw [List.cons_append] at h
  unfold terminator? at h
  split at h
  · next eq =>
      obtain ⟨rfl, -⟩ := List.cons.inj eq
      rfl
  · next behind eq =>
      obtain ⟨rfl, rest⟩ := List.cons.inj eq
      cases x with
      | nil => rfl
      | cons e x =>
          obtain ⟨rfl, -⟩ := List.cons.inj rest
          rfl
  · cases h

theorem getLast?_ne_of_suffix {y : Text} {c : Char} (last : (c :: x).getLast? ≠ some '\n')
    (sub : y <:+ x) : y.getLast? ≠ some '\n' := by
  obtain ⟨z, rfl⟩ := sub
  intro ends
  rw [← List.cons_append, List.getLast?_append, ends] at last
  exact last rfl

theorem isBlank_newline : ∀ c ∈ ['\n'], Text.isBlank c := List.forall_mem_singleton.mpr (by decide)

/-- A literal on the row, where what is behind it may lose the white space at its end. -/
theorem skim_of_blank_end_quote {c : Char} (quote : isQuote c) (h : skim d (c :: x ++ t) = some p)
    (blank : ∀ c ∈ t, Text.isBlank c) (last : (c :: x).getLast? ≠ some '\n')
    (shorter : ∀ y, y <:+ x → skim d (y ++ t) = some p → skim d (y ++ ['\n']) = some p) :
    skim d (c :: x ++ ['\n']) = some p := by
  obtain ⟨q, opens⟩ : ∃ q, delimiter? (c :: x ++ t) = some q := by simp [delimiter?, quote]
  have opens' := (delimiter?_blank_end (by simp) blank isBlank_newline).symm.trans opens
  obtain ⟨rest, whole, hq⟩ := exists_of_delimiter? opens
  have free : ∀ e ∈ q.text, ¬Text.isBlank e := by
    intro e he
    have same : e = q.mark := by
      unfold Delimiter.text at he
      split at he <;> simpa using he
    exact same ▸ not_isBlank_of_isQuote hq
  obtain ⟨y, eq⟩ := (prefix_append_blank_iff free blank).mp ⟨rest, whole.symm⟩
  have sub : y <:+ x := by
    obtain ⟨more, text⟩ := q.exists_cons
    rw [text, List.cons_append] at eq
    exact ⟨more, (List.cons.inj eq).2⟩
  rw [← eq, List.append_assoc] at h opens opens' ⊢
  rw [skim_quote opens] at h
  rw [skim_quote opens']
  cases closes : q.closing? (y ++ t) with
  | some n =>
      obtain ⟨le, same⟩ := closing?_of_blank_end hq blank closes
      rw [closes] at h
      rw [same]
      dsimp only at h ⊢
      rw [List.drop_append_of_le_length le] at h ⊢
      exact shorter _ ((List.drop_suffix n y).trans sub) h
  | none =>
      rw [closes] at h
      rw [closing?_eq_none_of_blank_end hq isBlank_newline closes]
      dsimp only at h ⊢
      split at h
      · next goes =>
          rw [if_pos, h]
          exact Bool.or_eq_true_iff.mpr ((Bool.or_eq_true_iff.mp goes).imp_right
            fun goes => runsOn_of_blank_end goes blank (getLast?_ne_of_suffix last sub))
      · cases h

/-- A carriage return that does not end its row counts for nothing. -/
theorem skim_of_blank_end_return (h : skim d ('\r' :: x ++ t) = some p)
    (blank : ∀ c ∈ t, Text.isBlank c) (inner : ¬(terminator? ('\r' :: x ++ t)).isSome)
    (shorter : skim d (x ++ t) = some p → skim d (x ++ ['\n']) = some p) :
    skim d ('\r' :: x ++ ['\n']) = some p := by
  rw [List.cons_append, skim_return (by simpa using inner)] at h
  cases x with
  | nil =>
      rw [List.nil_append, skim_of_blank blank] at h
      rw [skim_of_blank (List.forall_mem_append.mpr
        ⟨List.forall_mem_singleton.mpr (by decide), isBlank_newline⟩), h]
  | cons e x =>
      have inner' : terminator? ('\r' :: (e :: x ++ ['\n'])) = none := by
        unfold terminator?
        split
        · next eq => simp at eq
        · next eq =>
            simp only [List.cons_append, List.cons.injEq, true_and] at eq
            rw [eq.1] at inner
            exact absurd rfl inner
        · rfl
      rw [List.cons_append, skim_return inner']
      exact shorter h

/-- White space at the end of a row may go if a newline comes. -/
theorem skim_of_blank_end (h : skim d (x ++ t) = some p) (blank : ∀ c ∈ t, Text.isBlank c)
    (last : x.getLast? ≠ some '\n') : skim d (x ++ ['\n']) = some p := by
  induction hn : x.length using Nat.strongRecOn generalizing x d with
  | ind n ih =>
  subst hn
  cases x with
  | nil =>
      rw [List.nil_append, skim_of_blank blank] at h
      rw [List.nil_append, skim_of_blank isBlank_newline, h]
  | cons c x =>
      have shorter (y : Text) (sub : y <:+ x) {d : Nat} (h : skim d (y ++ t) = some p) :
          skim d (y ++ ['\n']) = some p :=
        ih y.length (Nat.lt_succ_of_le sub.length_le) h (getLast?_ne_of_suffix last sub) rfl
      by_cases quote : isQuote c
      · exact skim_of_blank_end_quote quote h blank last fun y sub => shorter y sub
      by_cases hash : c = '#'
      · subst hash
        rw [List.cons_append, skim_comment, List.dropWhile_append] at h ⊢
        split at h
        · rw [skim_of_blank fun e he => blank e ((List.dropWhile_sublist _).subset he)] at h
          rw [if_pos ‹_›, ← h]
          exact skim_of_blank isBlank_newline d
        · rw [if_neg ‹_›]
          exact shorter _ (List.dropWhile_suffix _) h
      by_cases ends : (terminator? (c :: x ++ t)).isSome
      · rw [skim_terminator ends] at h
        rw [skim_terminator (terminator?_of_blank_end (by simp) ends), h]
      by_cases backslash : c = '\\'
      · subst backslash
        have joins : (terminator? (x ++ t)).isSome := by
          by_contra none
          rw [List.cons_append, skim_backslash (by simpa using none)] at h
          cases h
        have joins' : (terminator? (x ++ ['\n'])).isSome := by
          cases x with
          | nil => rfl
          | cons e x => exact terminator?_of_blank_end (by simp) joins
        rw [List.cons_append, skim_joint joins] at h
        rw [List.cons_append, skim_joint joins', h]
      by_cases return_ : c = '\r'
      · subst return_
        exact skim_of_blank_end_return h blank ends (shorter x List.suffix_rfl)
      have newline : c ≠ '\n' := by
        rintro rfl
        exact ends rfl
      have plain : ¬isFraming c := by
        simp [isFraming, quote, hash, backslash, return_, newline]
      rw [List.cons_append, skim_cons plain] at h ⊢
      obtain ⟨depth, hd, h⟩ := Option.bind_eq_some_iff.mp h
      rw [hd]
      exact shorter x List.suffix_rfl h

end Skim

end StyleGuide
