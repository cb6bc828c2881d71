import Mathlib.Data.List.TakeWhile
import StyleGuide.Proofs.Text.Word
import StyleGuide.Rule.Removed

/-! # Statements that raise an exception

The word, a gap, a name and a comma make a statement that raises an exception with an argument. A
call of the exception is no such statement.
-/

namespace StyleGuide

namespace RaiseComma

variable {gap name before rest s : Text} {r : Raise}

/-- What stands behind the name decides whether there is an argument. -/
theorem parse?_eq_some_iff (some : gap ≠ []) (blank : ∀ c ∈ gap, Text.isBlank c) (named : name ≠ [])
    (word : ∀ c ∈ name, Text.isWord c) (stop : ∀ c ∈ rest.head?, ¬Text.isWord c) :
    parse? ("raise".toList ++ (gap ++ (name ++ rest))) = .some r ↔
      ∃ behind, rest.dropWhile Text.isBlank = ',' :: behind ∧ r = {
        head := "raise".toList ++ gap
        exception := name
        argument := (Text.trimStart behind).takeWhile (· != '\n')
        rest := Text.trimStart ((Text.trimStart behind).dropWhile (· != '\n')) } := by
  have front : (gap ++ (name ++ rest)).takeWhile Text.isBlank = gap := by
    rw [List.takeWhile_append_of_pos blank]
    cases name with
    | nil => exact absurd rfl named
    | cons c name =>
        have solid : ¬Text.isBlank c := fun h =>
          Text.not_isWord_of_isBlank h (word c (List.mem_cons_self ..))
        rw [List.cons_append, List.takeWhile_cons_of_neg solid, List.append_nil]
  have middle : (name ++ rest).takeWhile Text.isWord = name := by
    rw [List.takeWhile_append_of_pos word]
    cases rest with
    | nil => simp
    | cons c rest => rw [List.takeWhile_cons_of_neg (stop c rfl), List.append_nil]
  have filled : (gap.isEmpty || name.isEmpty) = false := by simp [some, named]
  unfold parse?
  generalize "raise".toList = start
  have whole : start.isPrefixOf (start ++ (gap ++ (name ++ rest))) := by simp
  have behind : (start ++ (gap ++ (name ++ rest))).drop (start ++ gap).length = name ++ rest := by
    rw [← List.append_assoc, List.drop_left]
  simp only [whole, if_true, List.drop_left, front, behind, middle, filled, Bool.false_eq_true,
    if_false]
  split
  · next argument comma =>
      constructor
      · intro found
        exact ⟨argument, comma, (Option.some.inj found).symm⟩
      · rintro ⟨argument', comma', rfl⟩
        obtain ⟨-, rfl⟩ := List.cons.inj (comma.symm.trans comma')
        rfl
  · next other =>
      constructor
      · intro found
        cases found
      · rintro ⟨argument, comma, -⟩
        exact absurd comma (other argument)

/-- A statement with a comma behind the name has the text behind the comma for its argument. -/
theorem parse?_of_comma (some : gap ≠ []) (blank : ∀ c ∈ gap, Text.isBlank c) (named : name ≠ [])
    (word : ∀ c ∈ name, Text.isWord c) (loose : ∀ c ∈ before, Text.isBlank c) (behind : Text) :
    parse? ("raise".toList ++ (gap ++ (name ++ (before ++ ',' :: behind)))) = .some {
      head := "raise".toList ++ gap
      exception := name
      argument := (Text.trimStart behind).takeWhile (· != '\n')
      rest := Text.trimStart ((Text.trimStart behind).dropWhile (· != '\n')) } := by
  have stop : ∀ c ∈ (before ++ ',' :: behind).head?, ¬Text.isWord c := by
    intro c hc
    cases before with
    | nil =>
        obtain rfl := Option.some.inj hc
        decide
    | cons d before =>
        obtain rfl := Option.some.inj hc
        exact Text.not_isWord_of_isBlank (loose _ (List.mem_cons_self ..))
  have comma : (before ++ ',' :: behind).dropWhile Text.isBlank = ',' :: behind := by
    rw [List.dropWhile_append_of_pos loose]
    rfl
  exact (parse?_eq_some_iff some blank named word stop).mpr ⟨behind, comma, rfl⟩

/-- A statement with an argument behind a comma has a name for its exception. -/
theorem exception_of_parse? (h : parse? s = .some r) :
    r.exception ≠ [] ∧ ∀ c ∈ r.exception, Text.isWord c := by
  simp only [parse?] at h
  split at h
  · split at h
    · split at h
      · cases h
      · next filled =>
          obtain rfl := Option.some.inj h
          simp only [Bool.or_eq_true, List.isEmpty_iff, not_or] at filled
          exact ⟨filled.2, fun c hc => List.mem_takeWhile_imp hc⟩
    · cases h
  · cases h

/-- A call that raises an exception has no argument behind a comma. -/
theorem parse?_call (h : parse? s = .some r) : parse? r.call = none := by
  obtain ⟨named, word⟩ := exception_of_parse? h
  let more := '(' :: (r.argument ++ ([')'] ++ r.rest))
  have parts : r.call = "raise".toList ++ ([' '] ++ (r.exception ++ more)) := by
    have spaced : "raise ".toList = "raise".toList ++ [' '] := by simp
    generalize "raise".toList = start at spaced ⊢
    unfold Raise.call
    rw [spaced]
    simp only [more, List.append_assoc, List.cons_append, List.nil_append]
  have blank : ∀ c ∈ [' '], Text.isBlank c := by
    intro c hc
    obtain rfl := List.mem_singleton.mp hc
    rfl
  have stop : ∀ c ∈ more.head?, ¬Text.isWord c := by
    intro c hc
    obtain rfl := Option.some.inj hc
    decide
  have bracket : more.dropWhile Text.isBlank = more := List.dropWhile_cons_of_neg (by decide)
  rw [parts, Option.eq_none_iff_forall_ne_some]
  intro r' found
  obtain ⟨behind, comma, -⟩ := (parse?_eq_some_iff (by simp) blank named word stop).mp found
  obtain ⟨first, -⟩ := List.cons.inj (bracket.symm.trans comma)
  exact absurd first (by decide)

end RaiseComma

end StyleGuide
