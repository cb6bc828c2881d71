import Mathlib.Data.List.Forall2
import StyleGuide.FixedText
import StyleGuide.Proofs.Checker.Step
import StyleGuide.Rule.BlankLines

/-! # Blank lines in front of a statement

The blank lines in front of a statement stand in groups, one in front of each comment before it and
one directly in front of it, and the rules see the widest. The rule for blank lines asks for another
number of them exactly where it finds something, and once the groups have been fitted to this number
it finds nothing any more.
-/

namespace StyleGuide

namespace Comment

variable {comments : List Comment} {own target n : Nat}

/-- The groups of blank lines in front of a statement, the one directly before it at the end. -/
def groups (comments : List Comment) (own : Nat) : List Nat := comments.map blankLines ++ [own]

@[simp] theorem widest_nil : widest [] = 0 := rfl

@[simp] theorem widest_cons (c : Comment) (comments : List Comment) :
    widest (c :: comments) = max c.blankLines (widest comments) := by
  unfold widest
  rw [List.map_cons, List.foldl_cons, max_comm 0, List.foldl_assoc]

@[simp] theorem widest_append (before after : List Comment) :
    widest (before ++ after) = max (widest before) (widest after) := by
  induction before with
  | nil => simp
  | cons c before ih => simp [ih, max_assoc]

theorem widest_le_iff : widest comments ≤ n ↔ ∀ c ∈ comments, c.blankLines ≤ n := by
  induction comments with
  | nil => simp
  | cons c comments ih => rw [widest_cons, Nat.max_le, List.forall_mem_cons, ih]

/-- The widest group is as wide as the rules see it. -/
theorem max_widest_le_iff : max own (widest comments) ≤ n ↔ ∀ m ∈ groups comments own, m ≤ n := by
  rw [Nat.max_le, widest_le_iff, groups, List.forall_mem_append, List.forall_mem_map,
    List.forall_mem_singleton, and_comm]

/-- Cutting numbers down makes none of them larger. -/
theorem forall₂_map_min (target : Nat) (ns : List Nat) :
    List.Forall₂ (· ≤ ·) (ns.map (min · target)) ns := by
  rw [List.forall₂_map_left_iff, List.forall₂_same]
  exact fun n _ => Nat.min_le_left n target

@[simp] theorem map_blankLines_clamp (comments : List Comment) :
    (comments.map (clamp target)).map blankLines = (comments.map blankLines).map (min · target) := by
  rw [List.map_map, List.map_map]
  rfl

/-- Of the comments with the widest group the last gets the number asked for. -/
theorem exists_fitLast (target : Nat) (wide : widest comments = n) (pos : 0 < n) :
    ∃ before c after, comments = before ++ c :: after ∧ c.blankLines = n ∧
      fitLast n target comments = before.map (clamp target) ++
        { c with blankLines := target } :: after.map (clamp target) := by
  induction comments with
  | nil => exact absurd wide (Nat.ne_of_lt pos)
  | cons c comments ih =>
      rw [widest_cons] at wide
      by_cases last : c.blankLines = n ∧ comments.all (fun d => d.blankLines < n)
      · exact ⟨[], c, comments, rfl, last.1, by rw [fitLast, if_pos last]; rfl⟩
      · have later : widest comments = n := by
          by_contra other
          have below : widest comments ≤ n - 1 := by omega
          refine last ⟨by omega, List.all_eq_true.mpr fun d hd => decide_eq_true ?_⟩
          have := widest_le_iff.mp below d hd
          omega
        obtain ⟨before, d, after, rfl, most, fitted⟩ := ih later
        exact ⟨c :: before, d, after, rfl, most, by rw [fitLast, if_neg last, fitted]; rfl⟩

/-- Fitting sets one of the widest groups to the number asked for, and cuts all others down to
    it. -/
theorem groups_fit (comments : List Comment) (own target : Nat) :
    ∃ before n after, groups comments own = before ++ n :: after ∧
      (∀ m ∈ groups comments own, m ≤ n) ∧
      groups (fit comments own target).1 (fit comments own target).2 =
        before.map (min · target) ++ target :: after.map (min · target) := by
  rw [fit]
  split
  · next wide =>
      obtain ⟨before, c, after, parts, most, fitted⟩ :=
        exists_fitLast target rfl (Nat.zero_lt_of_lt wide)
      refine ⟨before.map blankLines, c.blankLines, after.map blankLines ++ [own], ?_, ?_, ?_⟩
      · simp [groups, parts]
      · intro m hm
        rw [most]
        rcases List.mem_append.mp hm with hm | hm
        · obtain ⟨d, hd, rfl⟩ := List.mem_map.mp hm
          exact widest_le_iff.mp (Nat.le_refl _) d hd
        · obtain rfl := List.mem_singleton.mp hm
          exact Nat.le_of_lt wide
      · rw [fitted]
        simp [groups, Function.comp_def, clamp]
  · next wide =>
      refine ⟨comments.map blankLines, own, [], rfl, ?_, ?_⟩
      · intro m hm
        rcases List.mem_append.mp hm with hm | hm
        · obtain ⟨d, hd, rfl⟩ := List.mem_map.mp hm
          exact widest_le_iff.mp (Nat.le_of_not_lt wide) d hd
        · exact Nat.le_of_eq (List.mem_singleton.mp hm)
      · simp [groups, Function.comp_def, clamp]

end Comment

namespace BlankLines

variable {ctx : StatementContext} {target own widest : Nat}

/-- The rule finds something exactly where it asks for another number of blank lines. -/
theorem isSome_check (ctx : StatementContext) : (check ctx).isSome = (target? ctx).isSome := by
  simp only [check, target?]
  by_cases first : ctx.row = 1
  · rw [if_pos first, if_pos first]
    rfl
  rw [if_neg first, if_neg first]
  by_cases decorated : isDecorator ctx.previous
  · rw [if_pos decorated, if_pos decorated]
    split <;> rfl
  rw [if_neg decorated, if_neg decorated]
  -- two blank lines are too many inside a block only
  have tooMany : (if 0 < ctx.indentLevel then 1 else 2) < count ctx ↔
      2 < count ctx ∨ (0 < ctx.indentLevel ∧ count ctx = 2) := by
    split <;> omega
  by_cases wide : 2 < count ctx ∨ (0 < ctx.indentLevel ∧ count ctx = 2)
  · rw [if_pos wide, if_pos (tooMany.mpr wide)]
    rfl
  rw [if_neg wide, if_neg (mt tooMany.mp wide)]
  split
  · rfl
  · split
    · split <;> rfl
    · split <;> rfl

/-- The most blank lines that a statement may have in front of it. -/
def most (ctx : StatementContext) : Nat :=
  if isDecorator ctx.previous then 0 else if 0 < ctx.indentLevel then 1 else 2

/-- Whether the rule asks for fewer blank lines or for more, it asks for as many as there may be. -/
theorem eq_most_of_target? (asked : target? ctx = some target) : target = most ctx := by
  simp only [target?] at asked
  split at asked
  · cases asked
  split at asked
  · next decorated =>
      split at asked
      · rw [most, if_pos decorated]
        exact (Option.some.inj asked).symm
      · cases asked
  next plain =>
  rw [most, if_neg plain]
  by_cases inside : 0 < ctx.indentLevel
  · simp only [if_pos inside] at asked ⊢
    split at asked
    · exact (Option.some.inj asked).symm
    split at asked
    · cases asked
    split at asked
    · cases asked
    · exact (Option.some.inj asked).symm
  · simp only [if_neg inside] at asked ⊢
    split at asked
    · exact (Option.some.inj asked).symm
    split at asked
    · cases asked
    split at asked
    · cases asked
    · exact (Option.some.inj asked).symm

/-- A statement with as many blank lines as there may be is fine. -/
theorem check_of_count (full : count ctx = most ctx) : check ctx = none := by
  simp only [most] at full
  simp only [check]
  split
  · rfl
  split
  · next decorated =>
      rw [if_pos decorated] at full
      rw [full, if_neg (Nat.lt_irrefl 0)]
  next plain =>
  rw [if_neg plain] at full
  by_cases inside : 0 < ctx.indentLevel
  · rw [if_pos inside] at full
    have optional : isOptional ctx := by simp [isOptional, full]
    rw [if_neg (by omega), if_pos inside, if_pos optional, ite_self]
  · rw [if_neg inside] at full
    rw [if_neg (by omega), if_neg inside, if_pos full, ite_self]

end BlankLines

open Comment in
/-- The rule for blank lines finds something exactly if it asks for another number of blank lines.
    Fitted to this number, the comments before the statement keep their number, order and texts, no
    group of blank lines is wider and one has exactly this number, and only a widest group can have
    become wider. The rule then finds nothing. -/
theorem blankLines_fitted (ctx : StatementContext) :
    ((BlankLines.check ctx).isSome ↔
      ∃ description target, BlankLines.fix ctx = some ⟨description, .blankLines target⟩) ∧
    ∀ description target, BlankLines.fix ctx = some ⟨description, .blankLines target⟩ →
      ∀ (own : Nat) (comments comments' : List Comment) (own' : Nat),
        fit comments own target = (comments', own') →
        comments'.map text = comments.map text ∧
        (∀ n ∈ groups comments' own', n ≤ target) ∧
        max own' (widest comments') = target ∧
        (∃ before n after before' n' after', groups comments own = before ++ n :: after ∧
          (∀ m ∈ groups comments own, m ≤ n) ∧
          groups comments' own' = before' ++ n' :: after' ∧
          List.Forall₂ (· ≤ ·) before' before ∧ List.Forall₂ (· ≤ ·) after' after) ∧
        BlankLines.check { ctx with
          blankLines := own', blankLinesBeforeComment := widest comments' } = none := by
  constructor
  · rw [BlankLines.isSome_check, BlankLines.fix]
    constructor
    · intro asked
      obtain ⟨target, eq⟩ := Option.isSome_iff_exists.mp asked
      exact ⟨_, target, by rw [eq]; rfl⟩
    · rintro ⟨description, target, eq⟩
      obtain ⟨n, asked, -⟩ := Option.map_eq_some_iff.mp eq
      exact Option.isSome_iff_exists.mpr ⟨n, asked⟩
  · intro description target fixed own comments comments' own' eq
    obtain ⟨n, asked, edit⟩ := Option.map_eq_some_iff.mp fixed
    obtain rfl : n = target := by simpa using congrArg Fix.edit edit
    obtain ⟨before, m, after, parts, most, parts'⟩ := groups_fit comments own n
    have texts := map_text_fit comments own n
    simp only [eq] at parts' texts
    have bounded : ∀ k ∈ groups comments' own', k ≤ n := by
      rw [parts', List.forall_mem_append, List.forall_mem_cons, List.forall_mem_map,
        List.forall_mem_map]
      exact ⟨fun k _ => Nat.min_le_right k n, Nat.le_refl n, fun k _ => Nat.min_le_right k n⟩
    have reached : n ∈ groups comments' own' := by
      rw [parts']
      exact List.mem_append_right _ (List.mem_cons_self ..)
    have full : max own' (widest comments') = n := Nat.le_antisymm
      (max_widest_le_iff.mpr bounded) (max_widest_le_iff.mp (Nat.le_refl _) n reached)
    refine ⟨texts, bounded, full, ⟨before, m, after, _, n, _, parts, most, parts',
      forall₂_map_min n before, forall₂_map_min n after⟩, BlankLines.check_of_count ?_⟩
    have allowed : n = BlankLines.most ctx := BlankLines.eq_most_of_target? asked
    exact full.trans allowed

/-- Four blank lines in front of the second of three comments and of a definition are fitted. -/
theorem blankLines_fitted_second :
    let ctx : StatementContext := {
      text := "def f():".toList
      tokens := [], indentChar := none, row := 9, indentLevel := 0, previousIndentLevel := 0
      previous := "x = 1".toList, blankLines := 1, blankLinesBeforeComment := 4 }
    let comments : List Comment := [⟨1, "# a".toList⟩, ⟨4, "# b".toList⟩, ⟨0, "# c".toList⟩]
    ∃ comments' own', BlankLines.fix ctx =
        some ⟨"blank lines before statement adjusted.", .blankLines 2⟩ ∧
      Comment.fit comments 1 2 = (comments', own') ∧ max own' (Comment.widest comments') = 2 ∧
      BlankLines.check { ctx with
        blankLines := own', blankLinesBeforeComment := Comment.widest comments' } = none := by
  intro ctx comments
  have fixed : BlankLines.fix ctx =
      some ⟨"blank lines before statement adjusted.", .blankLines 2⟩ := by decide
  obtain ⟨-, -, full, -, silent⟩ :=
    (blankLines_fitted ctx).2 _ 2 fixed 1 comments _ _ rfl
  exact ⟨_, _, fixed, rfl, full, silent⟩

end StyleGuide
