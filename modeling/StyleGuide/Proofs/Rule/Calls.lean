import StyleGuide.Proofs.Contents
import StyleGuide.Rule.Removed

/-! # Tokens of calls

A pair of backticks becomes the tokens of a call. Where a word ends directly at an opening backtick,
the word and the name of the call are one token.
-/

namespace StyleGuide

/-- Whether the token is a word. -/
def Token.isWord (t : Token) : Bool :=
  t.kind == .name || t.kind == .operator && t.text.all Text.isWord

namespace Backticks

variable {isOpen : Bool}

/-- A token that is a backtick. -/
def mark : Token.Kind × Text := (.operator, [backtick])

/-- The tokens `ts'` have a call for each pair of backticks in `ts`. So many opening backticks stand
    directly behind a word, which then ends in the name of the call. -/
inductive Calls : Bool → Nat → List Token → List Token → Prop where
  | nil : Calls false 0 [] []
  | keep {isOpen : Bool} {n : Nat} {t t' : Token} {ts ts' : List Token}
      (same : t'.content = t.content) (other : t.content ≠ mark)
      (apart : isOpen = false → t.isWord → ∀ b ∈ ts.head?, b.content = mark → b.start ≠ t.stop)
      (rest : Calls isOpen n ts ts') : Calls isOpen n (t :: ts) (t' :: ts')
  | close {n : Nat} {t t' : Token} {ts ts' : List Token} (old : t.content = mark)
      (new : t'.content = (.operator, [')'])) (rest : Calls false n ts ts') :
      Calls true n (t :: ts) (t' :: ts')
  | call {n : Nat} {t name bracket : Token} {ts ts' : List Token} (old : t.content = mark)
      (name_eq : name.content = (.name, "repr".toList))
      (bracket_eq : bracket.content = (.operator, ['('])) (rest : Calls true n ts ts') :
      Calls false n (t :: ts) (name :: bracket :: ts')
  | merge {n : Nat} {t b name bracket : Token} {ts ts' : List Token} (word : t.isWord)
      (old : b.content = mark) (meets : b.start = t.stop)
      (bracket_eq : bracket.content = (.operator, ['('])) (rest : Calls true n ts ts') :
      Calls false (n + 1) (t :: b :: ts) (name :: bracket :: ts')

/-- What the tokens say with the tokens of a call for each pair of backticks. -/
def withCalls (isOpen : Bool) : List (Token.Kind × Text) → List (Token.Kind × Text)
  | [] => []
  | w :: ws =>
    if w = mark then
      if isOpen then (.operator, [')']) :: withCalls false ws
      else (.name, "repr".toList) :: (.operator, ['(']) :: withCalls true ws
    else w :: withCalls isOpen ws

theorem content_ne_mark {t : Token} (h : t.isWord) : t.content ≠ mark := by
  intro same
  obtain ⟨kind, text⟩ := Prod.mk.inj same
  rw [Token.isWord, kind, text] at h
  exact absurd h (by decide)

namespace Calls

variable {n : Nat} {ts ts' es es' : List Token}

/-- Where no opening backtick stands behind a word, each pair of backticks becomes the tokens of a
    call. -/
theorem map_content (h : Calls isOpen n ts ts') (none : n = 0) :
    ts'.map Token.content = withCalls isOpen (ts.map Token.content) := by
  induction h with
  | nil => rfl
  | keep same other _ _ ih => rw [List.map_cons, List.map_cons, withCalls, if_neg other, same, ih none]
  | close old new _ ih =>
      rw [List.map_cons, List.map_cons, withCalls, if_pos old, if_pos rfl, new, ih none]
  | call old name bracket _ ih =>
      rw [List.map_cons, List.map_cons, List.map_cons, withCalls, if_pos old, if_neg Bool.false_ne_true,
        name, bracket, ih none]
  | merge => cases none

/-- Each word that takes in a name is a token less. -/
theorem length_add (h : Calls isOpen n ts ts') :
    ts'.length + n = (withCalls isOpen (ts.map Token.content)).length := by
  induction h with
  | nil => rfl
  | keep _ other _ _ ih =>
      rw [List.map_cons, withCalls, if_neg other, List.length_cons, List.length_cons, ← ih,
        Nat.add_right_comm]
  | close old _ _ ih =>
      rw [List.map_cons, withCalls, if_pos old, if_pos rfl, List.length_cons, List.length_cons, ← ih,
        Nat.add_right_comm]
  | call old _ _ _ ih =>
      rw [List.map_cons, withCalls, if_pos old, if_neg Bool.false_ne_true]
      simp only [List.length_cons, ← ih]
      omega
  | merge word old _ _ _ ih =>
      rw [List.map_cons, withCalls, if_neg (content_ne_mark word), List.map_cons, withCalls,
        if_pos old, if_neg Bool.false_ne_true]
      simp only [List.length_cons, ← ih]
      omega

/-- The tokens are those with the tokens of calls exactly if no opening backtick stands directly
    behind a word. -/
theorem map_content_iff (h : Calls isOpen n ts ts') :
    ts'.map Token.content = withCalls isOpen (ts.map Token.content) ↔ n = 0 := by
  refine ⟨fun same => ?_, h.map_content⟩
  have length := congrArg List.length same
  rw [List.length_map, ← h.length_add] at length
  omega

/-- An opening backtick stands directly behind a word, where `isOpen` says whether a pair has been
    opened before the tokens. -/
def Meets (isOpen : Bool) (ts : List Token) : Prop :=
  ∃ before t b behind, ts = before ++ t :: b :: behind ∧ t.isWord ∧ b.content = mark ∧
    b.start = t.stop ∧ (before.countP (·.content = mark) + isOpen.toNat) % 2 = 0

theorem meets_cons_iff {t : Token} : Meets isOpen (t :: ts) ↔
    (isOpen = false ∧ t.isWord ∧ ∃ b ∈ ts.head?, b.content = mark ∧ b.start = t.stop) ∨
      Meets (if t.content = mark then !isOpen else isOpen) ts := by
  have parity (before : List Token) :
      ((t :: before).countP (·.content = mark) + isOpen.toNat) % 2 =
        (before.countP (·.content = mark) +
          (if t.content = mark then !isOpen else isOpen).toNat) % 2 := by
    rw [List.countP_cons]
    by_cases old : t.content = mark <;> cases isOpen <;> simp [old, Nat.add_assoc]
  constructor
  · rintro ⟨before, u, b, behind, eq, word, old, meets, even⟩
    cases before with
    | nil =>
        obtain ⟨rfl, rfl⟩ := List.cons.inj eq
        refine .inl ⟨?_, word, b, rfl, old, meets⟩
        cases isOpen with
        | false => rfl
        | true => cases even
    | cons x before =>
        obtain ⟨rfl, rfl⟩ := List.cons.inj eq
        exact .inr ⟨before, u, b, behind, rfl, word, old, meets, (parity before).symm.trans even⟩
  · rintro (⟨rfl, word, b, first, old, meets⟩ | ⟨before, u, b, behind, rfl, word, old, meets, even⟩)
    · obtain ⟨behind, rfl⟩ := List.head?_eq_some_iff.mp first
      exact ⟨[], t, b, behind, rfl, word, old, meets, rfl⟩
    · exact ⟨t :: before, u, b, behind, rfl, word, old, meets, (parity before).trans even⟩

instance decidableMeets : (isOpen : Bool) → (ts : List Token) → Decidable (Meets isOpen ts)
  | _, [] => .isFalse fun ⟨_, _, _, _, eq, _⟩ =>
      List.cons_ne_nil _ _ (List.append_eq_nil_iff.mp eq.symm).2
  | isOpen, t :: ts =>
      have := decidableMeets (if t.content = mark then !isOpen else isOpen) ts
      decidable_of_iff _ meets_cons_iff.symm

theorem eq_zero_iff (h : Calls isOpen n ts ts') : n = 0 ↔ ¬Meets isOpen ts := by
  induction h with
  | nil =>
      refine iff_of_true rfl ?_
      rintro ⟨before, t, b, behind, eq, -⟩
      exact List.cons_ne_nil _ _ (List.append_eq_nil_iff.mp eq.symm).2
  | keep _ other apart _ ih =>
      rw [meets_cons_iff, if_neg other, not_or, ← ih]
      refine ⟨fun none => ⟨?_, none⟩, And.right⟩
      rintro ⟨closed, word, b, first, old, meets⟩
      exact apart closed word b first old meets
  | close old _ _ ih =>
      rw [meets_cons_iff, if_pos old, Bool.not_true, not_or, ← ih]
      exact ⟨fun none => ⟨fun closed => absurd closed.1 (by decide), none⟩, And.right⟩
  | call old _ _ _ ih =>
      rw [meets_cons_iff, if_pos old, Bool.not_false, not_or, ← ih]
      exact ⟨fun none => ⟨fun closed => content_ne_mark closed.2.1 old, none⟩, And.right⟩
  | merge word old meets =>
      rw [meets_cons_iff]
      exact iff_of_false (Nat.succ_ne_zero _) fun none => none (.inl ⟨rfl, word, _, rfl, old, meets⟩)

/-- Tokens that are neither words nor backticks stay in front of the others. -/
theorem prepend (h : Calls isOpen n ts ts') (same : es'.map Token.content = es.map Token.content)
    (plain : ∀ t ∈ es, ¬t.isWord ∧ t.content ≠ mark) : Calls isOpen n (es ++ ts) (es' ++ ts') := by
  induction es generalizing es' with
  | nil =>
      obtain rfl := List.map_eq_nil_iff.mp same
      exact h
  | cons t es ih =>
      obtain ⟨t', es', rfl, first, rest⟩ := List.map_eq_cons_iff.mp same
      obtain ⟨here, plain⟩ := List.forall_mem_cons.mp plain
      exact .keep first here.2 (fun _ word => absurd word here.1) (ih rest plain)

/-- Tokens that are neither words nor backticks stay behind the others. -/
theorem append (h : Calls isOpen n ts ts') (same : es'.map Token.content = es.map Token.content)
    (plain : ∀ t ∈ es, ¬t.isWord ∧ t.content ≠ mark) : Calls isOpen n (ts ++ es) (ts' ++ es') := by
  induction h with
  | nil =>
      have all := Calls.nil.prepend same plain
      rwa [List.append_nil, List.append_nil] at all
  | @keep _ _ t _ ts _ content other apart _ ih =>
      refine .keep content other (fun closed word b first => ?_) ih
      cases ts with
      | nil => exact fun old => absurd old (plain b (List.mem_of_mem_head? first)).2
      | cons u ts => exact apart closed word b first
  | close old new _ ih => exact .close old new ih
  | call old name bracket _ ih => exact .call old name bracket ih
  | merge word old meets bracket _ ih => exact .merge word old meets bracket ih

end Calls

end Backticks

end StyleGuide
