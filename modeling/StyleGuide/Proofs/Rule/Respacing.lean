import Mathlib.Data.List.TakeWhile
import StyleGuide.Proofs.Text.Respacing
import StyleGuide.Proofs.TokenStream.Place
import StyleGuide.StatementRule

/-! # What the rules do to a statement

Each fix that changes the text of a statement respaces it: no rule touches a literal's mask or
brings in a quote mark.
-/

namespace StyleGuide

theorem not_isFirm_of_isOpening {c : Char} (h : isOpening c) : ¬isFirm c := by
  simp only [isOpening, Bool.or_eq_true, beq_iff_eq] at h
  obtain (rfl | rfl) | rfl := h <;> decide

theorem not_isFirm_of_isClosing {c : Char} (h : isClosing c) : ¬isFirm c := by
  simp only [isClosing, Bool.or_eq_true, beq_iff_eq] at h
  obtain (rfl | rfl) | rfl := h <;> decide

theorem not_isFirm_of_isSeparator {c : Char} (h : isSeparator c) : ¬isFirm c := by
  simp only [isSeparator, Bool.or_eq_true, beq_iff_eq] at h
  obtain (rfl | rfl) | rfl := h <;> decide

private theorem not_isFirm_space : ¬isFirm ' ' := by decide

theorem InnerSpace.respaced_remove (before : Option Char) (s : Text) :
    Respaced s (remove before s) := by
  fun_induction remove before s with
  | case1 before c d rest h ih =>
      simp only [isAfterOpening, Bool.and_eq_true, beq_iff_eq] at h
      obtain ⟨hc, rfl⟩ := h
      have loose := not_isFirm_of_isOpening hc
      exact .swap (g := [c, ' ']) (f := [c]) (by simp) (by simp [loose, not_isFirm_space])
        (isFiller_of_forall (by simp) (by simpa using loose)) ih
  | case2 c d rest h hb ih => exact .keep c (.keep d ih)
  | case3 before c d rest h hb hbefore ih =>
      simp only [isBeforeMark, Bool.and_eq_true, beq_iff_eq, Bool.or_eq_true] at hb
      obtain ⟨rfl, hd⟩ := hb
      have loose : ¬isFirm d := hd.elim not_isFirm_of_isClosing not_isFirm_of_isSeparator
      exact .swap (g := [' ', d]) (f := [d]) (by simp) (by simp [loose, not_isFirm_space])
        (isFiller_of_forall (by simp) (by simpa using loose)) ih
  | case4 before c d rest h hb ih => exact .keep c ih
  | case5 => exact .refl _

theorem MissingSeparatorSpace.respaced_add (opened closed : Nat) (s : Text) :
    Respaced s (add opened closed s) := by
  fun_induction add opened closed s with
  | case1 opened closed c d rest _ h ih =>
      simp only [isNeeded, Bool.and_eq_true] at h
      have loose := not_isFirm_of_isSeparator h.1.1.1.1
      exact .swap_cons (f := [c, ' ']) loose
        (isFiller_of_forall (by simp) (by simp [loose, not_isFirm_space])) ih
  | case2 opened closed c d rest _ h ih => exact .keep c ih
  | case3 => exact .refl _

theorem Backticks.respaced_call (isOpen : Bool) (s : Text) : Respaced s (call isOpen s) := by
  fun_induction call isOpen s with
  | case1 => exact .nil
  | case2 c rest h ih =>
      obtain rfl := beq_iff_eq.mp h
      exact .swap_cons (f := [')']) (by decide) (.of_all (s := []) (by decide) (by decide)) ih
  | case3 isOpen c rest h _ ih =>
      obtain rfl := beq_iff_eq.mp h
      exact .swap_cons (f := "repr(".toList) (by decide)
        (.of_all (s := "repr".toList) (by decide) (by decide)) ih
  | case4 isOpen c rest h ih => exact .keep c ih

theorem Text.respaced_replace {part by' : Text} (loose : part.all fun c => !isFirm c)
    (filler : IsFiller by') (s : Text) : Respaced s (replace part by' s) := by
  fun_induction replace part by' s with
  | case1 => exact .refl _
  | case2 => exact .refl _
  | case3 s ne before after found _ ih =>
      rw [← append_of_cut? found, List.append_assoc, List.append_assoc]
      exact (Respaced.refl before).append (.swap ne (by simpa using loose) filler ih)

theorem WideSeparatorSpace.respaced_collapse (s : Text) : Respaced s (collapse s) := by
  fun_induction collapse s with
  | case1 => exact .nil
  | case2 c rest hc gap behind empty ih =>
      have : behind = rest := by simp [behind, List.isEmpty_iff.mp empty]
      rw [this] at ih ⊢
      exact .keep c ih
  | case3 c rest hc gap behind some ih =>
      have loose := not_isFirm_of_isSeparator hc
      have whole : gap ++ behind = rest :=
        List.prefix_iff_eq_append.mp (List.takeWhile_prefix _)
      have blank : ∀ d ∈ gap, ¬isFirm d := by
        intro d hd
        have : d = ' ' ∨ d = '\t' := by simpa using List.mem_takeWhile_imp hd
        rcases this with rfl | rfl <;> decide
      rw [← whole]
      exact .swap (g := c :: gap) (f := [c, ' ']) (by simp) (by simpa [loose] using blank)
        (isFiller_of_forall (by simp) (by simp [loose, not_isFirm_space])) ih
  | case4 c rest hc ih => exact .keep c ih

namespace ArgumentEquals

/-- Trimming takes the white space beside a lone equals sign. -/
theorem trim_spaced (c d : Char) : Text.trim [c, '=', d] =
    (if Text.isBlank c then [] else [c]) ++ ['='] ++ (if Text.isBlank d then [] else [d]) := by
  have solid : Text.isBlank '=' = false := rfl
  cases hc : Text.isBlank c <;> cases hd : Text.isBlank d <;>
    simp [Text.trim, Text.trimStart, Text.trimEnd, Text.dropEndWhile, hc, hd, solid]

theorem respaced_trim (c d : Char) : Respaced [c, '=', d] (Text.trim [c, '=', d]) := by
  have equals : IsFiller ['='] := .of_all (s := []) (by decide) (by decide)
  have loose : ¬isFirm '=' := by decide
  rw [trim_spaced]
  by_cases hc : Text.isBlank c
  · have hc' := not_isFirm_of_isBlank hc
    rw [if_pos hc]
    by_cases hd : Text.isBlank d
    · have hd' := not_isFirm_of_isBlank hd
      rw [if_pos hd]
      exact .swap (g := [c, '=', d]) (by simp) (by simp [hc', hd', loose]) equals .nil
    · rw [if_neg hd]
      exact .swap (g := [c, '=']) (by simp) (by simp [hc', loose]) equals (.refl [d])
  · rw [if_neg hc]
    by_cases hd : Text.isBlank d
    · have hd' := not_isFirm_of_isBlank hd
      rw [if_pos hd]
      exact .keep c (.swap (g := ['=', d]) (by simp) (by simp [hd', loose]) equals .nil)
    · rw [if_neg hd]
      exact .refl _

theorem respaced_tighten (s : Text) : Respaced s (tighten (parts s)) := by
  simp only [tighten]
  fun_induction parts s with
  | case1 rest ih => exact .keep _ ih
  | case2 rest ih => exact .keep _ ih
  | case3 c d rest _ _ h ih =>
      have : Respaced [c, '=', d] (if 0 < ((parts rest).foldr prepend (0, [])).1
          then Text.trim [c, '=', d] else [c, '=', d]) := by
        split
        · exact respaced_trim c d
        · exact .refl _
      exact this.append ih
  | case4 c d rest _ _ h ih => exact .keep c ih
  | case5 c rest _ _ _ ih => exact .keep c ih
  | case6 => exact .nil

end ArgumentEquals

namespace WideOperatorSpace

/-- A wide gap is one of white space. -/
theorem ne_nil_of_isWide {gap : Text} (h : isWide gap) : gap ≠ [] := by
  rintro rfl
  cases h

theorem Part.respaced_collapse {before gap after : Text} (wide : isWide gap)
    (blank : ∀ c ∈ gap, Text.isBlank c) :
    Respaced (before ++ gap ++ after) (Part.wide before gap after).collapse := by
  have gap_swap : Respaced gap [' '] := by
    have := Respaced.swap (ne_nil_of_isWide wide) (fun c hc => not_isFirm_of_isBlank (blank c hc))
      (isFiller_of_forall (s := [' ']) (by simp) (by simpa using not_isFirm_space)) .nil
    simpa using this
  simp only [collapse]
  split
  · exact ((Respaced.refl before).append gap_swap).append (.refl after)
  · exact .refl _

/-- The text in front of and behind a wide gap. -/
theorem append_parts (c : Char) (rest : Text) :
    let before := (c :: rest).takeWhile isMark
    let gap := ((c :: rest).drop before.length).takeWhile Text.isBlank
    let width := before.length + gap.length
    let after := ((c :: rest).drop width).takeWhile isMark
    isWide gap → before ++ gap ++ after ++ rest.drop (width + after.length - 1) = c :: rest := by
  intro before gap width after wide
  have first : before ++ (c :: rest).drop before.length = c :: rest :=
    List.prefix_iff_eq_append.mp (List.takeWhile_prefix _)
  have second : gap ++ (c :: rest).drop width = (c :: rest).drop before.length := by
    rw [← List.drop_drop]
    exact List.prefix_iff_eq_append.mp (List.takeWhile_prefix _)
  have third : after ++ (c :: rest).drop (width + after.length) = (c :: rest).drop width := by
    rw [← List.drop_drop]
    exact List.prefix_iff_eq_append.mp (List.takeWhile_prefix _)
  have pos : 0 < width + after.length := by
    have := List.length_pos_iff.mpr (ne_nil_of_isWide wide)
    omega
  obtain ⟨n, hn⟩ := Nat.exists_eq_succ_of_ne_zero (Nat.ne_of_gt pos)
  rw [hn] at third ⊢
  rw [List.append_assoc, List.append_assoc, Nat.succ_sub_one, ← List.drop_succ_cons, third,
    second, first]

theorem respaced_collapse (s : Text) : Respaced s ((parts s).flatMap Part.collapse) := by
  fun_induction parts s with
  | case1 => exact .nil
  | case2 c rest before gap width wide after ih =>
      rw [← append_parts c rest wide]
      exact (Part.respaced_collapse wide fun d hd => List.mem_takeWhile_imp hd).append ih
  | case3 c rest before gap width plain ih =>
      have whole : (c :: rest).take (max width 1) ++ rest.drop (width - 1) = c :: rest := by
        cases width with
        | zero => rfl
        | succ n => simp
      have := (Respaced.refl ((c :: rest).take (max width 1))).append ih
      rw [whole] at this
      exact this

end WideOperatorSpace

namespace RaiseComma

/-- The part of a call behind its argument. -/
private theorem reworked_end {rest : Text} (h : rest = [] ∨ ∃ z, rest = '\n' :: z) :
    Reworked rest ([')'] ++ Text.trimStart rest) := by
  obtain rfl | ⟨z, rfl⟩ := h
  · exact .nil (by simp [Text.trimStart, Lexeme.isQuote])
  · have blank : ∀ c ∈ ('\n' :: z).takeWhile Text.isBlank, ¬isFirm c :=
      fun c hc => not_isFirm_of_isBlank (List.mem_takeWhile_imp hc)
    have := Reworked.swap (g := ('\n' :: z).takeWhile Text.isBlank) (f := [')'])
      (by rw [List.takeWhile_cons_of_pos rfl]; simp) blank
      (.of_all (s := []) (by decide) (by decide))
      (.of_respaced (.refl (Text.trimStart ('\n' :: z))))
    rwa [Text.trimStart, List.takeWhile_append_dropWhile] at this

private theorem takeWhile_append_drop (p : Char → Bool) (s : Text) :
    s.takeWhile p ++ s.drop (s.takeWhile p).length = s :=
  List.prefix_iff_eq_append.mp (List.takeWhile_prefix p)

/-- Where the parts of a raise statement stand. -/
theorem parts_of_parse? {s : Text} {r : Raise} (h : parse? s = some r) :
    ∃ gap before behind rest, s = "raise".toList ++ (gap ++ (r.exception ++
        (before ++ ([','] ++ (behind ++ (r.argument ++ rest)))))) ∧
      gap ≠ [] ∧ (∀ c ∈ gap, Text.isBlank c) ∧ (∀ c ∈ before, Text.isBlank c) ∧
      (∀ c ∈ behind, Text.isBlank c) ∧ r.rest = Text.trimStart rest ∧
      (rest = [] ∨ ∃ z, rest = '\n' :: z) := by
  simp only [parse?] at h
  split at h
  · next hw =>
      obtain ⟨u, hu⟩ := List.isPrefixOf_iff_prefix.mp hw
      generalize "raise".toList = word at hw hu h ⊢
      subst hu
      have first := takeWhile_append_drop Text.isBlank u
      have drop_gap : (word ++ u).drop (word ++ u.takeWhile Text.isBlank).length =
          u.drop (u.takeWhile Text.isBlank).length := by
        rw [List.length_append, ← List.drop_drop, List.drop_left]
      rw [List.drop_left, drop_gap] at h
      generalize u.drop (u.takeWhile Text.isBlank).length = v at h first
      have second := takeWhile_append_drop Text.isWord v
      generalize v.drop (v.takeWhile Text.isWord).length = w at h second
      split at h
      · next more hm =>
          split at h
          · cases h
          · next some =>
              simp only [Option.some.injEq] at h
              subst h
              simp only [Bool.or_eq_true, List.isEmpty_iff, not_or] at some
              have third := List.takeWhile_append_dropWhile (p := Text.isBlank) (l := w)
              have fourth := List.takeWhile_append_dropWhile (p := Text.isBlank) (l := more)
              have fifth := List.takeWhile_append_dropWhile (p := (· != '\n'))
                (l := Text.trimStart more)
              refine ⟨_, w.takeWhile Text.isBlank, more.takeWhile Text.isBlank,
                (Text.trimStart more).dropWhile (· != '\n'), ?_, some.1,
                fun c hc => List.mem_takeWhile_imp hc, fun c hc => List.mem_takeWhile_imp hc,
                fun c hc => List.mem_takeWhile_imp hc, rfl, ?_⟩
              · rw [fifth, Text.trimStart, fourth, List.singleton_append, ← hm, third, second,
                  first]
              · cases hz : (Text.trimStart more).dropWhile (· != '\n') with
                | nil => exact .inl rfl
                | cons c z =>
                    have := List.head?_dropWhile_not (· != '\n') (Text.trimStart more)
                    rw [hz] at this
                    exact .inr ⟨z, by simpa using this⟩
      · cases h
  · cases h

theorem reworked_call {s : Text} {r : Raise} (h : parse? s = some r) : Reworked s r.call := by
  obtain ⟨gap, before, behind, rest, hs, ne, hg, hb, ha, hr, shape⟩ := parts_of_parse? h
  have word : "raise ".toList = "raise".toList ++ [' '] := by simp
  generalize "raise".toList = start at hs word
  have call : r.call = start ++ ([' '] ++ (r.exception ++ (['('] ++ (r.argument ++
      ([')'] ++ Text.trimStart rest))))) := by
    unfold Raise.call
    rw [hr, word]
    simp only [List.append_assoc]
  rw [call, hs]
  refine .append (.refl _) (.swap ne (fun c hc => not_isFirm_of_isBlank (hg c hc))
    (isFiller_of_forall (by simp) (by simpa using not_isFirm_space)) (.append (.refl _) ?_))
  have comma : before ++ ([','] ++ (behind ++ (r.argument ++ rest))) =
      (before ++ [','] ++ behind) ++ (r.argument ++ rest) := by
    simp only [List.append_assoc]
  rw [comma]
  refine .swap (by simp) ?_ (.of_all (s := []) (by decide) (by decide))
    (.append (.refl _) (reworked_end shape))
  intro c hc
  simp only [List.mem_append, List.mem_singleton] at hc
  obtain (hc | rfl) | hc := hc
  · exact not_isFirm_of_isBlank (hb c hc)
  · decide
  · exact not_isFirm_of_isBlank (ha c hc)

end RaiseComma

namespace MissingOperatorSpace

/-- A place beside a loose character. -/
def IsLooseAt (s : Text) (column : Nat) : Prop :=
  ∀ a b, s = a ++ b → Text.byteLength a = column →
    (∃ x c, a = x ++ [c] ∧ ¬isFirm c) ∨ (∀ c ∈ b.head?, ¬isFirm c)

/-- A space if one is asked for. -/
def spaceAt (columns : List Nat) (column : Nat) : Text :=
  if columns.contains column then [' '] else []

theorem insertSpaces_nil (columns : List Nat) (column : Nat) :
    insertSpaces columns column [] = spaceAt columns column := rfl

theorem insertSpaces_cons (columns : List Nat) (column : Nat) (c : Char) (s : Text) :
    insertSpaces columns column (c :: s) =
      spaceAt columns column ++ c :: insertSpaces columns (column + c.utf8Size) s := by
  rw [insertSpaces, spaceAt]
  split <;> rfl

theorem spaceAt_eq_nil {columns : List Nat} {column : Nat} (h : column ∉ columns) :
    spaceAt columns column = [] := by
  rw [spaceAt, if_neg (by simpa using h)]

theorem not_isFirm_of_mem_spaceAt {columns : List Nat} {column : Nat} :
    ∀ c ∈ spaceAt columns column, ¬isFirm c := by
  intro c hc
  rw [spaceAt] at hc
  split at hc
  · rw [List.mem_singleton.mp hc]
    decide
  · cases hc

/-- A text begins with no firm character. -/
def HasLooseStart (s : Text) : Prop := ∀ c ∈ s.head?, ¬isFirm c

/-- A space may come in front of a loose character or behind one. The first part leaves out the
    space in front of the text, which then belongs to the loose character before it. -/
theorem reworked_insertSpaces_from {columns : List Nat} {a s : Text}
    (h : ∀ n ∈ columns, IsLooseAt (a ++ s) n) :
    (∀ c rest, s = c :: rest → Reworked s
      (c :: insertSpaces columns (Text.byteLength a + c.utf8Size) rest)) ∧
    (HasLooseStart s → Reworked s (insertSpaces columns (Text.byteLength a) s)) := by
  induction s generalizing a with
  | nil =>
      refine ⟨nofun, fun _ => ?_⟩
      rw [insertSpaces_nil]
      exact .nil fun c hc hq => not_isFirm_of_mem_spaceAt c hc (isFirm_of_isQuote hq)
  | cons c s ih =>
      obtain ⟨kept, led⟩ := ih (a := a ++ [c]) (by simpa using h)
      simp only [Text.byteLength_append, Text.byteLength_cons, Text.byteLength_nil,
        Nat.add_zero] at kept led
      -- the space behind `c`, if it does not belong to a loose character there
      obtain ⟨gap, core, parts, hgap, reworked, firm⟩ : ∃ gap core,
          insertSpaces columns (Text.byteLength a + c.utf8Size) s = gap ++ core ∧
            (∀ d ∈ gap, ¬isFirm d) ∧ Reworked s core ∧ (isFirm c → gap = []) := by
        by_cases start : HasLooseStart s
        · exact ⟨[], _, rfl, by simp, led start, fun _ => rfl⟩
        · cases s with
          | nil => exact absurd (by simp [HasLooseStart]) start
          | cons d s =>
              refine ⟨_, _, insertSpaces_cons .., not_isFirm_of_mem_spaceAt, kept d s rfl,
                fun hc => spaceAt_eq_nil fun asked => ?_⟩
              rcases h _ asked (a ++ [c]) (d :: s) (by simp) (by simp) with ⟨x, e, eq, he⟩ | hd
              · obtain ⟨-, eq⟩ := List.append_inj' eq rfl
                obtain rfl : c = e := by simpa using eq
                exact he hc
              · exact start hd
      have loose {l : Text} (hl : ∀ d ∈ l, ¬isFirm d) (hc : ¬isFirm c) :
          Reworked (c :: s) (l ++ c :: (gap ++ core)) := by
        have := Reworked.swap (g := [c]) (f := l ++ c :: gap) (by simp) (by simpa using hc)
          (isFiller_of_forall (by simp) (by
            intro d hd
            rw [List.mem_append, List.mem_cons] at hd
            obtain hd | rfl | hd := hd
            · exact hl d hd
            · exact hc
            · exact hgap d hd)) reworked
        simpa using this
      refine ⟨fun d rest eq => ?_, fun start => ?_⟩
      · obtain ⟨rfl, rfl⟩ : c = d ∧ s = rest := by simpa using eq
        rw [parts]
        by_cases hc : isFirm c
        · rw [firm hc]
          exact reworked.keep c
        · exact loose (l := []) (by simp) hc
      · rw [insertSpaces_cons, parts]
        exact loose not_isFirm_of_mem_spaceAt (start c rfl)

theorem reworked_insertSpaces {columns : List Nat} {s : Text}
    (h : ∀ n ∈ columns, IsLooseAt s n) : Reworked s (insertSpaces columns 0 s) := by
  obtain ⟨kept, led⟩ := reworked_insertSpaces_from (a := []) (by simpa using h)
  by_cases start : HasLooseStart s
  · exact led start
  · cases s with
    | nil => exact absurd (by simp [HasLooseStart]) start
    | cons c s =>
        have none : spaceAt columns 0 = [] := spaceAt_eq_nil fun asked => by
          rcases h 0 asked [] (c :: s) rfl rfl with ⟨x, d, eq, -⟩ | hc
          · simp at eq
          · exact start hc
        rw [insertSpaces_cons, none]
        exact kept c s rfl

theorem operators_loose : ∀ o ∈ binaryOperators ++ unaryOperators,
    o.toList ≠ [] ∧ o.toList.all fun c => !isFirm c := by
  decide

theorem loose_of_isSpacedOperator {text : Text} (h : isSpacedOperator text) :
    text ≠ [] ∧ ∀ c ∈ text, ¬isFirm c := by
  simp only [isSpacedOperator, isBinaryOperator, isUnaryOperator, Bool.or_eq_true,
    List.any_eq_true, beq_iff_eq] at h
  obtain ⟨o, ho, rfl⟩ | ⟨o, ho, rfl⟩ := h
  · simpa using operators_loose o (List.mem_append_left _ ho)
  · simpa using operators_loose o (List.mem_append_right _ ho)

/-- An operator that spaces are kept around. -/
structure IsSign (t : Token) : Prop where
  kind : t.kind = .operator ∨ t.text = ['>']
  text : isSpacedOperator t.text

theorem isSign_of_isSpacedBehind {depth : Nat} {before t : Token}
    (h : isSpacedBehind depth before t) : IsSign t := by
  simp only [isSpacedBehind] at h
  split at h
  · cases h
  · next hk =>
      simp only [Bool.or_eq_true, bne_iff_ne, ne_eq, not_or, not_not] at hk
      refine ⟨.inl hk.1, ?_⟩
      split at h
      · next hb => simp [isSpacedOperator, hb]
      · simp only [Bool.and_eq_true] at h
        simp [isSpacedOperator, h.1]

/-- Spaces are asked for at the ends of operators. -/
theorem exists_of_mem_gapsBehind {depth : Nat} {isNeeded : Bool} {before : Token}
    {ts : List Token} {p : Position} (h : p ∈ gapsBehind depth isNeeded before ts)
    (needed : isNeeded → IsSign before) :
    ∃ t ∈ before :: ts, IsSign t ∧ (p = t.start ∨ p = t.stop) := by
  fun_induction gapsBehind depth isNeeded before ts with
  | case1 => cases h
  | case2 depth before t rest d glued hg ih =>
      rcases List.mem_cons.mp h with rfl | h
      · exact ⟨before, by simp, needed rfl, .inr rfl⟩
      · obtain ⟨u, hu, sign, hp⟩ := ih h nofun
        exact ⟨u, List.mem_cons_of_mem _ hu, sign, hp⟩
  | case3 depth before t rest d glued hg ih =>
      obtain ⟨u, hu, sign, hp⟩ := ih h fun hglued => by
        -- no space is asked for inside an obsolete inequality, whose halves are both operators
        have : t.text = ['>'] := by
          simp only [hglued, Bool.true_and, Bool.not_eq_true', Bool.not_eq_false] at hg
          simpa using (Bool.and_eq_true_iff.mp hg).1
        exact ⟨.inr this, by rw [this]; decide⟩
      exact ⟨u, List.mem_cons_of_mem _ hu, sign, hp⟩
  | case4 depth isNeeded before t rest d glued no needs hn ih =>
      have sign := isSign_of_isSpacedBehind (Bool.and_eq_true_iff.mp hn).1
      rcases List.mem_cons.mp h with rfl | h
      · exact ⟨t, by simp, sign, .inl rfl⟩
      · obtain ⟨u, hu, sign, hp⟩ := ih h fun _ => sign
        exact ⟨u, List.mem_cons_of_mem _ hu, sign, hp⟩
  | case5 depth isNeeded before t rest d glued no needs hn ih =>
      obtain ⟨u, hu, sign, hp⟩ := ih h isSign_of_isSpacedBehind
      exact ⟨u, List.mem_cons_of_mem _ hu, sign, hp⟩

theorem exists_of_mem_gaps {tokens : List Token} {p : Position} (h : p ∈ gaps tokens) :
    ∃ t ∈ tokens.filter isSpaced, IsSign t ∧ (p = t.start ∨ p = t.stop) := by
  rw [gaps] at h
  split at h
  · cases h
  · next t rest eq =>
      rw [eq]
      exact exists_of_mem_gapsBehind h nofun

/-- The end of an operator on the first row of a source is a place beside a loose character. -/
theorem isLooseAt_of_isSign {text : Text} {t : Token}
    (set : t.IsSet (Rows.ofSource (text ++ ['\n']))) (sign : IsSign t) {p : Position}
    (hp : p = t.start ∨ p = t.stop) (first : p.row = 1) : IsLooseAt text p.column := by
  obtain ⟨ne, loose⟩ := loose_of_isSpacedOperator sign.text
  cases set with
  | acrossRows string long =>
      rcases sign.kind with hk | hk
      · rw [string] at hk
        cases hk
      · simp [hk] at long
  | @onRow before start stop row _ =>
      intro a b hs ha
      have row_eq : t.stop.row = 1 := by
        rcases hp with rfl | rfl
        · exact row ▸ first
        · exact first
      have whole : before ++ t.text <+: text ++ ['\n'] := by
        have := stop.1
        rw [row_eq] at this
        exact this.trans (Rows.row_one_prefix _)
      have cut {c : Text} (hc : c <+: text ++ ['\n']) (bytes : Text.byteLength c = p.column) :
          a = c :=
        Text.eq_of_prefix_of_byteLength_eq ⟨b ++ ['\n'], by rw [← List.append_assoc, ← hs]⟩ hc
          (ha.trans bytes.symm)
      rcases hp with rfl | rfl
      · obtain rfl := cut ((List.prefix_append _ _).trans whole) start.2
        rw [hs, List.append_assoc, List.prefix_append_right_inj] at whole
        right
        intro c hc
        obtain ⟨d, rest, eq⟩ := List.exists_cons_of_ne_nil ne
        cases b with
        | nil => cases hc
        | cons e b =>
            rw [eq, List.cons_append, List.cons_prefix_cons] at whole
            obtain rfl : e = c := by simpa using hc
            exact whole.1 ▸ loose d (by simp [eq])
      · obtain rfl := cut whole stop.2
        left
        rcases List.eq_nil_or_concat t.text with h | ⟨x, c, h⟩
        · exact absurd h ne
        · exact ⟨before ++ x, c, by simp [h], loose c (by simp [h])⟩

theorem reworked_fix {ctx : StatementContext} {f : Fix} (h : fix ctx = some f) :
    ∃ new, f.edit = .line new ∧ Reworked ctx.text new := by
  rw [fix] at h
  split at h
  · cases h
  · next tokens ht =>
      obtain rfl := Option.some.inj h
      refine ⟨_, rfl, reworked_insertSpaces fun n hn => ?_⟩
      obtain ⟨p, hp, rfl⟩ := List.mem_map.mp hn
      obtain ⟨hp, first⟩ := List.mem_filter.mp hp
      obtain ⟨t, hm, sign, ends⟩ := exists_of_mem_gaps hp
      obtain ⟨hm, spaced⟩ := List.mem_filter.mp hm
      obtain ⟨q, laid⟩ := laid_of_tokenize ht
      have solid : t.isSolid := by
        simp only [isSpaced, Token.isContent, Bool.and_eq_true] at spaced
        exact spaced.1.1
      exact isLooseAt_of_isSign (laid.isSet_of_mem (List.mem_filter.mpr ⟨hm, solid⟩)) sign ends
        (by simpa using first)

end MissingOperatorSpace

/-- A fix that changes the text of a statement respaces it. -/
theorem StatementRule.reworked_of_fix {rule : StatementRule} {ctx : StatementContext}
    {description : String} {new : Text} (h : rule.fix ctx = some ⟨description, .line new⟩) :
    Reworked ctx.text new := by
  cases rule with
  | compoundStatement | separateImports | blockIndentation | hasKey | inlineComment
  | argumentSpace => cases h
  | blankLines =>
      obtain ⟨n, -, eq⟩ := Option.map_eq_some_iff.mp h
      cases eq
  | innerSpace =>
      cases h
      exact .of_respaced (InnerSpace.respaced_remove _ _)
  | missingSeparatorSpace =>
      cases h
      exact .of_respaced (MissingSeparatorSpace.respaced_add _ _ _)
  | missingOperatorSpace =>
      obtain ⟨new', eq, reworked⟩ := MissingOperatorSpace.reworked_fix h
      cases eq
      exact reworked
  | backticks =>
      simp only [fix, Backticks.fix] at h
      split at h
      · cases h
        exact .of_respaced (Backticks.respaced_call _ _)
      · cases h
  | notEqual =>
      simp only [fix, NotEqual.fix, Option.some.injEq, Fix.mk.injEq, Edit.line.injEq] at h
      rw [← h.2]
      exact .of_respaced (Text.respaced_replace (by decide)
        (.of_all (s := ['!']) (by decide) (by decide)) _)
  | raiseComma =>
      simp only [fix, RaiseComma.fix, Option.some.injEq, Fix.mk.injEq, Edit.line.injEq] at h
      rw [← h.2]
      cases hr : RaiseComma.parse? ctx.text with
      | none => exact .of_respaced (.refl _)
      | some r => exact RaiseComma.reworked_call hr
  | wideSeparatorSpace =>
      cases h
      exact .of_respaced (WideSeparatorSpace.respaced_collapse _)
  | argumentEquals =>
      cases h
      exact .of_respaced (ArgumentEquals.respaced_tighten _)
  | wideOperatorSpace =>
      cases h
      exact .of_respaced (WideOperatorSpace.respaced_collapse _)

end StyleGuide
