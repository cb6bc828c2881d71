import StyleGuide.Proofs.Lexeme.Skim
import StyleGuide.Proofs.Rule.OperatorGaps
import StyleGuide.Proofs.Rule.Respacing
import StyleGuide.Proofs.TokenStream.Edge

/-! # The brackets of a mended statement

No fix opens a bracket without closing it, and none parts two brackets that belong together. So a
statement with masks in the place of its literals can be read as far behind each fix as in front of
it, and as many brackets are open behind it.
-/

namespace StyleGuide

open Lexeme

/-- The number of open brackets behind one more character of a statement, where `none` stands for
    the place in front of it. A statement begins with no white space, and in its text no character
    but a quote mark opens anything else than a bracket. -/
def bracketsBehind? (front : Option Nat) (c : Char) : Option (Option Nat) :=
  if (front = none ∧ Text.isBlank c) ∨ (isFraming c ∧ ¬isQuote c) then none
  else (depthAfter? [c] (front.getD 0)).map some

/-- The number of open brackets behind more of a statement. -/
def brackets? (front : Option Nat) (s : Text) : Option (Option Nat) := s.foldlM bracketsBehind? front

/-- The second text opens and closes the brackets that the first does, wherever that can be read. -/
def KeepsBrackets (s s' : Text) : Prop :=
  ∀ front behind, brackets? front s = some behind → brackets? front s' = some behind

section Brackets

variable {c : Char} {s t : Text} {front behind : Option Nat} {d : Nat}

@[simp] theorem brackets?_nil (front : Option Nat) : brackets? front [] = some front := rfl

@[simp] theorem brackets?_cons (front : Option Nat) (c : Char) (s : Text) :
    brackets? front (c :: s) = (bracketsBehind? front c).bind fun behind => brackets? behind s := rfl

theorem brackets?_append (front : Option Nat) (s t : Text) :
    brackets? front (s ++ t) = (brackets? front s).bind fun behind => brackets? behind t :=
  List.foldlM_append

theorem bracketsBehind?_eq_some (h : bracketsBehind? front c = some behind) :
    (front = none → ¬Text.isBlank c) ∧ (isFraming c → isQuote c) ∧
      ∃ d, depthAfter? [c] (front.getD 0) = some d ∧ behind = some d := by
  simp only [bracketsBehind?, Option.ite_none_left_eq_some, not_or, not_and, not_not,
    Option.map_eq_some_iff] at h
  obtain ⟨⟨start, framing⟩, d, depth, rfl⟩ := h
  exact ⟨start, framing, d, depth, rfl⟩

/-- In the text of a statement only quote marks frame anything. -/
theorem isQuote_of_isFraming (h : brackets? front s = some behind) :
    ∀ c ∈ s, isFraming c → isQuote c := by
  induction s generalizing front with
  | nil => exact nofun
  | cons c s ih =>
      obtain ⟨_, first, rest⟩ := Option.bind_eq_some_iff.mp h
      exact List.forall_mem_cons.mpr ⟨(bracketsBehind?_eq_some first).2.1, ih rest⟩

theorem depthAfter?_succ {n : Nat} (h : depthAfter? [c] d = some n) :
    depthAfter? [c] (d + 1) = some (n + 1) := by
  unfold depthAfter? at h ⊢
  split at h
  · next opening =>
      obtain rfl := Option.some.inj h
      rw [if_pos opening]
  · next other =>
      rw [if_neg other]
      split at h
      · next closing =>
          rw [if_pos closing, if_neg (Nat.succ_ne_zero d)]
          obtain ⟨inside, eq⟩ := Option.ite_none_left_eq_some.mp h
          have := Option.some.inj eq
          exact congrArg some (by omega)
      · next plain =>
          obtain rfl := Option.some.inj h
          rw [if_neg plain]

/-- What can be read inside some brackets can be read inside one more. -/
theorem brackets?_succ (h : brackets? (some d) s = some behind) :
    ∃ n, behind = some n ∧ brackets? (some (d + 1)) s = some (some (n + 1)) := by
  induction s generalizing d with
  | nil => exact ⟨d, (Option.some.inj h).symm, rfl⟩
  | cons c s ih =>
      obtain ⟨_, first, rest⟩ := Option.bind_eq_some_iff.mp h
      obtain ⟨-, framing, e, depth, rfl⟩ := bracketsBehind?_eq_some first
      obtain ⟨n, rfl, more⟩ := ih rest
      refine ⟨n, rfl, ?_⟩
      have next : bracketsBehind? (some (d + 1)) c = some (some (e + 1)) := by
        have depth : depthAfter? [c] d = some e := depth
        simp only [bracketsBehind?, reduceCtorEq, false_and, false_or, Option.getD_some,
          depthAfter?_succ depth, Option.map_some]
        exact if_neg fun other => other.2 (framing other.1)
      rw [brackets?_cons, next]
      exact more

theorem exists_of_brackets? (h : brackets? front s = some behind) (ne : s ≠ []) :
    ∃ n, behind = some n := by
  obtain ⟨c, s, rfl⟩ := List.exists_cons_of_ne_nil ne
  obtain ⟨_, first, rest⟩ := Option.bind_eq_some_iff.mp h
  obtain ⟨-, -, d, -, rfl⟩ := bracketsBehind?_eq_some first
  obtain ⟨n, rfl, -⟩ := brackets?_succ rest
  exact ⟨n, rfl⟩

theorem bracketsBehind?_space (d : Nat) : bracketsBehind? (some d) ' ' = some (some d) := rfl

/-- White space behind the start of a statement leaves everything as it is. -/
theorem bracketsBehind?_blank (blank : Text.isBlank c) (h : bracketsBehind? front c = some behind) :
    front ≠ none ∧ behind = front := by
  obtain ⟨start, -, d, depth, rfl⟩ := bracketsBehind?_eq_some h
  cases front with
  | none => exact absurd blank (start rfl)
  | some n =>
      have other : ¬isBracket c := by
        intro bracket
        simp only [isBracket, isOpening, isClosing, Bool.or_eq_true, beq_iff_eq] at bracket
        obtain ((rfl | rfl) | rfl) | (rfl | rfl) | rfl := bracket <;> exact absurd blank (by decide)
      rw [depthAfter?_of_not_isBracket other] at depth
      exact ⟨Option.some_ne_none n, depth.symm⟩

theorem brackets?_blank (blank : ∀ c ∈ s, Text.isBlank c) (ne : s ≠ [])
    (h : brackets? front s = some behind) : front ≠ none ∧ behind = front := by
  induction s generalizing front with
  | nil => exact absurd rfl ne
  | cons c s ih =>
      obtain ⟨hc, blank⟩ := List.forall_mem_cons.mp blank
      obtain ⟨_, first, rest⟩ := Option.bind_eq_some_iff.mp h
      obtain ⟨some, rfl⟩ := bracketsBehind?_blank hc first
      cases s with
      | nil => exact ⟨some, (Option.some.inj rest).symm⟩
      | cons d s => exact ih blank (by simp) rest

end Brackets

namespace KeepsBrackets

variable {c : Char} {s s' s'' t t' gap : Text}

theorem refl (s : Text) : KeepsBrackets s s := fun _ _ => id

theorem trans (h : KeepsBrackets s s') (h' : KeepsBrackets s' s'') : KeepsBrackets s s'' :=
  fun front behind read => h' front behind (h front behind read)

theorem append (h : KeepsBrackets s s') (ht : KeepsBrackets t t') :
    KeepsBrackets (s ++ t) (s' ++ t') := by
  intro front behind read
  rw [brackets?_append] at read ⊢
  obtain ⟨between, first, rest⟩ := Option.bind_eq_some_iff.mp read
  rw [h _ _ first]
  exact ht _ _ rest

theorem keep (c : Char) (h : KeepsBrackets s s') : KeepsBrackets (c :: s) (c :: s') :=
  append (.refl [c]) h

/-- White space may go. -/
theorem drop (blank : ∀ c ∈ gap, Text.isBlank c) : KeepsBrackets gap [] := by
  intro front behind read
  by_cases none : gap = []
  · rwa [none] at read
  · rw [(brackets?_blank blank none read).2]
    rfl

/-- One space may come in the place of white space. -/
theorem narrow (blank : ∀ c ∈ gap, Text.isBlank c) (ne : gap ≠ []) : KeepsBrackets gap [' '] := by
  intro front behind read
  obtain ⟨some, rfl⟩ := brackets?_blank blank ne read
  obtain ⟨d, rfl⟩ := Option.ne_none_iff_exists'.mp some
  rfl

/-- Behind a character a space may come. -/
theorem space (c : Char) : KeepsBrackets [c] [c, ' '] := by
  intro front behind read
  obtain ⟨_, first, rest⟩ := Option.bind_eq_some_iff.mp read
  obtain rfl := Option.some.inj rest
  obtain ⟨-, -, d, -, rfl⟩ := bracketsBehind?_eq_some first
  rw [brackets?_cons, first]
  rfl

end KeepsBrackets

section Rules

theorem isBlank_space : Text.isBlank ' ' := by decide

theorem InnerSpace.keepsBrackets_remove (before : Option Char) (s : Text) :
    KeepsBrackets s (remove before s) := by
  have space : KeepsBrackets [' '] [] := .drop (by simpa using isBlank_space)
  fun_induction remove before s with
  | case1 before c d rest h ih =>
      simp only [isAfterOpening, Bool.and_eq_true, beq_iff_eq] at h
      obtain ⟨-, rfl⟩ := h
      exact .keep c (space.append ih)
  | case2 c d rest h hb ih => exact .keep c (.keep d ih)
  | case3 before c d rest h hb hbefore ih =>
      simp only [isBeforeMark, Bool.and_eq_true, beq_iff_eq] at hb
      obtain ⟨rfl, -⟩ := hb
      exact space.append (.keep d ih)
  | case4 before c d rest h hb ih => exact .keep c ih
  | case5 => exact .refl _

theorem MissingSeparatorSpace.keepsBrackets_add (opened closed : Nat) (s : Text) :
    KeepsBrackets s (add opened closed s) := by
  fun_induction add opened closed s with
  | case1 opened closed c d rest _ h ih => exact (KeepsBrackets.space c).append ih
  | case2 opened closed c d rest _ h ih => exact .keep c ih
  | case3 => exact .refl _

/-- A character that is no bracket and no white space and frames no more than a literal. -/
def isPlain (c : Char) : Bool := !Text.isBlank c && (!isFraming c || isQuote c) && !isBracket c

theorem bracketsBehind?_of_plain {c : Char} (plain : isPlain c) (front : Option Nat) :
    bracketsBehind? front c = some (some (front.getD 0)) := by
  simp only [isPlain, Bool.and_eq_true, Bool.not_eq_true', Bool.or_eq_true] at plain
  obtain ⟨⟨blank, framing⟩, bracket⟩ := plain
  have other : ¬((front = none ∧ Text.isBlank c) ∨ (isFraming c ∧ ¬isQuote c)) := by
    rintro (⟨-, white⟩ | ⟨frames, unquoted⟩)
    · simp [blank] at white
    · exact framing.elim (by simp [frames]) unquoted
  rw [bracketsBehind?, if_neg other, depthAfter?_of_not_isBracket (by simp [bracket])]
  rfl

theorem isPlain_of_isFirm {c : Char} (h : isFirm c) : isPlain c := by
  have blank : Text.isBlank c = false := by
    simpa using fun blank => not_isFirm_of_isBlank blank h
  simp only [isPlain, blank, Bool.not_false, Bool.true_and, Bool.and_eq_true, Bool.or_eq_true,
    Bool.not_eq_true']
  rcases Bool.or_eq_true_iff.mp h with word | quote
  · have := not_isFraming_of_all (p := Text.isWord) (by decide) word
    exact ⟨.inl (by simpa using this.1), by simpa using this.2⟩
  · refine ⟨.inr quote, ?_⟩
    simp only [isQuote, Bool.or_eq_true, beq_iff_eq] at quote
    rcases quote with rfl | rfl <;> rfl

theorem brackets?_of_plain {s : Text} (ne : s ≠ []) (plain : s.all isPlain) (front : Option Nat) :
    brackets? front s = some (some (front.getD 0)) := by
  induction s generalizing front with
  | nil => exact absurd rfl ne
  | cons c s ih =>
      obtain ⟨hc, plain⟩ := Bool.and_eq_true_iff.mp plain
      rw [brackets?_cons, bracketsBehind?_of_plain hc, Option.bind_some]
      cases s with
      | nil => rfl
      | cons d s => exact ih (by simp) plain _

theorem KeepsBrackets.of_plain {s s' : Text} (ne : s ≠ []) (ne' : s' ≠ [])
    (plain : s.all isPlain) (plain' : s'.all isPlain) : KeepsBrackets s s' := by
  intro front behind read
  rw [brackets?_of_plain ne' plain', ← read, brackets?_of_plain ne plain]

namespace Backticks

theorem bracketsBehind?_backtick (front : Option Nat) :
    bracketsBehind? front backtick = some (some (front.getD 0)) :=
  bracketsBehind?_of_plain (by decide) front

/-- Inside a pair of backticks one more bracket is open behind the fix than in front of it. -/
theorem brackets?_call (s : Text) :
    (s.count backtick % 2 = 0 → KeepsBrackets s (call false s)) ∧
      (s.count backtick % 2 = 1 → ∀ d behind, brackets? (some d) s = some behind →
        brackets? (some (d + 1)) (call true s) = some behind) := by
  induction s with
  | nil => exact ⟨fun _ => .refl [], fun odd => absurd odd (by simp)⟩
  | cons c s ih =>
      obtain ⟨closed, open_⟩ := ih
      by_cases tick : c = backtick
      · subst tick
        rw [List.count_cons_self]
        refine ⟨fun even front behind read => ?_, fun odd d behind read => ?_⟩
        · rw [brackets?_cons, bracketsBehind?_backtick, Option.bind_some] at read
          have word : brackets? front "repr(".toList = some (some (front.getD 0 + 1)) := by
            rw [show "repr(".toList = "repr".toList ++ ['('] by rfl, brackets?_append,
              brackets?_of_plain (by decide) (by decide)]
            rfl
          rw [call, if_pos (beq_self_eq_true _), if_neg (by simp), brackets?_append, word,
            Option.bind_some]
          exact open_ (by omega) _ _ read
        · rw [brackets?_cons, bracketsBehind?_backtick, Option.bind_some] at read
          rw [call, if_pos (beq_self_eq_true _), if_pos rfl]
          exact closed (by omega) _ _ read
      · have other : ¬(c == backtick) = true := by simpa using tick
        rw [List.count_cons_of_ne tick]
        refine ⟨fun even => ?_, fun odd d behind read => ?_⟩
        · rw [call, if_neg other]
          exact .keep c (closed even)
        · obtain ⟨_, first, rest⟩ := Option.bind_eq_some_iff.mp read
          obtain ⟨-, -, e, -, rfl⟩ := bracketsBehind?_eq_some first
          have inside : brackets? (some d) [c] = some (some e) := by rw [brackets?_cons, first]; rfl
          obtain ⟨n, eq, more⟩ := brackets?_succ inside
          obtain rfl := Option.some.inj eq
          rw [call, if_neg other, ← List.singleton_append, brackets?_append, more, Option.bind_some]
          exact open_ odd _ _ rest

end Backticks

theorem NotEqual.keepsBrackets_replace (s : Text) :
    KeepsBrackets s (Text.replace "<>".toList "!=".toList s) := by
  fun_induction Text.replace "<>".toList "!=".toList s with
  | case1 => exact .refl _
  | case2 => exact .refl _
  | case3 s ne before after found _ ih =>
      rw [← Text.append_of_cut? found]
      exact ((KeepsBrackets.refl before).append (.of_plain (by decide) (by decide) (by decide)
        (by decide))).append ih

theorem WideSeparatorSpace.keepsBrackets_collapse (s : Text) : KeepsBrackets s (collapse s) := by
  fun_induction collapse s with
  | case1 => exact .refl _
  | case2 c rest hc gap behind empty ih =>
      have : behind = rest := by simp [behind, List.isEmpty_iff.mp empty]
      rw [this] at ih ⊢
      exact .keep c ih
  | case3 c rest hc gap behind some ih =>
      have whole : gap ++ behind = rest :=
        List.prefix_iff_eq_append.mp (List.takeWhile_prefix _)
      have blank : ∀ d ∈ gap, Text.isBlank d := by
        intro d hd
        have : d = ' ' ∨ d = '\t' := by simpa using List.mem_takeWhile_imp hd
        rcases this with rfl | rfl <;> decide
      rw [← whole]
      have narrow : KeepsBrackets gap [' '] := .narrow blank (by simpa using some)
      exact .keep c (narrow.append ih)
  | case4 c rest hc ih => exact .keep c ih

namespace ArgumentEquals

theorem keepsBrackets_trim (c d : Char) : KeepsBrackets [c, '=', d] (Text.trim [c, '=', d]) := by
  have beside (e : Char) : KeepsBrackets [e] (if Text.isBlank e then [] else [e]) := by
    split
    · next blank => exact .drop (by simpa using blank)
    · exact .refl _
  rw [trim_spaced]
  exact ((beside c).append (.refl ['='])).append (beside d)

theorem keepsBrackets_tighten (s : Text) : KeepsBrackets s (tighten (parts s)) := by
  simp only [tighten]
  fun_induction parts s with
  | case1 rest ih => exact .keep _ ih
  | case2 rest ih => exact .keep _ ih
  | case3 c d rest _ _ h ih =>
      have part : KeepsBrackets [c, '=', d] (if 0 < ((parts rest).foldr prepend (0, [])).1
          then Text.trim [c, '=', d] else [c, '=', d]) := by
        split
        · exact keepsBrackets_trim c d
        · exact .refl _
      exact part.append ih
  | case4 c d rest _ _ h ih => exact .keep c ih
  | case5 c rest _ _ _ ih => exact .keep c ih
  | case6 => exact .refl _

end ArgumentEquals

namespace WideOperatorSpace

theorem Part.keepsBrackets_collapse {before gap after : Text} (wide : isWide gap)
    (blank : ∀ c ∈ gap, Text.isBlank c) :
    KeepsBrackets (before ++ gap ++ after) (Part.wide before gap after).collapse := by
  simp only [collapse]
  split
  · exact ((KeepsBrackets.refl before).append (.narrow blank (ne_nil_of_isWide wide))).append
      (.refl after)
  · exact .refl _

theorem keepsBrackets_collapse (s : Text) : KeepsBrackets s ((parts s).flatMap Part.collapse) := by
  fun_induction parts s with
  | case1 => exact .refl _
  | case2 c rest before gap width wide after ih =>
      rw [← append_parts c rest wide]
      exact (Part.keepsBrackets_collapse wide fun d hd => List.mem_takeWhile_imp hd).append ih
  | case3 c rest before gap width plain ih =>
      have whole : (c :: rest).take (max width 1) ++ rest.drop (width - 1) = c :: rest := by
        cases width with
        | zero => rfl
        | succ n => simp
      have := (KeepsBrackets.refl ((c :: rest).take (max width 1))).append ih
      rwa [whole] at this

end WideOperatorSpace

namespace RaiseComma

/-- Brackets come around a text in the place of a comma in front of it. -/
theorem keepsBrackets_enclose (s : Text) :
    KeepsBrackets ([','] ++ s) (['('] ++ s ++ [')']) := by
  intro front behind read
  have comma := bracketsBehind?_of_plain (c := ',') (by decide) front
  rw [List.singleton_append, brackets?_cons, comma, Option.bind_some] at read
  obtain ⟨n, rfl, inside⟩ := brackets?_succ read
  have opens : brackets? front ['('] = some (some (front.getD 0 + 1)) := by
    simp [bracketsBehind?, isFraming, isQuote, depthAfter?, Text.isBlank]
  rw [List.append_assoc, brackets?_append, opens, Option.bind_some, brackets?_append, inside]
  rfl

theorem keepsBrackets_call {s : Text} {r : Raise} (h : parse? s = some r) :
    KeepsBrackets s r.call := by
  obtain ⟨gap, before, behind, rest, hs, ne, hg, hb, ha, hr, shape⟩ := parts_of_parse? h
  intro front last read
  -- a newline has no place in a statement
  obtain rfl : rest = [] := by
    rcases shape with none | ⟨z, rfl⟩
    · exact none
    · have framing := isQuote_of_isFraming read '\n' (by simp [hs]) (by decide)
      exact absurd framing (by decide)
  have inner : KeepsBrackets (before ++ ([','] ++ (behind ++ r.argument)))
      (['('] ++ r.argument ++ [')']) := by
    refine .trans ?_ (keepsBrackets_enclose r.argument)
    exact (KeepsBrackets.drop hb).append
      ((KeepsBrackets.refl [',']).append ((KeepsBrackets.drop ha).append (.refl r.argument)))
  have word : "raise ".toList = "raise".toList ++ [' '] := by simp
  have none : Text.trimStart [] = [] := rfl
  generalize "raise".toList = start at hs word
  have whole : r.call = start ++ ([' '] ++ (r.exception ++ (['('] ++ r.argument ++ [')']))) := by
    unfold Raise.call
    rw [hr, word, none]
    simp only [List.append_assoc, List.append_nil]
  rw [hs, List.append_nil] at read
  rw [whole]
  exact (KeepsBrackets.refl _).append ((KeepsBrackets.narrow hg ne).append
    ((KeepsBrackets.refl _).append inner)) _ _ read

end RaiseComma

namespace MissingOperatorSpace

theorem keepsBrackets_spaceAt (columns : List Nat) (column : Nat) (c : Char) :
    KeepsBrackets [c] (c :: spaceAt columns column) := by
  rw [spaceAt]
  split
  · exact .space c
  · exact .refl _

/-- No space comes in front of a text. -/
theorem keepsBrackets_insertSpaces {columns : List Nat} (other : 0 ∉ columns) (s : Text) :
    KeepsBrackets s (insertSpaces columns 0 s) := by
  have behind (c : Char) (s : Text) (column : Nat) :
      KeepsBrackets (c :: s) (c :: insertSpaces columns column s) := by
    induction s generalizing c column with
    | nil => exact keepsBrackets_spaceAt columns column c
    | cons d s ih =>
        rw [insertSpaces_cons]
        exact (keepsBrackets_spaceAt columns column c).append (ih d _)
  cases s with
  | nil =>
      rw [insertSpaces_nil, spaceAt_eq_nil other]
      exact .refl []
  | cons c s =>
      rw [insertSpaces_cons, spaceAt_eq_nil other]
      exact behind c s _

theorem keepsBrackets_fix {ctx : StatementContext} {f : Fix} (h : fix ctx = some f) :
    ∃ new, f.edit = .line new ∧ KeepsBrackets ctx.text new := by
  rw [fix] at h
  split at h
  · cases h
  · next tokens read =>
      obtain rfl := Option.some.inj h
      refine ⟨_, rfl, keepsBrackets_insertSpaces (fun start => ?_) _⟩
      obtain ⟨p, hp, zero⟩ := List.mem_map.mp start
      obtain ⟨t, u, sub, rfl, -⟩ := exists_infix_of_mem_gaps (List.mem_filter.mp hp).1
      obtain ⟨ht, spaced⟩ := List.mem_filter.mp (sub.subset (List.mem_cons_self ..))
      have solid := Token.isSolid_of_isContent (Bool.and_eq_true_iff.mp spaced).1
      have := column_pos_of_tokenize read ht solid
      omega

end MissingOperatorSpace

/-- A fix that changes the text of a statement keeps its brackets. -/
theorem StatementRule.keepsBrackets_of_fix {rule : StatementRule} {ctx : StatementContext}
    {description : String} {new : Text} (h : rule.fix ctx = some ⟨description, .line new⟩) :
    KeepsBrackets ctx.text new := by
  cases rule with
  | compoundStatement | separateImports | blockIndentation | hasKey | inlineComment
  | argumentSpace => cases h
  | blankLines =>
      obtain ⟨n, -, eq⟩ := Option.map_eq_some_iff.mp h
      cases eq
  | innerSpace =>
      cases h
      exact InnerSpace.keepsBrackets_remove _ _
  | missingSeparatorSpace =>
      cases h
      exact MissingSeparatorSpace.keepsBrackets_add _ _ _
  | missingOperatorSpace =>
      obtain ⟨new', eq, keeps⟩ := MissingOperatorSpace.keepsBrackets_fix h
      cases eq
      exact keeps
  | backticks =>
      simp only [fix, Backticks.fix] at h
      split at h
      · next even =>
          cases h
          exact (Backticks.brackets?_call _).1 even
      · cases h
  | notEqual =>
      simp only [fix, NotEqual.fix, Option.some.injEq, Fix.mk.injEq, Edit.line.injEq] at h
      rw [← h.2]
      exact NotEqual.keepsBrackets_replace _
  | raiseComma =>
      simp only [fix, RaiseComma.fix, Option.some.injEq, Fix.mk.injEq, Edit.line.injEq] at h
      rw [← h.2]
      cases hr : RaiseComma.parse? ctx.text with
      | none => exact .refl _
      | some r => exact RaiseComma.keepsBrackets_call hr
  | wideSeparatorSpace =>
      cases h
      exact WideSeparatorSpace.keepsBrackets_collapse _
  | argumentEquals =>
      cases h
      exact ArgumentEquals.keepsBrackets_tighten _
  | wideOperatorSpace =>
      cases h
      exact WideOperatorSpace.keepsBrackets_collapse _

end Rules

end StyleGuide
