import StyleGuide.Proofs.Rule.Brackets
import StyleGuide.Proofs.TokenStream.OneRow

/-! # The end of a mended statement

No fix writes white space at the end of a statement: what it puts in stands in front of something
that was there, or is no white space itself.
-/

namespace StyleGuide

/-- Whether a text ends in something else than white space; of an empty text, `front` says so. -/
def endsFirm (front : Bool) (s : Text) : Bool := s.foldl (fun _ c => !Text.isBlank c) front

/-- The second text ends in something else than white space if the first does, wherever they
    stand. -/
def KeepsEnd (s s' : Text) : Prop := ∀ front, endsFirm front s → endsFirm front s'

section Ends

variable {s t : Text} {front : Bool}

@[simp] theorem endsFirm_nil (front : Bool) : endsFirm front [] = front := rfl

@[simp] theorem endsFirm_cons (front : Bool) (c : Char) (s : Text) :
    endsFirm front (c :: s) = endsFirm (!Text.isBlank c) s := rfl

theorem endsFirm_append (front : Bool) (s t : Text) :
    endsFirm front (s ++ t) = endsFirm (endsFirm front s) t := List.foldl_append

theorem endsFirm_of_ne_nil (ne : s ≠ []) (front front' : Bool) :
    endsFirm front s = endsFirm front' s := by
  cases s with
  | nil => exact absurd rfl ne
  | cons => rfl

theorem endsFirm_blank (blank : ∀ c ∈ s, Text.isBlank c) (ne : s ≠ []) :
    endsFirm front s = false := by
  obtain ⟨init, c, rfl⟩ := (List.eq_nil_or_concat s).resolve_left ne
  rw [List.concat_eq_append, endsFirm_append]
  simp [blank c (by simp)]

/-- A text without white space at its end. -/
theorem endsFirm_true_iff : endsFirm true s ↔ Text.trimEnd s = s := by
  rcases List.eq_nil_or_concat s with rfl | ⟨init, c, rfl⟩
  · exact iff_of_true rfl rfl
  · have here : endsFirm true (init ++ [c]) = !Text.isBlank c := by
      rw [endsFirm_append]
      rfl
    rw [List.concat_eq_append, here]
    cases blank : Text.isBlank c with
    | true =>
        refine iff_of_false (by simp) fun same => ?_
        rw [Text.trimEnd_concat blank] at same
        have short := (Text.dropEndWhile_prefix Text.isBlank init).length_le
        rw [← Text.trimEnd, same, List.length_append] at short
        exact absurd short (by simp)
    | false => exact iff_of_true rfl (List.rdropWhile_concat_neg _ _ _ (by simp [blank]))

end Ends

namespace KeepsEnd

variable {c : Char} {s s' s'' t t' gap : Text}

theorem refl (s : Text) : KeepsEnd s s := fun _ => id

theorem append (h : KeepsEnd s s') (ht : KeepsEnd t t') : KeepsEnd (s ++ t) (s' ++ t') := by
  intro front ends
  rw [endsFirm_append] at ends ⊢
  have ends := ht _ ends
  by_cases none : t' = []
  · subst none
    exact h _ ends
  · rwa [endsFirm_of_ne_nil none]

theorem keep (c : Char) (h : KeepsEnd s s') : KeepsEnd (c :: s) (c :: s') :=
  append (.refl [c]) h

/-- White space may go. -/
theorem drop (blank : ∀ c ∈ gap, Text.isBlank c) : KeepsEnd gap [] := by
  intro front ends
  by_cases none : gap = []
  · rwa [none] at ends
  · rw [endsFirm_blank blank none] at ends
    cases ends

/-- Anything may come in the place of white space. -/
theorem narrow (blank : ∀ c ∈ gap, Text.isBlank c) (ne : gap ≠ []) (s : Text) : KeepsEnd gap s := by
  intro front ends
  rw [endsFirm_blank blank ne] at ends
  cases ends

/-- A text that ends in something else than white space may come in the place of any other. -/
theorem of_firm (ends : endsFirm false s') : KeepsEnd s s' := fun front _ => by
  cases s' with
  | nil => cases ends
  | cons => exact ends

/-- White space may come in front of a text. -/
theorem behind (gap : Text) (ne : s ≠ []) (h : KeepsEnd s s') : KeepsEnd s (gap ++ s') := by
  intro front ends
  rw [endsFirm_of_ne_nil ne _ false] at ends
  rw [endsFirm_append]
  have ends := h _ ends
  cases s' with
  | nil => cases ends
  | cons => exact ends

end KeepsEnd

section Rules

theorem InnerSpace.keepsEnd_remove (before : Option Char) (s : Text) :
    KeepsEnd s (remove before s) := by
  have space : KeepsEnd [' '] [] := .drop (by simpa using isBlank_space)
  fun_induction remove before s with
  | case1 before c d rest h ih =>
      simp only [isAfterOpening, Bool.and_eq_true, beq_iff_eq] at h
      obtain ⟨-, rfl⟩ := h
      exact .keep c (space.append ih)
  | case2 c d rest h hb ih => exact .keep c (.keep d ih)
  | case3 before c d rest h hb hbefore ih =>
      simp only [isBeforeMark, Bool.and_eq_true, beq_iff_eq] at hb
      obtain ⟨rfl, -⟩ := hb
      exact space.append (.keep d ih)
  | case4 before c d rest h hb ih => exact .keep c ih
  | case5 => exact .refl _

theorem MissingSeparatorSpace.keepsEnd_add (opened closed : Nat) (s : Text) :
    KeepsEnd s (add opened closed s) := by
  fun_induction add opened closed s with
  | case1 opened closed c d rest _ h ih => exact .keep c (ih.behind [' '] (by simp))
  | case2 opened closed c d rest _ h ih => exact .keep c ih
  | case3 => exact .refl _

theorem Backticks.keepsEnd_call (isOpen : Bool) (s : Text) : KeepsEnd s (call isOpen s) := by
  induction s generalizing isOpen with
  | nil => exact .refl []
  | cons c s ih =>
      rw [call]
      split
      · split
        · have close : KeepsEnd [c] [')'] := .of_firm (by decide)
          exact close.append (ih false)
        · have opens : KeepsEnd [c] "repr(".toList := .of_firm (by decide)
          exact opens.append (ih true)
      · exact .keep c (ih isOpen)

theorem NotEqual.keepsEnd_replace (s : Text) :
    KeepsEnd s (Text.replace "<>".toList "!=".toList s) := by
  fun_induction Text.replace "<>".toList "!=".toList s with
  | case1 => exact .refl _
  | case2 => exact .refl _
  | case3 s ne before after found _ ih =>
      rw [← Text.append_of_cut? found]
      exact ((KeepsEnd.refl before).append (.of_firm (by decide))).append ih

theorem WideSeparatorSpace.keepsEnd_collapse (s : Text) : KeepsEnd s (collapse s) := by
  fun_induction collapse s with
  | case1 => exact .refl _
  | case2 c rest hc gap behind empty ih =>
      have : behind = rest := by simp [behind, List.isEmpty_iff.mp empty]
      rw [this] at ih ⊢
      exact .keep c ih
  | case3 c rest hc gap behind some ih =>
      have whole : gap ++ behind = rest :=
        List.prefix_iff_eq_append.mp (List.takeWhile_prefix _)
      have blank : ∀ d ∈ gap, Text.isBlank d := by
        intro d hd
        have : d = ' ' ∨ d = '\t' := by simpa using List.mem_takeWhile_imp hd
        rcases this with rfl | rfl <;> decide
      rw [← whole]
      exact .keep c ((KeepsEnd.narrow blank (by simpa using some) [' ']).append ih)
  | case4 c rest hc ih => exact .keep c ih

namespace ArgumentEquals

theorem keepsEnd_trim (c d : Char) : KeepsEnd [c, '=', d] (Text.trim [c, '=', d]) := by
  have beside (e : Char) : KeepsEnd [e] (if Text.isBlank e then [] else [e]) := by
    split
    · next blank => exact .drop (by simpa using blank)
    · exact .refl _
  rw [trim_spaced]
  exact ((beside c).append (.refl ['='])).append (beside d)

theorem keepsEnd_tighten (s : Text) : KeepsEnd s (tighten (parts s)) := by
  simp only [tighten]
  fun_induction parts s with
  | case1 rest ih => exact .keep _ ih
  | case2 rest ih => exact .keep _ ih
  | case3 c d rest _ _ h ih =>
      have part : KeepsEnd [c, '=', d] (if 0 < ((parts rest).foldr prepend (0, [])).1
          then Text.trim [c, '=', d] else [c, '=', d]) := by
        split
        · exact keepsEnd_trim c d
        · exact .refl _
      exact part.append ih
  | case4 c d rest _ _ h ih => exact .keep c ih
  | case5 c rest _ _ _ ih => exact .keep c ih
  | case6 => exact .refl _

end ArgumentEquals

namespace WideOperatorSpace

theorem Part.keepsEnd_collapse {before gap after : Text} (wide : isWide gap)
    (blank : ∀ c ∈ gap, Text.isBlank c) :
    KeepsEnd (before ++ gap ++ after) (Part.wide before gap after).collapse := by
  simp only [collapse]
  split
  · exact ((KeepsEnd.refl before).append (.narrow blank (ne_nil_of_isWide wide) [' '])).append
      (.refl after)
  · exact .refl _

theorem keepsEnd_collapse (s : Text) : KeepsEnd s ((parts s).flatMap Part.collapse) := by
  fun_induction parts s with
  | case1 => exact .refl _
  | case2 c rest before gap width wide after ih =>
      rw [← append_parts c rest wide]
      exact (Part.keepsEnd_collapse wide fun d hd => List.mem_takeWhile_imp hd).append ih
  | case3 c rest before gap width plain ih =>
      have whole : (c :: rest).take (max width 1) ++ rest.drop (width - 1) = c :: rest := by
        cases width with
        | zero => rfl
        | succ n => simp
      have := (KeepsEnd.refl ((c :: rest).take (max width 1))).append ih
      rwa [whole] at this

end WideOperatorSpace

theorem RaiseComma.keepsEnd_call {s : Text} {r : Raise} (h : parse? s = some r) :
    KeepsEnd s r.call := by
  obtain ⟨gap, before, behind, rest, hs, -, -, -, -, hr, -⟩ := parts_of_parse? h
  have trimmed : KeepsEnd rest (Text.trimStart rest) := by
    have blank := KeepsEnd.drop fun c (hc : c ∈ rest.takeWhile Text.isBlank) =>
      List.mem_takeWhile_imp hc
    have := blank.append (.refl (rest.dropWhile Text.isBlank))
    rwa [List.takeWhile_append_dropWhile] at this
  have closed (s t : Text) : KeepsEnd s (t ++ [')']) :=
    .of_firm (by rw [endsFirm_append]; rfl)
  unfold Raise.call
  rw [hr]
  generalize "raise".toList = start at hs
  generalize "raise ".toList = start'
  rw [hs]
  have := (closed (start ++ (gap ++ (r.exception ++ (before ++ ([','] ++ (behind ++ r.argument))))))
    (start' ++ r.exception ++ ['('] ++ r.argument)).append trimmed
  simpa only [List.append_assoc] using this

namespace MissingOperatorSpace

/-- No space is asked for at the end of a text of one row. -/
theorem column_lt_of_mem_gaps {s : Text} {tokens : List Token} {p : Position} (only : '\n' ∉ s)
    (read : tokenize (s ++ ['\n']) = .ok tokens) (hp : p ∈ gaps tokens) (first : p.row = 1) :
    p.column < Text.byteLength s := by
  obtain ⟨t, u, sub, -, rfl⟩ := exists_infix_of_mem_gaps hp
  obtain ⟨hu, spaced⟩ := List.mem_filter.mp (sub.subset (a := u) (by simp))
  obtain ⟨content, known⟩ := Bool.and_eq_true_iff.mp spaced
  have solid := Token.isSolid_of_isContent content
  obtain ⟨before, inner, column⟩ :=
    (edged_of_tokenize read u hu (Bool.and_eq_true_iff.mpr ⟨solid, known⟩)).stop
  have rows : Rows.ofSource (s ++ ['\n']) = #[s ++ ['\n']] := by
    rw [Rows.ofSource, Text.rows_append only []]
    rfl
  have pos := column_pos_of_tokenize read hu solid
  obtain ⟨_, laid⟩ := laid_of_tokenize read
  cases laid.isSet_of_mem (List.mem_filter.mpr ⟨hu, solid⟩) with
  | acrossRows _ _ across =>
      -- there is no second row
      rw [rows, Rows.shown, Rows.row_of_size_lt (by simp; omega)] at inner
      rw [List.prefix_nil.mp inner, Text.byteLength_nil] at column
      omega
  | onRow start stop row spelled =>
      have shown : (Rows.ofSource (s ++ ['\n'])).shown u.stop.row <+: s := by
        have ended : Text.withoutTerminator (s ++ ['\n']) = Text.withoutTerminator s :=
          List.rdropWhile_concat_pos _ _ _ (by decide)
        have here : Rows.shown #[s ++ ['\n']] 1 = Text.withoutTerminator s := ended
        rw [← row, first, rows, here]
        exact Text.dropEndWhile_prefix _ s
      obtain ⟨behind, whole⟩ := inner.trans shown
      obtain ⟨c, rest, text⟩ := List.exists_cons_of_ne_nil spelled.ne_nil
      have held := stop.2
      rw [Text.byteLength_append, start.2, text, Text.byteLength_cons] at held
      have := c.utf8Size_pos
      rw [← whole, Text.byteLength_append, column]
      omega

theorem keepsEnd_insertSpaces {columns : List Nat} {s : Text} {column : Nat}
    (inner : column + Text.byteLength s ∉ columns) :
    KeepsEnd s (insertSpaces columns column s) := by
  induction s generalizing column with
  | nil =>
      rw [insertSpaces_nil, spaceAt_eq_nil (by simpa using inner)]
      exact .refl []
  | cons c s ih =>
      rw [insertSpaces_cons]
      refine .behind _ (List.cons_ne_nil c s) (.keep c (ih ?_))
      rwa [Nat.add_assoc, ← Text.byteLength_cons]

theorem keepsEnd_fix {ctx : StatementContext} {f : Fix} (only : '\n' ∉ ctx.text)
    (h : fix ctx = some f) : ∃ new, f.edit = .line new ∧ KeepsEnd ctx.text new := by
  rw [fix] at h
  split at h
  · cases h
  · next tokens read =>
      obtain rfl := Option.some.inj h
      refine ⟨_, rfl, keepsEnd_insertSpaces fun mem => ?_⟩
      obtain ⟨p, hp, column⟩ := List.mem_map.mp mem
      obtain ⟨hp, first⟩ := List.mem_filter.mp hp
      have := column_lt_of_mem_gaps only read hp (by simpa using first)
      omega

end MissingOperatorSpace

/-- A fix that changes the text of a statement on one line writes no white space at its end. -/
theorem StatementRule.keepsEnd_of_fix {rule : StatementRule} {ctx : StatementContext}
    {description : String} {new : Text} (only : '\n' ∉ ctx.text)
    (h : rule.fix ctx = some ⟨description, .line new⟩) : KeepsEnd ctx.text new := by
  cases rule with
  | compoundStatement | separateImports | blockIndentation | hasKey | inlineComment
  | argumentSpace => cases h
  | blankLines =>
      obtain ⟨n, -, eq⟩ := Option.map_eq_some_iff.mp h
      cases eq
  | innerSpace =>
      cases h
      exact InnerSpace.keepsEnd_remove _ _
  | missingSeparatorSpace =>
      cases h
      exact MissingSeparatorSpace.keepsEnd_add _ _ _
  | missingOperatorSpace =>
      obtain ⟨new', eq, keeps⟩ := MissingOperatorSpace.keepsEnd_fix only h
      cases eq
      exact keeps
  | backticks =>
      simp only [fix, Backticks.fix] at h
      split at h
      · cases h
        exact Backticks.keepsEnd_call _ _
      · cases h
  | notEqual =>
      simp only [fix, NotEqual.fix, Option.some.injEq, Fix.mk.injEq, Edit.line.injEq] at h
      rw [← h.2]
      exact NotEqual.keepsEnd_replace _
  | raiseComma =>
      simp only [fix, RaiseComma.fix, Option.some.injEq, Fix.mk.injEq, Edit.line.injEq] at h
      rw [← h.2]
      cases hr : RaiseComma.parse? ctx.text with
      | none => exact .refl _
      | some r => exact RaiseComma.keepsEnd_call hr
  | wideSeparatorSpace =>
      cases h
      exact WideSeparatorSpace.keepsEnd_collapse _
  | argumentEquals =>
      cases h
      exact ArgumentEquals.keepsEnd_tighten _
  | wideOperatorSpace =>
      cases h
      exact WideOperatorSpace.keepsEnd_collapse _

end Rules

end StyleGuide
