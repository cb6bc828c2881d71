import StyleGuide.LogicalLine.Mask
import StyleGuide.Proofs.Rule.Respacing
import StyleGuide.RowRule

/-! # Where rules point

What a rule finds has one of the codes of the rule. A rule for rows points into the row, in front
of its terminator. A rule for statements points at an end of a token, at a comment, or between two
characters of the logical line of which not both belong to the hidden body of a literal.
-/

namespace StyleGuide

namespace Text

theorem prefix_withoutTerminator_of_forall {a row : Text} (h : a <+: row)
    (gap : ∀ c ∈ a, c = ' ' ∨ c = '\t') : a <+: withoutTerminator row := by
  refine prefix_withoutTerminator h fun c hc => ?_
  rcases gap c (List.mem_of_getLast? hc) with rfl | rfl <;> decide

/-- Spaces and tabs have one byte each. -/
theorem byteLength_of_forall {s : Text} (gap : ∀ c ∈ s, c = ' ' ∨ c = '\t') :
    byteLength s = s.length := by
  induction s with
  | nil => rfl
  | cons c s ih =>
      have one : c.utf8Size = 1 := by rcases gap c (by simp) with rfl | rfl <;> rfl
      rw [byteLength_cons, one, ih fun d hd => gap d (by simp [hd]), List.length_cons, Nat.add_comm]

theorem exists_of_find? {part s : Text} {n : Nat} (h : find? part s = some n) :
    ∃ a b, s = a ++ (part ++ b) ∧ byteLength a = n := by
  obtain ⟨⟨a, b⟩, hc, hn⟩ := Option.map_eq_some_iff.mp h
  exact ⟨a, b, by rw [← List.append_assoc, append_of_cut? hc], hn⟩

end Text

/-! ## Rules for rows -/

/-- A rule for rows points at a place between two characters of the row. -/
structure RowContext.Points (ctx : RowContext) (codes : List Code) (f : Finding) : Prop where
  code : f.code ∈ codes
  place : ∃ before, before <+: Text.withoutTerminator ctx.row ∧
    f.place.column = Text.byteLength before

theorem RowRule.points_of_check {rule : RowRule} {ctx : RowContext} {f : Finding}
    (h : rule.check ctx = some f) : ctx.Points rule.codes f := by
  have gaps : ∀ c ∈ indentation ctx.row, c = ' ' ∨ c = '\t' := fun c hc => by
    simpa using List.mem_takeWhile_imp hc
  have inner (p : Char → Bool) : ∃ before, before <+: Text.withoutTerminator ctx.row ∧
      ((indentation ctx.row).takeWhile p).length = Text.byteLength before := by
    have gaps' : ∀ c ∈ (indentation ctx.row).takeWhile p, c = ' ' ∨ c = '\t' :=
      fun c hc => gaps c ((List.takeWhile_prefix p).subset hc)
    have start : (indentation ctx.row).takeWhile p <+: ctx.row :=
      (List.takeWhile_prefix p).trans (List.takeWhile_prefix _)
    exact ⟨_, Text.prefix_withoutTerminator_of_forall start gaps',
      (Text.byteLength_of_forall gaps').symm⟩
  have margin : ∃ before, before <+: Text.withoutTerminator ctx.row ∧
      0 = Text.byteLength before := ⟨[], List.nil_prefix, rfl⟩
  cases rule with
  | lineLength =>
      simp only [check, LineLength.check] at h
      split at h
      · cases h
      · cases h
        exact ⟨by simp [Finding.atOffset, codes], _, (List.take_prefix _ _).trans
          (Text.trimEnd_prefix_withoutTerminator _), rfl⟩
  | missingNewline =>
      simp only [check, MissingNewline.check] at h
      split at h
      · next whole =>
          cases h
          refine ⟨by simp [Finding.atOffset, codes], _, ?_, rfl⟩
          conv_lhs => rw [← whole]
          exact Text.trimEnd_prefix_withoutTerminator _
      · cases h
  | tabIndentation =>
      simp only [check, TabIndentation.check] at h
      split at h
      · cases h
        exact ⟨by simp [Finding.atOffset, codes], inner _⟩
      · cases h
  | mixedIndentation =>
      simp only [check, MixedIndentation.check] at h
      split at h
      · cases h
        exact ⟨by simp [Finding.atOffset, codes], inner _⟩
      · cases h
  | trailingBlankLine =>
      simp only [check, TrailingBlankLine.check] at h
      split at h
      · cases h
        exact ⟨by simp [Finding.atOffset, codes], margin⟩
      · cases h
  | trailingWhitespace =>
      simp only [check, TrailingWhitespace.check] at h
      split at h
      · cases h
      · split at h
        · cases h
          exact ⟨by simp [Finding.atOffset, codes], margin⟩
        · cases h
          refine ⟨by simp [Finding.atOffset, codes], _, ?_, rfl⟩
          have content : Text.trimEnd (TrailingWhitespace.content ctx.row) =
              Text.trimEnd ctx.row := by
            rw [TrailingWhitespace.content, Text.trimEnd_dropEndWhile, Text.trimEnd_dropEndWhile,
              Text.trimEnd_dropEndWhile]
            all_goals
              intro c hc
              rw [beq_iff_eq.mp hc]
              rfl
          rw [content]
          exact Text.trimEnd_prefix_withoutTerminator _

/-! ## Rules for statements -/

/-- A place in a logical line where not both neighbours belong to the hidden body of a literal. -/
inductive IsExposed (a b : Text) : Prop where
  | behind (h : ∀ c ∈ a.getLast?, c ≠ maskFiller)
  | front (h : ∀ c ∈ b.head?, c ≠ maskFiller)
  /-- What looks like a body is a name in front of an equals sign. -/
  | name {rest : Text} (h : b = maskFiller :: '=' :: rest)

theorem IsExposed.of_head {a b : Text} {c : Char} (hc : c ≠ maskFiller) : IsExposed a (c :: b) :=
  .front (by simpa using hc)

theorem IsExposed.of_last {a b : Text} {c : Char} (hc : c ≠ maskFiller) :
    IsExposed (a ++ [c]) b :=
  .behind (by simpa using hc)

theorem ne_maskFiller_of_isBlank {c : Char} (h : Text.isBlank c) : c ≠ maskFiller := by
  rintro rfl
  cases h

theorem ne_maskFiller_of_not_isFirm {c : Char} (h : ¬isFirm c) : c ≠ maskFiller := by
  rintro rfl
  exact h rfl

/-- A finding at an exposed place of a text, of which the part `s` starts at byte `offset`. -/
def PointsInto (offset : Nat) (s : Text) (f : Finding) : Prop :=
  ∃ a b, s = a ++ b ∧ (∀ x, IsExposed (x ++ a) b) ∧ f.place = .offset (offset + Text.byteLength a)

namespace PointsInto

variable {offset : Nat} {s part : Text} {f : Finding}

theorem append (part : Text) (h : PointsInto (offset + Text.byteLength part) s f) :
    PointsInto offset (part ++ s) f := by
  obtain ⟨a, b, rfl, exposed, place⟩ := h
  refine ⟨part ++ a, b, by simp, fun x => ?_, ?_⟩
  · rw [← List.append_assoc]
    exact exposed _
  · rw [place, Text.byteLength_append, Nat.add_assoc]

theorem cons (c : Char) (h : PointsInto (offset + c.utf8Size) s f) :
    PointsInto offset (c :: s) f :=
  append [c] h

theorem of_head {c : Char} (hc : c ≠ maskFiller) (place : f.place = .offset offset) :
    PointsInto offset (c :: s) f :=
  ⟨[], c :: s, rfl, fun _ => .of_head hc, place⟩

/-- The first occurrence of a text, or a place in it. -/
theorem of_find? {a b text : Text} {n : Nat} (h : Text.find? (a ++ b) text = some n)
    (exposed : ∀ x rest, IsExposed (x ++ a) (b ++ rest))
    (place : f.place = .offset (n + Text.byteLength a)) : PointsInto 0 text f := by
  obtain ⟨before, rest, rfl, rfl⟩ := Text.exists_of_find? h
  refine ⟨before ++ a, b ++ rest, by simp, fun x => ?_, ?_⟩
  · rw [← List.append_assoc]
    exact exposed _ _
  · rw [place, Text.byteLength_append, Nat.zero_add]

theorem of_find?_cons {c : Char} {b text : Text} {n : Nat} (h : Text.find? (c :: b) text = some n)
    (hc : c ≠ maskFiller) (place : f.place = .offset n) : PointsInto 0 text f :=
  of_find? (a := []) h (fun _ _ => .of_head hc) place

end PointsInto

theorem ne_maskFiller_of_isSeparator {c : Char} (h : isSeparator c) : c ≠ maskFiller :=
  ne_maskFiller_of_not_isFirm (not_isFirm_of_isSeparator h)

theorem utf8Size_of_isSeparator {c : Char} (h : isSeparator c) : c.utf8Size = 1 := by
  simp only [isSeparator, Bool.or_eq_true, beq_iff_eq] at h
  obtain (rfl | rfl) | rfl := h <;> rfl

theorem utf8Size_of_isOpening {c : Char} (h : isOpening c) : c.utf8Size = 1 := by
  simp only [isOpening, Bool.or_eq_true, beq_iff_eq] at h
  obtain (rfl | rfl) | rfl := h <;> rfl

theorem utf8Size_of_isClosing {c : Char} (h : isClosing c) : c.utf8Size = 1 := by
  simp only [isClosing, Bool.or_eq_true, beq_iff_eq] at h
  obtain (rfl | rfl) | rfl := h <;> rfl

theorem InnerSpace.points_of_first? {offset : Nat} {before : Option Char} {s : Text} {f : Finding}
    (h : first? offset before s = some f) :
    f.code ∈ StatementRule.innerSpace.codes ∧ PointsInto offset s f := by
  fun_induction first? offset before s with
  | case1 offset before c d rest opening =>
      cases h
      simp only [isAfterOpening, Bool.and_eq_true] at opening
      refine ⟨by simp [Finding.atOffset, StatementRule.codes], [c], d :: rest, rfl, fun x => ?_, ?_⟩
      · exact .of_last (ne_maskFiller_of_not_isFirm (not_isFirm_of_isOpening opening.1))
      · simp [Finding.atOffset, utf8Size_of_isOpening opening.1]
  | case2 offset c d rest _ mark ih =>
      obtain ⟨code, points⟩ := ih h
      simp only [isBeforeMark, Bool.and_eq_true, Bool.or_eq_true, beq_iff_eq] at mark
      obtain ⟨rfl, mark⟩ := mark
      have one : d.utf8Size = 1 := mark.elim utf8Size_of_isClosing utf8Size_of_isSeparator
      have size : Char.utf8Size ' ' = 1 := rfl
      refine ⟨code, .cons _ (.cons _ ?_)⟩
      rwa [one, size]
  | case3 offset before c d rest _ mark _ code =>
      cases h
      simp only [isBeforeMark, Bool.and_eq_true, beq_iff_eq] at mark
      obtain ⟨rfl, -⟩ := mark
      refine ⟨?_, .of_head (by decide) rfl⟩
      simp only [Finding.atOffset, code]
      split <;> simp [StatementRule.codes]
  | case4 offset before c d rest _ _ ih =>
      obtain ⟨code, points⟩ := ih h
      exact ⟨code, points.cons c⟩
  | case5 => cases h

theorem MissingSeparatorSpace.points_of_first? {offset opened closed : Nat} {s : Text}
    {f : Finding} (h : first? offset opened closed s = some f) :
    f.code ∈ StatementRule.missingSeparatorSpace.codes ∧ PointsInto offset s f := by
  fun_induction first? offset opened closed s with
  | case1 offset opened closed c d rest needed =>
      cases h
      simp only [isNeeded, Bool.and_eq_true] at needed
      exact ⟨by simp [Finding.atOffset, StatementRule.codes],
        .of_head (ne_maskFiller_of_isSeparator needed.1.1.1.1) rfl⟩
  | case2 offset opened closed c d rest _ ih =>
      obtain ⟨code, points⟩ := ih h
      exact ⟨code, points.cons c⟩
  | case3 => cases h

theorem WideSeparatorSpace.points_of_check {ctx : StatementContext} {f : Finding}
    (h : check ctx = some f) :
    f.code ∈ StatementRule.wideSeparatorSpace.codes ∧ PointsInto 0 ctx.text f := by
  obtain ⟨mark, hm, h⟩ := List.exists_of_findSome?_eq_some h
  have one : mark.utf8Size = 1 := by
    simp only [List.mem_cons, List.not_mem_nil, or_false] at hm
    obtain rfl | rfl | rfl := hm <;> rfl
  simp only [first?] at h
  split at h
  · next n hn =>
      cases h
      exact ⟨by simp [Finding.atOffset, StatementRule.codes],
        .of_find? (a := [mark]) (b := [' ', ' ']) hn (fun _ _ => .of_head (by decide))
          (by simp [Finding.atOffset, one])⟩
  · obtain ⟨n, hn, rfl⟩ := Option.map_eq_some_iff.mp h
    exact ⟨by simp [Finding.atOffset, StatementRule.codes],
      .of_find? (a := [mark]) (b := ['\t']) hn (fun _ _ => .of_head (by decide))
        (by simp [Finding.atOffset, one])⟩

namespace ArgumentEquals

theorem flatMap_text_parts (s : Text) : (parts s).flatMap Part.text = s := by
  fun_induction parts s with
  | case1 rest ih | case2 rest ih | case4 c d rest _ _ _ ih | case5 c rest _ _ _ ih =>
      simp [Part.text, ih]
  | case3 c d rest _ _ _ ih => simp [Part.text, ih]
  | case6 => rfl

theorem points_of_first? {offset depth : Nat} {ps : List Part} {f : Finding}
    (h : first? offset depth ps = some f) : f.code ∈ StatementRule.argumentEquals.codes ∧
      PointsInto offset (ps.flatMap Part.text) f := by
  induction ps generalizing offset depth with
  | nil => cases h
  | cons p rest ih =>
      rw [List.flatMap_cons]
      cases p with
      | plain | opening | closing =>
          obtain ⟨code, points⟩ := ih h
          exact ⟨code, points.append _⟩
      | spaced before after =>
          simp only [first?] at h
          split at h
          · cases h
            refine ⟨by simp [Finding.atOffset, StatementRule.codes], [], _, rfl, fun x => ?_, rfl⟩
            by_cases hb : before = maskFiller
            · exact .name (by rw [hb]; rfl)
            · exact .of_head hb
          · obtain ⟨code, points⟩ := ih h
            exact ⟨code, points.append _⟩

end ArgumentEquals

namespace WideOperatorSpace

/-- A part of a statement whose gap, if it has one, is a wide one of white space. -/
def Part.IsWide : Part → Prop
  | .plain _ => True
  | .wide _ gap _ => isWide gap ∧ ∀ c ∈ gap, Text.isBlank c

theorem flatMap_text_parts (s : Text) :
    (parts s).flatMap Part.text = s ∧ ∀ p ∈ parts s, p.IsWide := by
  fun_induction parts s with
  | case1 => exact ⟨rfl, List.forall_mem_nil _⟩
  | case2 c rest before gap width wide after ih =>
      obtain ⟨whole, each⟩ := ih
      refine ⟨?_, ?_⟩
      · rw [List.flatMap_cons, whole]
        exact append_parts c rest wide
      · rintro p (_ | ⟨_, hp⟩)
        · exact ⟨wide, fun d hd => List.mem_takeWhile_imp hd⟩
        · exact each p hp
  | case3 c rest before gap width plain ih =>
      obtain ⟨whole, each⟩ := ih
      refine ⟨?_, ?_⟩
      · rw [List.flatMap_cons, whole]
        cases width with
        | zero => rfl
        | succ n => simp [Part.text]
      · rintro p (_ | ⟨_, hp⟩)
        · trivial
        · exact each p hp

/-- The last tab or pair of spaces of a wide gap. -/
theorem exists_beforeLastWide {gap : Text} (wide : isWide gap) :
    ∃ c rest, gap = beforeLastWide gap ++ c :: rest := by
  induction gap with
  | nil => cases wide
  | cons c rest ih =>
      by_cases hr : isWide rest
      · obtain ⟨d, behind, eq⟩ := ih hr
        refine ⟨d, behind, ?_⟩
        rw [beforeLastWide, if_pos hr, List.cons_append, ← eq]
      · exact ⟨c, rest, by rw [beforeLastWide, if_neg hr, List.nil_append]⟩

theorem Part.points_of_finding? {offset : Nat} {p : Part} {f : Finding} (wide : p.IsWide)
    (h : p.finding? offset = some f) (more : Text) :
    f.code ∈ StatementRule.wideOperatorSpace.codes ∧ PointsInto offset (p.text ++ more) f := by
  cases p with
  | plain => cases h
  | wide before gap after =>
      obtain ⟨wide, blank⟩ := wide
      obtain ⟨c, rest, eq⟩ := exists_beforeLastWide wide
      have hc : c ≠ maskFiller := ne_maskFiller_of_isBlank (blank c (by rw [eq]; simp))
      have place : f.code ∈ StatementRule.wideOperatorSpace.codes ∧ f.place =
          .offset (offset + Text.byteLength before + Text.byteLength (beforeLastWide gap)) := by
        simp only [finding?] at h
        split at h
        · split at h <;> cases h <;> exact ⟨by simp [Finding.atOffset, StatementRule.codes], rfl⟩
        · split at h
          · split at h <;> cases h <;> exact ⟨by simp [Finding.atOffset, StatementRule.codes], rfl⟩
          · cases h
      refine ⟨place.1, before ++ beforeLastWide gap, c :: rest ++ after ++ more, ?_,
        fun _ => .of_head hc, ?_⟩
      · simp only [text]
        conv_lhs => rw [eq]
        simp
      · rw [place.2, Text.byteLength_append, Nat.add_assoc]

theorem points_of_first? {offset : Nat} {ps : List Part} {f : Finding}
    (wide : ∀ p ∈ ps, p.IsWide) (h : first? offset ps = some f) :
    f.code ∈ StatementRule.wideOperatorSpace.codes ∧
      PointsInto offset (ps.flatMap Part.text) f := by
  induction ps generalizing offset with
  | nil => cases h
  | cons p rest ih =>
      rw [List.flatMap_cons]
      cases here : p.finding? offset with
      | some found =>
          simp only [first?, here, Option.orElse_eq_orElse, Option.orElse_some,
            Option.some.injEq] at h
          subst h
          exact Part.points_of_finding? (wide p (by simp)) here _
      | none =>
          simp only [first?, here, Option.orElse_eq_orElse, Option.orElse_none] at h
          obtain ⟨code, points⟩ := ih (fun q hq => wide q (by simp [hq])) h
          exact ⟨code, points.append _⟩

end WideOperatorSpace

theorem CompoundStatement.points_of_check {ctx : StatementContext} {f : Finding}
    (h : check ctx = some f) :
    f.code ∈ StatementRule.compoundStatement.codes ∧ PointsInto 0 ctx.text f := by
  have semicolon (h : ((Text.find? [';'] ctx.text).map fun n =>
      Finding.atOffset n .e702 "multiple statements on one line (semicolon)") = some f) :
      f.code ∈ StatementRule.compoundStatement.codes ∧ PointsInto 0 ctx.text f := by
    obtain ⟨n, hn, rfl⟩ := Option.map_eq_some_iff.mp h
    exact ⟨by simp [Finding.atOffset, StatementRule.codes], .of_find?_cons hn (by decide) rfl⟩
  simp only [check] at h
  split at h
  · next before after hc =>
      split at h
      · cases h
        have found : Text.find? [':'] ctx.text = some (Text.byteLength before) := by
          rw [Text.find?, hc]
          rfl
        exact ⟨by simp [Finding.atOffset, StatementRule.codes],
          .of_find?_cons found (by decide) rfl⟩
      · exact semicolon h
  · exact semicolon h

theorem RaiseComma.points_of_check {ctx : StatementContext} {f : Finding}
    (h : check ctx = some f) :
    f.code ∈ StatementRule.raiseComma.codes ∧ PointsInto 0 ctx.text f := by
  obtain ⟨r, hr, rfl⟩ := Option.map_eq_some_iff.mp h
  refine ⟨by simp [Finding.atOffset, StatementRule.codes], ?_⟩
  simp only [parse?] at hr
  split at hr
  · next word =>
      obtain ⟨behind, whole⟩ := List.isPrefixOf_iff_prefix.mp word
      split at hr
      · split at hr
        · cases hr
        · next some =>
            cases hr
            rw [← whole, List.drop_left] at some ⊢
            simp only [Bool.or_eq_true, List.isEmpty_iff, not_or] at some
            obtain ⟨s, c, eq⟩ := (List.eq_nil_or_concat _).resolve_left some.1
            have blank : Text.isBlank c :=
              List.mem_takeWhile_imp (show c ∈ behind.takeWhile Text.isBlank by rw [eq]; simp)
            refine ⟨"raise".toList ++ behind.takeWhile Text.isBlank,
              behind.dropWhile Text.isBlank, by simp, fun x => ?_, by
                simp only [Finding.atOffset, Nat.zero_add]⟩
            rw [eq, List.concat_eq_append, ← List.append_assoc, ← List.append_assoc]
            exact .of_last (ne_maskFiller_of_isBlank blank)
      · cases hr
  · cases hr

/-! ## Places of tokens -/

/-- The places that a rule for statements may point at. -/
inductive StatementContext.Points (ctx : StatementContext) : Place → Prop where
  | offset {a b : Text} (whole : ctx.text = a ++ b) (exposed : IsExposed a b) :
      Points ctx (.offset (Text.byteLength a))
  | start {t : Token} (mem : t ∈ ctx.tokens) (spaced : isSpaced t) : Points ctx (.position t.start)
  | stop {t : Token} (mem : t ∈ ctx.tokens) (spaced : isSpaced t) : Points ctx (.position t.stop)
  | comment {t : Token} (mem : t ∈ ctx.tokens) (kind : t.kind = .comment) :
      Points ctx (.position t.start)
  /-- The end of a token in front of a comment on the same row. -/
  | behind {t u : Token} (sub : [t, u].Sublist ctx.tokens) (content : t.isContent)
      (kind : u.kind = .comment) (row : t.stop.row = u.start.row) : Points ctx (.position t.stop)
  /-- No row has the number zero. -/
  | nowhere {t : Token} (mem : t ∈ ctx.tokens) (kind : t.kind = .comment)
      (row : t.start.row = 0) : Points ctx (.position ⟨0, 0⟩)


namespace StatementContext.Points

variable {ctx : StatementContext} {f : Finding}

theorem of_pointsInto (h : PointsInto 0 ctx.text f) : ctx.Points f.place := by
  obtain ⟨a, b, whole, exposed, place⟩ := h
  rw [place, Nat.zero_add]
  exact .offset whole (exposed [])

theorem margin (place : f.place = .offset 0) : ctx.Points f.place := by
  rw [place]
  exact .offset (a := []) (List.nil_append _).symm (.behind nofun)

end StatementContext.Points

theorem ArgumentSpace.points_of_first? {before? : Option Token} {before : Token} {ts : List Token}
    {f : Finding} (h : first? before? before ts = some f) :
    f.code ∈ StatementRule.argumentSpace.codes ∧
      ∃ t ∈ before :: ts, f.place = .position t.stop := by
  fun_induction first? before? before ts with
  | case1 => cases h
  | case2 before? before t rest apart =>
      cases h
      exact ⟨by simp [Finding.atPosition, StatementRule.codes], before, by simp, rfl⟩
  | case3 before? before t rest _ ih =>
      obtain ⟨code, u, hu, place⟩ := ih h
      exact ⟨code, u, List.mem_cons_of_mem _ hu, place⟩

namespace InlineComment

/-- Where the rule points behind a token that ends at `before`: at a comment, or in front of one at
    the end of the token before it. -/
inductive PointsAt (before : Position) (ts : List Token) : Place → Prop where
  | comment {t : Token} (mem : t ∈ ts) (kind : t.kind = .comment) :
      PointsAt before ts (.position t.start)
  | first {t : Token} (mem : t ∈ ts) (kind : t.kind = .comment) (row : before.row = t.start.row) :
      PointsAt before ts (.position before)
  | behind {t u : Token} (sub : [t, u].Sublist ts) (content : t.isContent)
      (kind : u.kind = .comment) (row : t.stop.row = u.start.row) :
      PointsAt before ts (.position t.stop)

theorem PointsAt.later {before : Position} {t : Token} {ts : List Token} {place : Place}
    (h : PointsAt before ts place) : PointsAt before (t :: ts) place := by
  cases h with
  | comment mem kind => exact .comment (List.mem_cons_of_mem _ mem) kind
  | first mem kind row => exact .first (List.mem_cons_of_mem _ mem) kind row
  | behind sub content kind row => exact .behind (sub.cons t) content kind row

theorem PointsAt.content {before : Position} {t : Token} {ts : List Token} {place : Place}
    (ht : t.isContent) (h : PointsAt t.stop ts place) : PointsAt before (t :: ts) place := by
  cases h with
  | comment mem kind => exact .comment (List.mem_cons_of_mem _ mem) kind
  | first mem kind row => exact .behind ((List.singleton_sublist.mpr mem).cons_cons t) ht kind row
  | behind sub content kind row => exact .behind (sub.cons t) content kind row

theorem points_of_first? {before : Position} {ts : List Token} {f : Finding}
    (h : first? before ts = some f) :
    f.code ∈ StatementRule.inlineComment.codes ∧ PointsAt before ts f.place := by
  fun_induction first? before ts with
  | case1 => cases h
  | case2 before t rest _ ih | case4 before t rest _ _ _ ih | case6 before t rest _ _ _ _ _ ih =>
      obtain ⟨code, points⟩ := ih h
      exact ⟨code, points.later⟩
  | case3 before t rest layout other ih =>
      obtain ⟨code, points⟩ := ih h
      exact ⟨code, points.content (by simp [Token.isContent, layout, other])⟩
  | case5 before t rest _ comment _ near =>
      cases h
      simp only [bne_iff_ne, ne_eq, Decidable.not_not] at comment
      exact ⟨by simp [Finding.atPosition, StatementRule.codes], .first (by simp) comment near.1⟩
  | case7 before t rest _ comment _ _ _ =>
      cases h
      simp only [bne_iff_ne, ne_eq, Decidable.not_not] at comment
      exact ⟨by simp [Finding.atPosition, StatementRule.codes], .comment (by simp) comment⟩

end InlineComment

/-- A rule for statements reports its own codes, and points at a place of the statement. -/
theorem StatementRule.points_of_check {rule : StatementRule} {ctx : StatementContext} {f : Finding}
    (h : rule.check ctx = some f) : f.code ∈ rule.codes ∧ ctx.Points f.place := by
  cases rule with
  | blankLines =>
      have margin : f.code ∈ blankLines.codes ∧ f.place = .offset 0 := by
        simp only [check, BlankLines.check] at h
        repeat' split at h
        all_goals cases h <;> exact ⟨by simp [Finding.atOffset, codes], rfl⟩
      exact ⟨margin.1, .margin margin.2⟩
  | compoundStatement =>
      obtain ⟨code, points⟩ := CompoundStatement.points_of_check h
      exact ⟨code, .of_pointsInto points⟩
  | innerSpace =>
      obtain ⟨code, points⟩ := InnerSpace.points_of_first? h
      exact ⟨code, .of_pointsInto points⟩
  | separateImports =>
      simp only [check, SeparateImports.check] at h
      split at h
      · obtain ⟨n, hn, rfl⟩ := Option.map_eq_some_iff.mp h
        exact ⟨by simp [Finding.atOffset, codes],
          .of_pointsInto (.of_find?_cons hn (by decide) rfl)⟩
      · cases h
  | blockIndentation =>
      have margin : f.code ∈ blockIndentation.codes ∧ f.place = .offset 0 := by
        simp only [check, BlockIndentation.check] at h
        repeat' split at h
        all_goals cases h <;> exact ⟨by simp [Finding.atOffset, codes], rfl⟩
      exact ⟨margin.1, .margin margin.2⟩
  | missingSeparatorSpace =>
      obtain ⟨code, points⟩ := MissingSeparatorSpace.points_of_first? h
      exact ⟨code, .of_pointsInto points⟩
  | missingOperatorSpace =>
      obtain ⟨q, hq, rfl⟩ := Option.map_eq_some_iff.mp h
      refine ⟨by simp [Finding.atPosition, codes], ?_⟩
      obtain ⟨t, ht, -, rfl | rfl⟩ :=
        MissingOperatorSpace.exists_of_mem_gaps (List.mem_of_mem_head? hq)
      · exact .start (List.mem_filter.mp ht).1 (List.mem_filter.mp ht).2
      · exact .stop (List.mem_filter.mp ht).1 (List.mem_filter.mp ht).2
  | backticks | notEqual | hasKey =>
      obtain ⟨n, hn, rfl⟩ := Option.map_eq_some_iff.mp h
      exact ⟨by simp [Finding.atOffset, codes],
        .of_pointsInto (.of_find?_cons hn (by decide) rfl)⟩
  | raiseComma =>
      obtain ⟨code, points⟩ := RaiseComma.points_of_check h
      exact ⟨code, .of_pointsInto points⟩
  | wideSeparatorSpace =>
      obtain ⟨code, points⟩ := WideSeparatorSpace.points_of_check h
      exact ⟨code, .of_pointsInto points⟩
  | argumentEquals =>
      obtain ⟨code, points⟩ := ArgumentEquals.points_of_first? h
      rw [ArgumentEquals.flatMap_text_parts] at points
      exact ⟨code, .of_pointsInto points⟩
  | wideOperatorSpace =>
      obtain ⟨whole, wide⟩ := WideOperatorSpace.flatMap_text_parts ctx.text
      obtain ⟨code, points⟩ := WideOperatorSpace.points_of_first? wide h
      rw [whole] at points
      exact ⟨code, .of_pointsInto points⟩
  | inlineComment =>
      obtain ⟨code, points⟩ := InlineComment.points_of_first? h
      refine ⟨code, ?_⟩
      generalize f.place = place at points
      cases points with
      | comment mem kind => exact .comment mem kind
      | first mem kind row => exact .nowhere mem kind row.symm
      | behind sub content kind row => exact .behind sub content kind row
  | argumentSpace =>
      simp only [check, ArgumentSpace.check] at h
      split at h
      · cases h
      · next t rest eq =>
          obtain ⟨code, u, hu, place⟩ := ArgumentSpace.points_of_first? h
          obtain ⟨mem, spaced⟩ := List.mem_filter.mp (eq ▸ hu)
          exact ⟨code, place ▸ .stop mem spaced⟩

end StyleGuide
