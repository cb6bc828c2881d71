import Mathlib.Data.List.Infix
import StyleGuide.Proofs.Rule.Raise
import StyleGuide.Proofs.Rule.Respacing
import StyleGuide.Proofs.Text.Occurrence

/-! # Fixes that leave nothing to find

Five rules look for a few characters in the text of a statement, and their fixes rewrite all places
where these stand. None of the places that come in or stay is one that the rule looks for.
-/

namespace StyleGuide

/-- The text without its spaces and tabs. -/
def Text.unspaced (s : Text) : Text := s.filter fun c => c != ' ' && c != '\t'

theorem Text.unspaced_cons (c : Char) {s t : Text} (h : s.unspaced = t.unspaced) :
    Text.unspaced (c :: s) = Text.unspaced (c :: t) := by
  unfold Text.unspaced at h ⊢
  rw [List.filter_cons, List.filter_cons, h]

theorem Text.unspaced_append (s t : Text) :
    Text.unspaced (s ++ t) = s.unspaced ++ t.unspaced := List.filter_append ..

/-! ## Spaces behind separators -/

namespace MissingSeparatorSpace

/-- Spaces come in behind characters only, so a text begins as before. -/
theorem exists_add_cons (opened closed : Nat) (c : Char) (s : Text) :
    ∃ t, add opened closed (c :: s) = c :: t := by
  cases s with
  | nil => exact ⟨[], rfl⟩
  | cons d s =>
      rw [add]
      split
      · exact ⟨_, rfl⟩
      · exact ⟨_, rfl⟩

/-- A space needs no space behind it and counts for no bracket. -/
theorem first?_space (offset opened closed : Nat) (s : Text) :
    ∃ n, first? offset opened closed (' ' :: s) = first? n opened closed s := by
  cases s with
  | nil => exact ⟨offset, rfl⟩
  | cons d s => exact ⟨_, rfl⟩

theorem first?_add (offset opened closed : Nat) (s : Text) :
    first? offset opened closed (add opened closed s) = none := by
  fun_induction add opened closed s generalizing offset with
  | case1 opened closed c d rest more needed ih =>
      have spaced : isNeeded opened closed c ' ' = false := by simp [isNeeded]
      obtain ⟨n, behind⟩ := first?_space (offset + c.utf8Size) (tally '[' c opened)
        (tally ']' c closed) more
      rw [first?, if_neg (by simp [spaced]), behind, ih]
  | case2 opened closed c d rest more needed ih =>
      obtain ⟨t, begins⟩ := exists_add_cons (tally '[' c opened) (tally ']' c closed) d rest
      have same : more = d :: t := begins
      rw [begins] at ih
      rw [same, first?, if_neg needed, ih]
  | case3 s opened closed short =>
      cases s with
      | nil => rfl
      | cons c s =>
          cases s with
          | nil => rfl
          | cons d s => exact absurd rfl (short c d s)

theorem unspaced_add (opened closed : Nat) (s : Text) :
    (add opened closed s).unspaced = s.unspaced := by
  fun_induction add opened closed s with
  | case1 opened closed c d rest more needed ih => exact Text.unspaced_cons c ih
  | case2 opened closed c d rest more needed ih => exact Text.unspaced_cons c ih
  | case3 => rfl

end MissingSeparatorSpace

namespace WideSeparatorSpace

/-- Where a text begins with no space or tab, it does so after its gaps have been collapsed. -/
theorem head?_collapse (s : Text) : (collapse s).head? = s.head? := by
  fun_cases collapse s <;> rfl

/-- The gaps that the rule looks for: two spaces, or a tab. -/
inductive IsWide : Text → Prop where
  | spaces : IsWide [' ', ' ']
  | tab : IsWide ['\t']

/-- A wide gap is not at the start of what stands behind a gap. -/
theorem IsWide.not_prefix_append {gap : Text} (wide : IsWide gap) {front s : Text}
    (short : front = [] ∨ front = [' ']) (solid : ∀ c ∈ s.head?, c ≠ ' ' ∧ c ≠ '\t') :
    ¬gap <+: front ++ s := by
  intro start
  cases wide with
  | spaces =>
      rcases short with rfl | rfl
      · cases s with
        | nil => simp at start
        | cons c s => exact (solid c rfl).1 (List.cons_prefix_cons.mp start).1.symm
      · cases s with
        | nil => simp at start
        | cons c s =>
            have second := (List.cons_prefix_cons.mp start).2
            exact (solid c rfl).1 (List.cons_prefix_cons.mp second).1.symm
  | tab =>
      rcases short with rfl | rfl
      · cases s with
        | nil => simp at start
        | cons c s => exact (solid c rfl).2 (List.cons_prefix_cons.mp start).1.symm
      · exact absurd (List.cons_prefix_cons.mp start).1 (by decide)

/-- What is left behind the gap at the start of a text begins with no space or tab. -/
theorem solid_drop (s : Text) :
    ∀ c ∈ (s.drop (s.takeWhile fun d => d == ' ' || d == '\t').length).head?,
      c ≠ ' ' ∧ c ≠ '\t' := by
  intro c hc
  have whole := List.takeWhile_append_dropWhile (p := fun d => d == ' ' || d == '\t') (l := s)
  nth_rewrite 2 [← whole] at hc
  rw [List.drop_left] at hc
  have solid := List.head?_dropWhile_not (fun d => d == ' ' || d == '\t') s
  rw [Option.mem_def.mp hc] at solid
  simpa using solid

theorem not_infix_collapse {mark : Char} {gap : Text} (separator : isSeparator mark)
    (wide : IsWide gap) (s : Text) : ¬mark :: gap <:+: collapse s := by
  fun_induction collapse s with
  | case1 => simp
  | case2 c rest here gap' behind none ih =>
      rw [List.infix_cons_iff, not_or]
      refine ⟨fun start => ?_, ih⟩
      have solid : ∀ d ∈ (collapse behind).head?, d ≠ ' ' ∧ d ≠ '\t' := by
        rw [head?_collapse]
        exact solid_drop rest
      exact wide.not_prefix_append (.inl rfl) solid (List.cons_prefix_cons.mp start).2
  | case3 c rest here gap' behind some ih =>
      have solid : ∀ d ∈ (collapse behind).head?, d ≠ ' ' ∧ d ≠ '\t' := by
        rw [head?_collapse]
        exact solid_drop rest
      rw [List.infix_cons_iff, List.infix_cons_iff, not_or, not_or]
      refine ⟨fun start => ?_, fun start => ?_, ih⟩
      · exact wide.not_prefix_append (.inr rfl) solid
          (List.cons_prefix_cons.mp start).2
      · obtain ⟨rfl, -⟩ := List.cons_prefix_cons.mp start
        exact absurd separator (by decide)
  | case4 c rest here ih =>
      rw [List.infix_cons_iff, not_or]
      refine ⟨fun start => ?_, ih⟩
      obtain ⟨rfl, -⟩ := List.cons_prefix_cons.mp start
      exact here separator

/-- Only spaces and tabs are taken away, and only spaces come in. -/
theorem unspaced_collapse (s : Text) : (collapse s).unspaced = s.unspaced := by
  fun_induction collapse s with
  | case1 => rfl
  | case2 c rest here gap behind none ih =>
      have same : behind = rest := by simp [behind, List.isEmpty_iff.mp none]
      rw [same] at ih ⊢
      exact Text.unspaced_cons c ih
  | case3 c rest here gap behind some ih =>
      have whole : gap ++ behind = rest := List.prefix_iff_eq_append.mp (List.takeWhile_prefix _)
      have blank : Text.unspaced gap = [] := by
        rw [Text.unspaced, List.filter_eq_nil_iff]
        intro d hd
        obtain rfl | rfl : d = ' ' ∨ d = '\t' := by simpa using List.mem_takeWhile_imp hd
        · decide
        · decide
      refine Text.unspaced_cons c ?_
      rw [← whole, Text.unspaced_append, blank]
      exact ih
  | case4 c rest here ih => exact Text.unspaced_cons c ih

/-- No separator has a wide gap behind it once the gaps have been collapsed. -/
theorem check_collapse (ctx : StatementContext) :
    check { ctx with text := collapse ctx.text } = none := by
  have silent {mark : Char} (separator : isSeparator mark) :
      first? (collapse ctx.text) mark = none := by
    have spaces := Text.find?_eq_none_iff.mpr (not_infix_collapse separator .spaces ctx.text)
    have tab := Text.find?_eq_none_iff.mpr (not_infix_collapse separator .tab ctx.text)
    rw [first?, spaces, tab]
    rfl
  have comma : first? (collapse ctx.text) ',' = none := silent rfl
  have semicolon : first? (collapse ctx.text) ';' = none := silent rfl
  have colon : first? (collapse ctx.text) ':' = none := silent rfl
  simp only [check, List.findSome?_cons, List.findSome?_nil, comma, semicolon, colon]

end WideSeparatorSpace

/-! ## Removed constructs -/

namespace NotEqual

/-- In front of the first place of a part the part does not occur. -/
theorem not_infix_of_cut? {part s before behind : Text} (some : part ≠ [])
    (h : Text.cut? part s = .some (before, behind)) : ¬part <:+: before := by
  rintro ⟨x, y, rfl⟩
  have none := Text.isFirst_of_cut? h x (y ++ part) (by simp)
  exact some (List.append_eq_nil_iff.mp none).2

/-- Neither the new operator nor what stands beside it makes an old one. -/
theorem parted_replace (s : Text) :
    Text.Parted '<' '>' (Text.replace "<>".toList "!=".toList s) := by
  fun_induction Text.replace "<>".toList "!=".toList s with
  | case1 s empty => exact absurd empty (by decide)
  | case2 s filled absent => exact Text.parted_of_absent (Text.cut?_eq_none_iff.mp absent)
  | case3 s filled before behind found _ ih =>
      have front := Text.parted_of_absent (not_infix_of_cut? filled found)
      have middle : Text.Parted '<' '>' ['!', '='] := .cons_cons (by decide) (.singleton _)
      refine List.IsChain.append (front.append middle ?_) ih ?_
      · rintro c - d hd ⟨-, rfl⟩
        cases hd
      · rintro c hc d - ⟨rfl, -⟩
        simp at hc

theorem check_replace (ctx : StatementContext) :
    check { ctx with text := Text.replace "<>".toList "!=".toList ctx.text } = none := by
  have absent : ¬"<>".toList <:+: Text.replace "<>".toList "!=".toList ctx.text :=
    (parted_replace ctx.text).not_infix_pair
  rw [check, Text.find?_eq_none_iff.mpr absent]
  rfl

end NotEqual

namespace Backticks

theorem notMem_call (isOpen : Bool) (s : Text) : backtick ∉ call isOpen s := by
  fun_induction call isOpen s with
  | case1 => exact List.not_mem_nil
  | case2 c rest here ih => exact List.not_mem_cons_of_ne_of_not_mem (by decide) ih
  | case3 isOpen c rest here closed ih =>
      have word : backtick ∉ "repr(".toList := by decide
      exact fun h => (List.mem_append.mp h).elim word ih
  | case4 isOpen c rest other ih =>
      refine List.not_mem_cons_of_ne_of_not_mem ?_ ih
      rintro rfl
      exact other (beq_self_eq_true _)

theorem check_call (ctx : StatementContext) :
    check { ctx with text := call false ctx.text } = none := by
  have absent : ¬[backtick] <:+: call false ctx.text := by
    rw [List.singleton_infix_iff]
    exact notMem_call false ctx.text
  rw [check, Text.find?_eq_none_iff.mpr absent]
  rfl

end Backticks

/-- A statement that is no raise statement with an argument stays, and any other becomes a call. -/
theorem RaiseComma.check_call (ctx : StatementContext) :
    check { ctx with text := ((parse? ctx.text).map Raise.call).getD ctx.text } = none := by
  cases h : parse? ctx.text with
  | none => simp only [check, Option.map_none, Option.getD_none, h]
  | some r => simp only [check, Option.map_some, Option.getD_some, parse?_call h, Option.map_none]

/-- A rule that rewrites all places of the text finds nothing in what its fix gives, whatever the
    text. Backticks are rewritten in pairs, so there has to be an even number of them. The rules
    for the white space behind separators change nothing but spaces and tabs. -/
theorem check_line_eq_none (ctx : StatementContext) (rule : StatementRule)
    (rewrites : rule ∈ [StatementRule.missingSeparatorSpace, .wideSeparatorSpace, .raiseComma,
      .notEqual, .backticks])
    (even : rule = .backticks → ctx.text.count Backticks.backtick % 2 = 0) :
    ∃ description new, rule.fix ctx = some ⟨description, .line new⟩ ∧
      rule.check { ctx with text := new } = none ∧
      (rule = .missingSeparatorSpace ∨ rule = .wideSeparatorSpace →
        new.unspaced = ctx.text.unspaced) := by
  simp only [List.mem_cons, List.not_mem_nil, or_false] at rewrites
  rcases rewrites with rfl | rfl | rfl | rfl | rfl
  · exact ⟨_, _, rfl, MissingSeparatorSpace.first?_add 0 0 0 ctx.text,
      fun _ => MissingSeparatorSpace.unspaced_add 0 0 ctx.text⟩
  · exact ⟨_, _, rfl, WideSeparatorSpace.check_collapse ctx,
      fun _ => WideSeparatorSpace.unspaced_collapse ctx.text⟩
  · exact ⟨_, _, rfl, RaiseComma.check_call ctx, fun other => by simp at other⟩
  · exact ⟨_, _, rfl, NotEqual.check_replace ctx, fun other => by simp at other⟩
  · have fixed : Backticks.fix ctx = some ⟨"backticks replaced with repr().",
        .line (Backticks.call false ctx.text)⟩ := if_pos (even rfl)
    exact ⟨_, _, fixed, Backticks.check_call ctx, fun other => by simp at other⟩

/-- Two pairs of backticks, one of them behind a semicolon, leave no backtick. -/
theorem check_line_of_two_pairs :
    let ctx : StatementContext := {
      text := Backticks.backtick :: "x".toList ++ Backticks.backtick :: "; y = ".toList ++
        Backticks.backtick :: "z".toList ++ [Backticks.backtick]
      tokens := [], indentChar := none, row := 1, indentLevel := 0, previousIndentLevel := 0
      previous := [], blankLines := 0, blankLinesBeforeComment := 0 }
    ∃ description new, StatementRule.backticks.fix ctx = some ⟨description, .line new⟩ ∧
      StatementRule.backticks.check { ctx with text := new } = none := by
  intro ctx
  obtain ⟨description, new, fixed, silent, -⟩ :=
    check_line_eq_none ctx .backticks (by simp) (fun _ => by decide)
  exact ⟨description, new, fixed, silent⟩

end StyleGuide
