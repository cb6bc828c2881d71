import Mathlib.Data.List.Infix
import StyleGuide.LogicalLine
import StyleGuide.Proofs.TokenStream.Feed
import StyleGuide.Rule.Compound

/-! # The heads of compound statements

The colon that ends the head of a compound statement stands outside all brackets. Only the first
colon of a statement is looked at, and brackets are counted kind by kind, which comes to the same as
to nest them.
-/

namespace StyleGuide

namespace Text

variable {p : Char → Bool} {c : Char}

theorem go_runs_ne_nil (p : Char → Bool) (s : Text) : runs.go p s ≠ [] := by
  cases s with
  | nil => simp [runs.go]
  | cons c s =>
      rw [runs.go, List.foldr_cons]
      split
      · unfold consFirst
        split <;> simp
      · simp

theorem go_runs_append_cons (hc : p c = false) (s t : Text) :
    runs.go p (s ++ c :: t) = runs.go p s ++ runs.go p t := by
  induction s with
  | nil => simp [runs.go, hc]
  | cons d s ih =>
      unfold runs.go at ih ⊢
      rw [List.cons_append, List.foldr_cons, List.foldr_cons, ih]
      split
      · have filled := go_runs_ne_nil p s
        unfold runs.go at filled
        obtain ⟨run, more, eq⟩ := List.exists_cons_of_ne_nil filled
        rw [eq]
        rfl
      · rfl

/-- What ends a run ends it whatever follows. -/
theorem mem_runs_append_cons (hc : p c = false) {s run : Text} (h : run ∈ runs p s) (t : Text) :
    run ∈ runs p (s ++ c :: t) := by
  obtain ⟨mem, filled⟩ := List.mem_filter.mp h
  refine List.mem_filter.mpr ⟨?_, filled⟩
  rw [go_runs_append_cons hc]
  exact List.mem_append_left _ mem

/-- The search for a character stops at the first one. -/
theorem cut?_char {first : Text} (none : c ∉ first) (rest : Text) :
    cut? [c] (first ++ c :: rest) = some (first, rest) := by
  induction first with
  | nil => simp [cut?]
  | cons d first ih =>
      simp only [List.mem_cons, not_or] at none
      rw [List.cons_append, cut?, if_neg (by simpa using none.1), ih none.2]
      rfl

end Text

namespace CompoundStatement

/-- The brackets that open, each with the one that closes it. -/
def brackets : List (Char × Char) := [('\x7b', '\x7d'), ('[', ']'), ('(', ')')]

/-- What is open behind one more character, where `stack` is open in front of it. -/
def openBehind? (stack : List Char) (c : Char) : Option (List Char) :=
  match brackets.find? (·.1 = c) with
  | some b => some (b.2 :: stack)
  | none =>
    if brackets.any (·.2 = c) then if stack.head? = some c then some stack.tail else none
    else some stack

/-- The brackets that are open behind a text, the innermost first, each written as the bracket that
    is to close it. There is no answer where a bracket closes any other than the innermost one. -/
def unclosed? (text : Text) : Option (List Char) := text.foldlM openBehind? []

/-- What stands behind the text lies outside all brackets. -/
def IsOutside (text : Text) : Prop := unclosed? text = some []

instance (text : Text) : Decidable (IsOutside text) := inferInstanceAs (Decidable (_ = _))

variable {stack stack' : List Char} {c : Char} {b : Char × Char}

/-- Each kind of bracket has an opening and a closing of its own. -/
theorem eq_iff_of_mem_brackets : ∀ b ∈ brackets, ∀ d ∈ brackets,
    (d.1 = b.1 ↔ d.2 = b.2) ∧ d.1 ≠ b.2 := by decide

/-- What a character adds to the open brackets of one kind. -/
theorem count_of_openBehind? (hb : b ∈ brackets) (h : openBehind? stack c = some stack') :
    (stack.count b.2 + if c = b.1 then 1 else 0) =
      stack'.count b.2 + if c = b.2 then 1 else 0 := by
  unfold openBehind? at h
  split at h
  · next d found =>
      obtain rfl := Option.some.inj h
      have hd := List.mem_of_find?_eq_some found
      obtain rfl : d.1 = c := by simpa using List.find?_some found
      obtain ⟨same, other⟩ := eq_iff_of_mem_brackets b hb d hd
      rw [if_neg other, List.count_cons]
      simp [same]
  · next none =>
      have opens : c ≠ b.1 := by
        rintro rfl
        simpa using List.find?_eq_none.mp none b hb
      rw [if_neg opens]
      split at h
      · split at h
        · next top =>
            obtain rfl := Option.some.inj h
            obtain ⟨rest, rfl⟩ := List.head?_eq_some_iff.mp top
            simp [List.count_cons]
        · cases h
      · next closes =>
          obtain rfl := Option.some.inj h
          rw [if_neg fun eq => closes (List.any_eq_true.mpr ⟨b, hb, decide_eq_true eq.symm⟩)]

/-- Only brackets are open. -/
theorem mem_brackets_of_openBehind? (h : openBehind? stack c = some stack')
    (all : ∀ d ∈ stack, d ∈ brackets.map Prod.snd) :
    ∀ d ∈ stack', d ∈ brackets.map Prod.snd := by
  unfold openBehind? at h
  split at h
  · next b found =>
      obtain rfl := Option.some.inj h
      exact List.forall_mem_cons.mpr
        ⟨List.mem_map_of_mem (List.mem_of_find?_eq_some found), all⟩
  · split at h
    · split at h
      · obtain rfl := Option.some.inj h
        exact fun d hd => all d (List.mem_of_mem_tail hd)
      · cases h
    · obtain rfl := Option.some.inj h
      exact all

theorem counts_of_foldlM {text : Text} (h : text.foldlM openBehind? stack = some stack')
    (all : ∀ d ∈ stack, d ∈ brackets.map Prod.snd) :
    (∀ b ∈ brackets, stack.count b.2 + text.count b.1 = stack'.count b.2 + text.count b.2) ∧
      ∀ d ∈ stack', d ∈ brackets.map Prod.snd := by
  induction text generalizing stack with
  | nil =>
      obtain rfl := Option.some.inj h
      exact ⟨fun _ _ => rfl, all⟩
  | cons c text ih =>
      rw [List.foldlM_cons] at h
      obtain ⟨next, step, rest⟩ := Option.bind_eq_some_iff.mp h
      obtain ⟨counts, all⟩ := ih rest (mem_brackets_of_openBehind? step all)
      refine ⟨fun b hb => ?_, all⟩
      have one := count_of_openBehind? hb step
      have more := counts b hb
      simp only [List.count_cons, beq_iff_eq]
      omega

/-- Where brackets nest, all are closed exactly if each kind is opened no more often than it is
    closed. -/
theorem isClosed_iff {text : Text} (h : unclosed? text = some stack) :
    (∀ b ∈ brackets, text.count b.1 ≤ text.count b.2) ↔ stack = [] := by
  obtain ⟨counts, all⟩ := counts_of_foldlM h nofun
  constructor
  · intro closed
    refine List.eq_nil_iff_forall_not_mem.mpr fun d hd => ?_
    obtain ⟨b, hb, rfl⟩ := List.mem_map.mp (all d hd)
    have some := List.count_pos_iff.mpr hd
    have total := counts b hb
    have le := closed b hb
    rw [List.count_nil] at total
    omega
  · rintro rfl b hb
    have total := counts b hb
    simp only [List.count_nil] at total
    omega

theorem isHead_iff {text : Text} : isHead text ↔
    (∀ b ∈ brackets, text.count b.1 ≤ text.count b.2) ∧
      "lambda".toList ∉ Text.runs Text.isWord text := by
  simp [isHead, isClosed, brackets, and_assoc]

/-- Initial parts of a text whose brackets nest are such texts. -/
theorem exists_unclosed?_of_append {s t : Text} (h : unclosed? (s ++ t) = some stack) :
    ∃ stack', unclosed? s = some stack' := by
  rw [unclosed?, List.foldlM_append] at h
  obtain ⟨stack', first, -⟩ := Option.bind_eq_some_iff.mp h
  exact ⟨stack', first⟩

/-- The finding is there exactly if the first colon ends a head with more behind it. -/
theorem check_e701_iff {ctx : StatementContext} {first rest : Text}
    (split : ctx.text = first ++ ':' :: rest) (none : ':' ∉ first) :
    (∃ finding ∈ check ctx, finding.code = .e701) ↔ rest ≠ [] ∧ isHead first := by
  have semicolon : ∀ finding ∈ (Text.find? [';'] ctx.text).map fun n =>
      Finding.atOffset n .e702 "multiple statements on one line (semicolon)",
      finding.code ≠ .e701 := by
    intro finding hf
    obtain ⟨n, -, rfl⟩ := Option.map_eq_some_iff.mp hf
    simp [Finding.atOffset]
  simp only [check]
  rw [show Text.cut? [':'] ctx.text = some (first, rest) by rw [split, Text.cut?_char none]]
  simp only
  split
  · next head =>
      refine iff_of_true ⟨_, rfl, rfl⟩ ?_
      simpa using head
  · next head =>
      refine iff_of_false (fun ⟨finding, hf, code⟩ => semicolon finding hf code) ?_
      simpa using head

/-- The first colon of a text stands where another one does or in front of it. -/
theorem exists_first {text front behind : Text} (split : text = front ++ ':' :: behind)
    (plain : "lambda".toList ∉ Text.runs Text.isWord front) (more : behind ≠ []) :
    ∃ rest, text = text.takeWhile (· != ':') ++ ':' :: rest ∧ rest ≠ [] ∧
      "lambda".toList ∉ Text.runs Text.isWord (text.takeWhile (· != ':')) ∧
      text.takeWhile (· != ':') <+: front := by
  have parts := List.takeWhile_append_dropWhile (p := (· != ':')) (l := front)
  have free : ∀ c ∈ front.takeWhile (· != ':'), (c != ':') = true :=
    fun c hc => List.mem_takeWhile_imp (p := (· != ':')) hc
  have first (s : Text) : (front.takeWhile (· != ':') ++ ':' :: s).takeWhile (· != ':') =
      front.takeWhile (· != ':') := by
    rw [List.takeWhile_append_of_pos free, List.takeWhile_cons_of_neg (by simp), List.append_nil]
  cases later : front.dropWhile (· != ':') with
  | nil =>
      rw [later, List.append_nil] at parts
      rw [parts] at first
      rw [split, first]
      exact ⟨behind, rfl, more, plain, List.prefix_refl front⟩
  | cons c between =>
      obtain rfl : c = ':' := by
        have stops := List.head?_dropWhile_not (· != ':') front
        rw [later] at stops
        simpa using stops
      rw [later] at parts
      have whole : text = front.takeWhile (· != ':') ++ ':' :: (between ++ ':' :: behind) := by
        rw [split, ← List.cons_append, ← List.append_assoc, parts]
      rw [whole, first]
      refine ⟨_, rfl, by simp, fun named => plain ?_, List.takeWhile_prefix _⟩
      rw [← parts]
      exact Text.mem_runs_append_cons (by decide) named between

/-- Wherever a statement has a colon with no lambda in front of it and more text behind it, a
    compound statement on one row is reported exactly if no kind of bracket is opened in front of
    the first colon more often than it is closed there. If the colon lies outside all brackets, it
    is reported exactly if the first colon does so as well. -/
theorem reported_iff_first_isOutside {ctx : StatementContext} {front behind : Text}
    (split : ctx.text = front ++ ':' :: behind)
    (plain : "lambda".toList ∉ Text.runs Text.isWord front) (more : behind ≠ []) :
    let first := ctx.text.takeWhile (· != ':')
    ((∃ finding ∈ check ctx, finding.code = .e701) ↔
        ∀ b ∈ brackets, first.count b.1 ≤ first.count b.2) ∧
      (IsOutside front →
        ((∃ finding ∈ check ctx, finding.code = .e701) ↔ IsOutside first)) := by
  intro first
  obtain ⟨rest, whole, filled, named, initial⟩ := exists_first split plain more
  have none : ':' ∉ first := fun mem => by simpa using List.mem_takeWhile_imp mem
  have reported : (∃ finding ∈ check ctx, finding.code = .e701) ↔
      ∀ b ∈ brackets, first.count b.1 ≤ first.count b.2 := by
    rw [check_e701_iff whole none, isHead_iff]
    exact ⟨fun h => h.2.1, fun closed => ⟨filled, closed, named⟩⟩
  refine ⟨reported, fun outside => ?_⟩
  obtain ⟨between, rfl⟩ := initial
  obtain ⟨stack, open_⟩ := exists_unclosed?_of_append outside
  rw [reported, isClosed_iff open_, IsOutside, open_, Option.some.injEq]

/-- The colon behind the call is the first one. -/
theorem reported_iff_first_isOutside_of_call :
    let ctx : StatementContext :=
      ⟨"if f(x[0]): y = z[a:b]".toList, [], none, 1, 0, 0, [], 0, 0⟩
    let front := "if f(x[0])".toList
    let behind := " y = z[a:b]".toList
    ctx.text = front ++ ':' :: behind ∧ "lambda".toList ∉ Text.runs Text.isWord front ∧
      behind ≠ [] ∧ IsOutside front ∧ ctx.text.takeWhile (· != ':') = front ∧
      ∃ finding ∈ check ctx, finding.code = .e701 := by
  intro ctx front behind
  have split : ctx.text = front ++ ':' :: behind := by decide
  have plain : "lambda".toList ∉ Text.runs Text.isWord front := by decide +kernel
  have more : behind ≠ [] := by decide
  have outside : IsOutside front := by decide
  have first : ctx.text.takeWhile (· != ':') = front := by decide
  obtain ⟨-, reported⟩ := reported_iff_first_isOutside split plain more
  exact ⟨split, plain, more, outside, first, (reported outside).mpr (first ▸ outside)⟩

/-- Behind a slice the colon of the head is not the first one, and nothing is reported. -/
theorem none_reported_behind_slice :
    let source := "if x[1:2]: y()\n".toList
    ∃ tokens line front behind, tokenize source = .ok tokens ∧
      LogicalLine.ofTokens? (Rows.ofSource source) tokens = some line ∧
      line.text = front ++ ':' :: behind ∧ behind.head? ≠ some '=' ∧ IsOutside front ∧
      "lambda".toList ∉ Text.runs Text.isWord front ∧ behind ≠ [] ∧
      ∀ ctx : StatementContext, ctx.text = line.text → check ctx = none := by
  intro source
  obtain ⟨tokens, read⟩ : ∃ tokens, (tokenize source).toOption = some tokens :=
    Option.isSome_iff_exists.mp (by decide +kernel)
  have text : (LogicalLine.ofTokens? (Rows.ofSource source)
      ((tokenize source).toOption.getD [])).map LogicalLine.text =
        some "if x[1:2]: y()".toList := by
    decide +kernel
  rw [read] at text
  obtain ⟨line, built, text⟩ := Option.map_eq_some_iff.mp text
  refine ⟨tokens, line, "if x[1:2]".toList, " y()".toList, eq_ok_of_toOption read, built, text,
    by decide, by decide, by decide +kernel, by decide, fun ctx same => ?_⟩
  unfold check
  rw [same, text]
  decide +kernel

end CompoundStatement

end StyleGuide
