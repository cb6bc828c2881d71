import StyleGuide.Proofs.TokenStream.Runs

/-! # Brackets and blocks nest

The tokens of a source are read once more with nothing but a count of the open brackets and the open
blocks. No token is refused, and what the tokenizer remembers between rows is what is counted.
-/

namespace StyleGuide

/-- How many brackets and blocks are open. -/
structure Nesting where
  brackets : Nat
  blocks : Nat
  deriving Repr, DecidableEq

namespace Nesting

/-- What is open behind a token. There is no answer where a bracket or a block closes that was never
    opened, where a statement ends or a block opens or closes inside brackets, and behind the end of
    the source. -/
def step? (n : Nesting) (t : Token) : Option Nesting :=
  match t.kind with
  | .newline => if n.brackets = 0 then some n else none
  | .indent => if n.brackets = 0 then some { n with blocks := n.blocks + 1 } else none
  | .dedent =>
    if n.brackets = 0 ∧ n.blocks ≠ 0 then some { n with blocks := n.blocks - 1 } else none
  | .endMarker => none
  | .rowBreak => some n
  | .name | .number | .operator | .string | .comment | .stray =>
    if t.closesBracket ∧ n.brackets = 0 then none
    else some { n with brackets := t.depthBehind n.brackets }

/-- What is open behind some tokens. -/
def run? (n : Nesting) (tokens : List Token) : Option Nesting := tokens.foldlM step? n

variable {n m : Nesting} {t : Token} {tokens : List Token}

@[simp] theorem run?_nil (n : Nesting) : n.run? [] = some n := rfl

theorem run?_cons (n : Nesting) (t : Token) (tokens : List Token) :
    n.run? (t :: tokens) = (n.step? t).bind fun m => m.run? tokens := rfl

theorem run?_append (n : Nesting) (ts us : List Token) :
    n.run? (ts ++ us) = (n.run? ts).bind fun m => m.run? us := List.foldlM_append

/-- Behind some tokens more tokens can only stand if the first do. -/
theorem exists_run?_of_append {ts us : List Token} (h : n.run? (ts ++ us) = some m) :
    ∃ k, n.run? ts = some k ∧ k.run? us = some m := by
  rw [run?_append] at h
  exact Option.bind_eq_some_iff.mp h

theorem step?_of_isSolid (solid : t.isSolid) (opened : t.closesBracket → n.brackets ≠ 0) :
    n.step? t = some { n with brackets := t.depthBehind n.brackets } := by
  have open_ : ¬(t.closesBracket ∧ n.brackets = 0) := fun ⟨closes, zero⟩ => opened closes zero
  unfold Token.isSolid at solid
  unfold step?
  cases hk : t.kind <;> simp_all [Token.Kind.isLayout]

/-! ## What the counts say of the tokens -/

theorem not_closesBracket_of_opensBracket (h : t.opensBracket) : t.closesBracket = false := by
  simp only [Token.opensBracket, Token.isOperator, Bool.or_eq_true, Bool.and_eq_true,
    beq_iff_eq] at h
  simp only [Token.closesBracket, Token.isOperator]
  rcases h with (⟨-, eq⟩ | ⟨-, eq⟩) | ⟨-, eq⟩ <;> rw [eq] <;> simp

theorem not_bracket_of_kind (h : t.kind ≠ .operator) :
    t.opensBracket = false ∧ t.closesBracket = false := by
  simp [Token.opensBracket, Token.closesBracket, Token.isOperator, h]

/-- What a token adds to the number of open brackets, where it closes none that was never
    opened. -/
theorem counts_depthBehind {depth : Nat} (opened : ¬(t.closesBracket ∧ depth = 0)) :
    (depth + if t.opensBracket then 1 else 0) =
      t.depthBehind depth + if t.closesBracket then 1 else 0 := by
  unfold Token.depthBehind
  cases opens : t.opensBracket with
  | true => simp [not_closesBracket_of_opensBracket opens]
  | false =>
      cases closes : t.closesBracket with
      | false => simp
      | true =>
          have pos : depth ≠ 0 := fun zero => opened ⟨closes, zero⟩
          simp only [if_true, Bool.false_eq_true, if_false]
          omega

/-- What one token adds to the counts. -/
theorem counts_of_step? (h : n.step? t = some m) :
    (n.brackets + if t.opensBracket then 1 else 0) =
        (m.brackets + if t.closesBracket then 1 else 0) ∧
      (n.blocks + if t.kind = .indent then 1 else 0) =
        m.blocks + if t.kind = .dedent then 1 else 0 := by
  have mark (hk : t.kind ≠ .operator) : t.opensBracket = false ∧ t.closesBracket = false :=
    not_bracket_of_kind hk
  unfold step? at h
  cases hk : t.kind with
  | newline | indent =>
      simp only [hk, Option.ite_none_right_eq_some, Option.some.injEq] at h
      obtain ⟨-, rfl⟩ := h
      simp [mark (by simp [hk])]
  | dedent =>
      simp only [hk, Option.ite_none_right_eq_some, Option.some.injEq] at h
      obtain ⟨⟨-, pos⟩, rfl⟩ := h
      have back : n.blocks = n.blocks - 1 + 1 := (Nat.succ_pred pos).symm
      simp [mark (by simp [hk]), ← back]
  | endMarker => simp [hk] at h
  | rowBreak =>
      simp only [hk, Option.some.injEq] at h
      subst h
      simp [mark (by simp [hk])]
  | name | number | operator | string | comment | stray =>
      simp only [hk, Option.ite_none_left_eq_some, Option.some.injEq] at h
      obtain ⟨opened, rfl⟩ := h
      exact ⟨counts_depthBehind opened, by simp⟩

/-- What is open behind some tokens tells the counts of the marks among them. -/
theorem counts_of_run? (h : n.run? tokens = some m) :
    n.brackets + tokens.countP Token.opensBracket =
        m.brackets + tokens.countP Token.closesBracket ∧
      n.blocks + tokens.countP (·.kind = .indent) =
        m.blocks + tokens.countP (·.kind = .dedent) := by
  induction tokens generalizing n with
  | nil =>
      obtain rfl := Option.some.inj h
      exact ⟨rfl, rfl⟩
  | cons t tokens ih =>
      rw [run?_cons] at h
      obtain ⟨k, step, rest⟩ := Option.bind_eq_some_iff.mp h
      obtain ⟨brackets, blocks⟩ := counts_of_step? step
      obtain ⟨brackets', blocks'⟩ := ih rest
      simp only [List.countP_cons, decide_eq_true_eq]
      omega

/-- The marks that stand outside brackets only. -/
theorem brackets_of_step? (h : n.step? t = some m)
    (mark : t.kind = .newline ∨ t.kind = .indent ∨ t.kind = .dedent) : n.brackets = 0 := by
  unfold step? at h
  rcases mark with hk | hk | hk <;> simp only [hk, Option.ite_none_right_eq_some] at h
  · exact h.1
  · exact h.1
  · exact h.1.1

/-- In front of such a mark all brackets are closed. -/
theorem brackets_of_mark {front behind : List Token}
    (h : run? ⟨0, 0⟩ (front ++ [t] ++ behind) = some m)
    (mark : t.kind = .newline ∨ t.kind = .indent ∨ t.kind = .dedent) :
    front.countP Token.closesBracket = front.countP Token.opensBracket := by
  rw [List.append_assoc] at h
  obtain ⟨n, ahead, rest⟩ := exists_run?_of_append h
  rw [List.singleton_append, run?_cons] at rest
  obtain ⟨k, step, -⟩ := Option.bind_eq_some_iff.mp rest
  have closed : n.brackets = 0 := brackets_of_step? step mark
  have counts := (counts_of_run? ahead).1
  simp only [closed] at counts
  omega

theorem kind_ne_endMarker_of_run? (h : n.run? tokens = some m) :
    ∀ t ∈ tokens, t.kind ≠ .endMarker := by
  intro t ht hk
  obtain ⟨front, behind, rfl⟩ := List.append_of_mem ht
  obtain ⟨k, -, rest⟩ := exists_run?_of_append h
  rw [run?_cons] at rest
  simp [step?, hk] at rest

/-- Marks that close blocks, outside brackets. -/
theorem run?_dedents {α : Type} (l : List α) {t : Token} (hk : t.kind = .dedent) (blocks : Nat) :
    run? ⟨0, l.length + blocks⟩ (l.map fun _ => t) = some ⟨0, blocks⟩ := by
  induction l with
  | nil => simp
  | cons a l ih =>
      have step : step? ⟨0, (a :: l).length + blocks⟩ t = some ⟨0, l.length + blocks⟩ := by
        simp [step?, hk, Nat.add_right_comm]
      rw [List.map_cons, run?_cons, step]
      exact ih

end Nesting

/-! ## Reading rows -/

section Row

variable {row depth column : Nat} {line rest : Text} {items : List RowItem} {r : RowTokens}

/-- A bracket closes only where one is open. -/
theorem RowItem.depth_ne_zero_of_closesBracket {gap text behind : Text} {k : Lexeme} {d : Nat}
    (taken : k.Takes text behind) (ok : RowItem.depthAfter ⟨gap, k, text⟩ depth = .ok d)
    (closes : (RowItem.token ⟨gap, k, text⟩ row line column).closesBracket) : depth ≠ 0 := by
  simp only [Token.closesBracket, Token.isOperator, token, Bool.or_eq_true, Bool.and_eq_true,
    beq_iff_eq] at closes
  cases k with
  | joint | comment | number | terminator | literal | openLiteral | stray =>
      simp [kind] at closes
  | word =>
      rcases closes with (⟨-, eq⟩ | ⟨-, eq⟩) | ⟨-, eq⟩ <;>
        exact absurd eq (taken.ne_of_word (by decide))
  | operator =>
      rintro rfl
      rcases closes with (⟨-, rfl⟩ | ⟨-, rfl⟩) | ⟨-, rfl⟩ <;> cases ok

/-- The tokens of a row leave open what the row leaves open. -/
theorem run?_tokens (hi : Itemized rest items) (blocks : Nat)
    (h : RowItem.tokens row line depth column items = .ok r) :
    Nesting.run? ⟨depth, blocks⟩ r.tokens = some ⟨r.depth, blocks⟩ := by
  induction hi generalizing column depth r with
  | nil =>
      obtain rfl := Except.ok.inj h
      rfl
  | last _ _ ends =>
      cases RowItem.leads_of_tokens h with
      | joint | openLiteral => rfl
      | terminator =>
          by_cases zero : depth = 0 <;> simp [zero, Nesting.run?_cons, Nesting.step?]
      | token ends' =>
          rw [ends] at ends'
          cases ends'
  | @cons gap text _ k _ _ taken ends _ ih =>
      cases RowItem.leads_of_tokens h with
      | joint hk | openLiteral hk | terminator hk =>
          simp only at hk
          rw [hk] at ends
          cases ends
      | token _ ok rest =>
          have solid : (RowItem.token ⟨gap, k, text⟩ row line column).isSolid :=
            RowItem.isSolid_token ends
          have step := Nesting.step?_of_isSolid (n := ⟨depth, blocks⟩) solid
            (RowItem.depth_ne_zero_of_closesBracket taken ok)
          rw [RowItem.depthBehind_token taken ok] at step
          rw [RowTokens.after, Nesting.run?_cons, step]
          exact ih rest

end Row

namespace ScanState

variable {s t : ScanState} {line : Text} {rows : List Text}

/-- The widths of the open blocks from the outermost one on, which has width zero. -/
def widths (s : ScanState) : List Nat := 0 :: s.indents.reverse

/-- A row that begins a statement. -/
def Begins (s : ScanState) (line : Text) : Prop :=
  s.rowEnd = .plain ∧ s.depth = 0 ∧ s.betweenStatements? line = none

/-- The tokens so far leave open what is remembered, and each block is wider than the one around
    it. -/
structure IsNested (s : ScanState) : Prop where
  tokens : Nesting.run? ⟨0, 0⟩ s.tokens.toList = some ⟨s.depth, s.indents.length⟩
  widths : s.widths.Pairwise (· < ·)

theorem isNested_initial : initial.IsNested := ⟨rfl, by simp [ScanState.widths, initial]⟩

/-- Marks of blocks and then the tokens of a row. -/
theorem run?_advance {marks : List Token} {indents : List Nat} {r : RowTokens} {n : Nesting}
    (h : s.IsNested) (first : Nesting.run? ⟨s.depth, s.indents.length⟩ marks = some n)
    (behind : n.run? r.tokens = some ⟨r.depth, indents.length⟩) :
    Nesting.run? ⟨0, 0⟩ ({ s with indents := indents }.advance marks r).tokens.toList =
      some ⟨r.depth, indents.length⟩ := by
  rw [toList_tokens_advance, Nesting.run?_append, Nesting.run?_append, h.tokens]
  simp [first, behind]

/-- A row that goes on with a statement, or with no statement at all. -/
theorem IsNested.advance {marks : List Token} {r : RowTokens} (h : s.IsNested)
    (first : Nesting.run? ⟨s.depth, s.indents.length⟩ marks = some ⟨s.depth, s.indents.length⟩)
    (behind : Nesting.run? ⟨s.depth, s.indents.length⟩ r.tokens =
      some ⟨r.depth, s.indents.length⟩) : (s.advance marks r).IsNested where
  tokens := run?_advance h first behind
  widths := h.widths

/-- Blocks that close are wider than the row, and blocks that stay open are not. -/
theorem filter_widths {width : Nat} {shut kept : List Nat} (h : s.widths.Pairwise (· < ·))
    (indents : s.indents = shut ++ kept) (inner : ∀ w ∈ shut, width < w)
    (aligned : kept.headD 0 = width) :
    s.widths.filter (· < width) ++ [width] = 0 :: kept.reverse := by
  have none : shut.reverse.filter (· < width) = [] := by
    rw [List.filter_eq_nil_iff]
    intro w hw
    have := inner w (List.mem_reverse.mp hw)
    simp only [decide_eq_true_eq]
    omega
  rw [ScanState.widths, indents, List.reverse_append, ← List.cons_append] at h ⊢
  rw [List.filter_append, none, List.append_nil]
  cases kept with
  | nil =>
      obtain rfl : 0 = width := aligned
      rfl
  | cons w kept =>
      obtain rfl : w = width := aligned
      rw [List.reverse_cons, ← List.cons_append] at h ⊢
      have below := (List.pairwise_append.mp (List.pairwise_append.mp h).1).2.2
      have all : (0 :: kept.reverse).filter (· < w) = 0 :: kept.reverse := by
        rw [List.filter_eq_self]
        intro v hv
        exact decide_eq_true (below v hv w (List.mem_singleton_self w))
      rw [List.filter_append, all]
      simp

theorem lt_of_indent_lt {width : Nat} (h : s.widths.Pairwise (· < ·)) (deeper : s.indent < width) :
    ∀ w ∈ s.widths, w < width := by
  intro w hw
  cases hs : s.indents with
  | nil => simp_all [ScanState.widths, indent]
  | cons v rest =>
      rw [indent, hs] at deeper
      rw [ScanState.widths, hs, List.reverse_cons, ← List.cons_append] at h hw
      rcases List.mem_append.mp hw with hw | hw
      · have := (List.pairwise_append.mp h).2.2 w hw v (List.mem_singleton_self v)
        exact Nat.lt_trans this deeper
      · rw [List.mem_singleton.mp hw]
        exact deeper

/-- A row that begins a statement keeps open the blocks that are less wide, and the innermost open
    block is then as wide as the row. -/
theorem widths_of_feeds (h : s.widths.Pairwise (· < ·)) (begins : s.Begins line)
    (fed : Feeds s line t) :
    let width := indentWidth (line.takeWhile Lexeme.isGap)
    t.widths = s.widths.filter (· < width) ++ [width] := by
  intro width
  obtain ⟨plain, closed, starts⟩ := begins
  cases fed with
  | literalEnd he | literalMore he =>
      rw [plain] at he
      cases he
  | continued he =>
      rcases he with he | ⟨-, he⟩
      · rw [plain] at he
        cases he
      · exact absurd closed he
  | nothing _ _ between | between _ _ between =>
      rw [starts] at between
      cases between
  | indented _ _ _ deeper =>
      have all : s.widths.filter (· < width) = s.widths := by
        rw [List.filter_eq_self]
        intro w hw
        exact decide_eq_true (lt_of_indent_lt h deeper w hw)
      rw [all]
      exact congrArg (List.cons 0) List.reverse_cons
  | aligned _ _ _ indents inner aligned => exact (filter_widths h indents inner aligned).symm

theorem isNested_of_feeds (h : s.IsNested) (fed : Feeds s line t) : t.IsNested := by
  have sorted (begins : s.Begins line) : t.widths.Pairwise (· < ·) := by
    rw [widths_of_feeds h.widths begins fed]
    refine List.pairwise_append.mpr ⟨h.widths.filter _, List.pairwise_singleton _ _, ?_⟩
    intro v hv w hw
    rw [List.mem_singleton.mp hw]
    exact of_decide_eq_true (List.mem_filter.mp hv).2
  cases fed with
  | nothing => exact h
  | literalMore => exact h.advance rfl rfl
  | literalEnd _ _ scan => exact h.advance rfl (run?_tokens (itemized_list _) _ scan)
  | continued _ scan => exact h.advance rfl (run?_tokens (itemized_list _) _ scan)
  | between _ _ between =>
      cases isBetween_of_betweenStatements? between with
      | comment | blank => exact h.advance rfl rfl
  | indented plain closed starts _ scan =>
      refine ⟨?_, sorted ⟨plain, closed, starts⟩⟩
      refine run?_advance h ?_ (run?_tokens (itemized_list _) _ scan)
      simp [Nesting.run?_cons, Nesting.step?, indentToken, closed]
  | aligned plain closed starts indents _ _ scan =>
      refine ⟨?_, sorted ⟨plain, closed, starts⟩⟩
      refine run?_advance h ?_ (run?_tokens (itemized_list _) _ scan)
      rw [closed, indents, List.length_append]
      exact Nesting.run?_dedents _ rfl _

theorem isNested_of_feedsAll (h : s.IsNested) (fed : FeedsAll s rows t) : t.IsNested := by
  induction fed with
  | nil => exact h
  | cons fed _ ih => exact ih (isNested_of_feeds h fed)

/-- What is wrong with a token is never the width of a row. -/
theorem cause_of_depthAfter {item : RowItem} {depth : Nat} {c : SyntaxError.Cause}
    (h : item.depthAfter depth = .error c) : c ≠ .inconsistentDedent := by
  rintro rfl
  unfold RowItem.depthAfter at h
  split at h
  · split at h <;> cases h
  · split at h <;> cases h
  · cases h

theorem cause_of_tokens {row depth column : Nat} {items : List RowItem} {e : SyntaxError}
    (h : RowItem.tokens row line depth column items = .error e) :
    e.cause ≠ .inconsistentDedent := by
  induction items generalizing depth column with
  | nil => cases h
  | cons item items ih =>
      simp only [RowItem.tokens] at h
      split at h
      · cases h
      · cases h
      · cases h
      · split at h
        · next wrong =>
            obtain rfl := Except.error.inj h
            exact cause_of_depthAfter wrong
        · next depth' _ =>
            cases rest : RowItem.tokens row line depth'
                (item.token row line column).stop.column items with
            | error e' =>
                rw [rest] at h
                obtain rfl := Except.error.inj h
                exact ih rest
            | ok r =>
                rw [rest] at h
                cases h

/-- A row whose blocks are in order is not refused for its width. -/
theorem scanned_ne_error {row depth column : Nat} {rest : Text} (f : RowTokens → ScanState)
    (p : Position) : (do return f (← scanRow row line depth column rest)) ≠
      (.error ⟨.inconsistentDedent, p⟩ : Except SyntaxError ScanState) := by
  intro eq
  cases scanned : scanRow row line depth column rest with
  | ok r =>
      rw [scanned] at eq
      cases eq
  | error e =>
      rw [scanned] at eq
      obtain rfl := Except.error.inj eq
      exact cause_of_tokens scanned rfl

/-- The blocks that are no less wide than a row are left with one as wide as the row on top exactly
    if there is such a block. -/
theorem headD_dropWhile_iff {l : List Nat} (h : (l ++ [0]).Pairwise (· > ·)) (width : Nat) :
    (l.dropWhile (width < ·)).headD 0 = width ↔ width ∈ l ++ [0] := by
  induction l with
  | nil => simp [eq_comm]
  | cons w l ih =>
      obtain ⟨above, rest⟩ := List.pairwise_cons.mp h
      by_cases lt : width < w
      · rw [List.dropWhile_cons_of_pos (by simpa using lt), ih rest]
        simp [Nat.ne_of_lt lt]
      · rw [List.dropWhile_cons_of_neg (by simpa using lt)]
        constructor
        · rintro rfl
          simp
        · intro mem
          rcases List.mem_cons.mp mem with eq | mem
          · exact eq.symm
          · exact absurd (above width mem) lt

/-- A row that begins a statement is refused for its width exactly if it is less wide than the
    innermost open block and as wide as none. -/
theorem feed_eq_inconsistentDedent_iff (h : s.widths.Pairwise (· < ·)) (begins : s.Begins line) :
    let gap := line.takeWhile Lexeme.isGap
    s.feed line = .error ⟨.inconsistentDedent, ⟨s.row, Text.byteLength gap⟩⟩ ↔
      indentWidth gap < s.indent ∧ indentWidth gap ∉ s.widths := by
  intro gap
  obtain ⟨plain, closed, starts⟩ := begins
  have feed : s.feed line = s.openStatement line := by simp [feed, plain, closed, starts]
  have sorted : (s.indents ++ [0]).Pairwise (· > ·) := by
    rw [← List.pairwise_reverse]
    simpa [widths] using h
  have listed : indentWidth gap ∈ s.widths ↔
      (s.indents.dropWhile (indentWidth gap < ·)).headD 0 = indentWidth gap := by
    rw [headD_dropWhile_iff sorted]
    simp [widths, or_comm]
  rw [feed, listed]
  simp only [openStatement]
  split
  · next deeper =>
      exact ⟨fun eq => absurd eq (scanned_ne_error _ _), fun h => absurd deeper h.1.asymm⟩
  · next even =>
      split
      · next aligned =>
          exact ⟨fun eq => absurd eq (scanned_ne_error _ _), fun h => absurd aligned h.2⟩
      · next other =>
          refine ⟨fun _ => ⟨?_, other⟩, fun _ => rfl⟩
          refine Nat.lt_of_le_of_ne (Nat.le_of_not_lt even) fun eq => other ?_
          have mem : indentWidth gap ∈ s.indents ++ [0] := by
            rw [show indentWidth gap = s.indent from eq, indent]
            cases s.indents <;> simp
          exact (headD_dropWhile_iff sorted _).mpr mem

end ScanState

/-! ## The tokens of a source -/

/-- In front of each token no bracket or block has closed that was not open, in the end all are
    closed, statements end and blocks open and close outside brackets, and the last token is the
    only one that marks the end of the source. -/
structure WellNested (tokens : List Token) : Prop where
  brackets_le (front : List Token) : front <+: tokens →
    front.countP Token.closesBracket ≤ front.countP Token.opensBracket
  blocks_le (front : List Token) : front <+: tokens →
    front.countP (·.kind = .dedent) ≤ front.countP (·.kind = .indent)
  brackets : tokens.countP Token.closesBracket = tokens.countP Token.opensBracket
  blocks : tokens.countP (·.kind = .dedent) = tokens.countP (·.kind = .indent)
  outside (front : List Token) (t : Token) : front ++ [t] <+: tokens →
    t.kind = .newline ∨ t.kind = .indent ∨ t.kind = .dedent →
    front.countP Token.closesBracket = front.countP Token.opensBracket
  ending : ∃ body last, tokens = body ++ [last] ∧ last.kind = .endMarker ∧
    ∀ t ∈ body, t.kind ≠ .endMarker

/-- What can be counted, with nothing open in the end, and then marked as the end is well nested. -/
theorem wellNested_of_run? {body : List Token} {last : Token} (kind : last.kind = .endMarker)
    (h : Nesting.run? ⟨0, 0⟩ body = some ⟨0, 0⟩) : WellNested (body ++ [last]) := by
  have none : last.opensBracket = false ∧ last.closesBracket = false :=
    Nesting.not_bracket_of_kind (by simp [kind])
  have whole := Nesting.counts_of_run? h
  have counts {front : List Token} (hf : front <+: body) :
      front.countP Token.closesBracket ≤ front.countP Token.opensBracket ∧
        front.countP (·.kind = .dedent) ≤ front.countP (·.kind = .indent) := by
    obtain ⟨behind, rfl⟩ := hf
    obtain ⟨n, ahead, -⟩ := Nesting.exists_run?_of_append h
    have := Nesting.counts_of_run? ahead
    simp only at this
    omega
  have total : (body ++ [last]).countP Token.closesBracket =
        (body ++ [last]).countP Token.opensBracket ∧
      (body ++ [last]).countP (·.kind = .dedent) = (body ++ [last]).countP (·.kind = .indent) := by
    simp only [List.countP_append, List.countP_singleton, none, kind]
    simp only at whole
    constructor <;> simp <;> omega
  have parts {front : List Token} (hf : front <+: body ++ [last]) :
      front <+: body ∨ front = body ++ [last] := by
    rcases List.prefix_concat_iff.mp hf with rfl | hf
    · exact .inr rfl
    · exact .inl hf
  refine ⟨fun front hf => ?_, fun front hf => ?_, total.1, total.2, fun front t hf mark => ?_,
    body, last, rfl, kind, Nesting.kind_ne_endMarker_of_run? h⟩
  · rcases parts hf with hf | rfl
    · exact (counts hf).1
    · exact Nat.le_of_eq total.1
  · rcases parts hf with hf | rfl
    · exact (counts hf).2
    · exact Nat.le_of_eq total.2
  · rcases parts hf with ⟨behind, rfl⟩ | eq
    · exact Nesting.brackets_of_mark h mark
    · obtain ⟨-, eq⟩ := List.append_inj' eq rfl
      obtain rfl : t = last := List.singleton_inj.mp eq
      simp [kind] at mark

/-- The marks behind the last row close all blocks. -/
theorem ScanState.run?_endMarks {s : ScanState} {rows : List Text}
    (h : s.IsNested) (closed : s.depth = 0) :
    ∃ marks last, s.endMarks rows = marks ++ [last] ∧ last.kind = .endMarker ∧
      Nesting.run? ⟨0, 0⟩ (s.tokens.toList ++ marks) = some ⟨0, 0⟩ := by
  refine ⟨_, _, rfl, rfl, ?_⟩
  rw [Nesting.run?_append, h.tokens, closed, Option.bind_some, Nesting.run?_append]
  have newline {l : Text} {m : Token} (kind : m.kind = .newline) :
      Nesting.run? ⟨0, s.indents.length⟩ (if lacksNewline l then [m] else []) =
        some ⟨0, s.indents.length⟩ := by
    split <;> simp [Nesting.run?_cons, Nesting.step?, kind]
  rw [newline rfl, Option.bind_some]
  exact Nesting.run?_dedents s.indents rfl 0

/-- The tokens of a source are well nested. Whatever rows have been read, each open block is wider
    than the one around it; a row that begins a statement then closes the blocks that are wider
    than the row, and it is refused if it is less wide than the innermost block but as wide as
    none. -/
theorem wellNested_of_tokenize (source : Text) :
    (∀ tokens, tokenize source = .ok tokens → WellNested tokens) ∧
      ∀ (rows : List Text) (s : ScanState), rows.foldlM ScanState.feed .initial = .ok s →
        s.widths.Pairwise (· < ·) ∧
          ∀ line, s.Begins line →
            let gap := line.takeWhile Lexeme.isGap
            let width := indentWidth gap
            (∀ t, s.feed line = .ok t → t.widths = s.widths.filter (· < width) ++ [width]) ∧
              (s.feed line = .error ⟨.inconsistentDedent, ⟨s.row, Text.byteLength gap⟩⟩ ↔
                width < s.indent ∧ width ∉ s.widths) := by
  have nested {rows : List Text} {s : ScanState} (read : ScanState.FeedsAll .initial rows s) :
      s.IsNested := ScanState.isNested_of_feedsAll ScanState.isNested_initial read
  constructor
  · intro tokens h
    obtain ⟨s, read, -, closed, rfl⟩ := exists_of_tokenize h
    obtain ⟨marks, last, eq, kind, run⟩ := ScanState.run?_endMarks (nested read) closed
    rw [eq, ← List.append_assoc]
    exact wellNested_of_run? kind run
  · intro rows s read
    have sorted := (nested (ScanState.feedsAll_of_foldlM read)).widths
    refine ⟨sorted, fun line begins => ⟨fun t fed => ?_, ?_⟩⟩
    · exact ScanState.widths_of_feeds sorted begins (ScanState.feeds_of_feed fed)
    · exact ScanState.feed_eq_inconsistentDedent_iff sorted begins

/-- Behind a block in a block, the inner one as wide as a tab, a row of the width of the outer block
    closes one block, and a row of a width between the two is refused. -/
theorem wellNested_of_blocks :
    let front := "if f(a,\n   [b]):\n  x\n\n  if y:\n\t# c\n\tz\n".toList
    let row := "  (w\n".toList
    ∃ tokens s t, tokenize (front ++ row ++ ")\n".toList) = .ok tokens ∧ WellNested tokens ∧
      (Text.rows front).foldlM ScanState.feed .initial = .ok s ∧ s.widths = [0, 2, 8] ∧
      s.feed row = .ok t ∧ t.widths = [0, 2] ∧
      s.feed "    w\n".toList = .error ⟨.inconsistentDedent, ⟨8, 4⟩⟩ := by
  intro front row
  obtain ⟨tokens, read⟩ :
      ∃ tokens, (tokenize (front ++ row ++ ")\n".toList)).toOption = some tokens :=
    Option.isSome_iff_exists.mp (by decide +kernel)
  have before : ∃ s ∈ ((Text.rows front).foldlM ScanState.feed .initial).toOption,
      s.widths = [0, 2, 8] ∧ s.row = 8 ∧ s.indent = 8 ∧ s.rowEnd = .plain ∧ s.depth = 0 ∧
        s.betweenStatements? row = none ∧ s.betweenStatements? "    w\n".toList = none ∧
        (s.feed row).toOption.isSome := by
    decide +kernel
  obtain ⟨s, before, widths, number, inner, plain, closed, starts, starts', fed⟩ := before
  obtain ⟨t, fed⟩ := Option.isSome_iff_exists.mp fed
  obtain ⟨nested, step⟩ := wellNested_of_tokenize (front ++ row ++ ")\n".toList)
  obtain ⟨-, step⟩ := step _ _ (eq_ok_of_toOption before)
  have closes := (step row ⟨plain, closed, starts⟩).1 t (eq_ok_of_toOption fed)
  have refused := (step _ ⟨plain, closed, starts'⟩).2.mpr
  rw [widths] at closes
  rw [inner, widths, number] at refused
  exact ⟨tokens, s, t, eq_ok_of_toOption read, nested tokens (eq_ok_of_toOption read),
    eq_ok_of_toOption before, widths, eq_ok_of_toOption fed, closes, refused (by decide)⟩

end StyleGuide
