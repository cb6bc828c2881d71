import Mathlib.Data.List.Induction
import StyleGuide.Proofs.TokenStream.Place

/-! # Runs of tokens

The tokens of a source fall into runs. A run is a row between statements, or a statement with all
the rows that brackets, literals and joining backslashes add to it. Every run has rows of its own,
and they come behind the rows of the run before it.
-/

namespace StyleGuide

namespace Token

/-- The number of open brackets behind a token. -/
def depthBehind (depth : Nat) (t : Token) : Nat :=
  if t.opensBracket then depth + 1 else if t.closesBracket then depth - 1 else depth

/-- Whether a run ends with a token, where `depth` brackets are open. -/
def endsRun (depth : Nat) (t : Token) : Bool :=
  match t.kind with
  | .newline | .rowBreak => depth == 0
  | .endMarker => true
  | _ => false

/-- Whether a token ends a statement, where `depth` brackets are open. -/
def endsStatement (depth : Nat) (t : Token) : Bool :=
  match t.kind with
  | .newline => depth == 0
  | .endMarker => true
  | _ => false

/-- A token goes on with the run, or ends a row between statements, or ends a statement. -/
theorem endsRun_cases (d : Nat) (t : Token) :
    t.endsRun d = false ∧ t.endsStatement d = false ∨
      t.endsRun d ∧ t.endsStatement d = false ∧ t.kind = .rowBreak ∧ d = 0 ∨
      t.endsRun d ∧ t.endsStatement d ∧ (t.kind = .newline ∧ d = 0 ∨ t.kind = .endMarker) := by
  unfold endsRun endsStatement
  cases t.kind <;> simp <;> grind

/-- A comment with nothing but white space in front of it on its row. -/
def beginsRow (t : Token) : Bool :=
  t.kind == .comment && Text.isAllBlank (Text.takeBytes t.start.column t.line)

/-- The token begins and ends on a row. -/
def IsOn (t : Token) (row : Nat) : Prop := t.start.row = row ∧ t.stop.row = row

end Token

/-- Tokens in runs. -/
structure Runs where
  /-- The runs that have ended. -/
  ended : List (List Token)
  /-- The number of open brackets. -/
  depth : Nat
  /-- The tokens of the run that goes on. -/
  current : List Token

namespace Runs

/-- The runs with one more token. -/
def step (r : Runs) (t : Token) : Runs :=
  if t.endsRun r.depth then ⟨r.ended ++ [r.current ++ [t]], r.depth, []⟩
  else ⟨r.ended, t.depthBehind r.depth, r.current ++ [t]⟩

/-- The runs of some tokens. -/
def of (tokens : List Token) : Runs := tokens.foldl step ⟨[], 0, []⟩

theorem of_append (ts us : List Token) : of (ts ++ us) = us.foldl step (of ts) :=
  List.foldl_append

theorem depthBehind_of_kind {t : Token} (h : t.kind ≠ .operator) (depth : Nat) :
    t.depthBehind depth = depth := by
  have none : ∀ text, t.isOperator text = false := by
    intro text
    simp [Token.isOperator, h]
  simp [Token.depthBehind, Token.opensBracket, Token.closesBracket, none]

/-- Marks of blocks, comments and tokens of statements end no run. -/
theorem step_of_not_endsRun {r : Runs} {t : Token} (h : t.endsRun r.depth = false) :
    r.step t = ⟨r.ended, t.depthBehind r.depth, r.current ++ [t]⟩ := by
  rw [step, h]
  rfl

theorem step_of_endsRun {r : Runs} {t : Token} (h : t.endsRun r.depth) :
    r.step t = ⟨r.ended ++ [r.current ++ [t]], r.depth, []⟩ := by
  rw [step, h]
  rfl

/-- Only operators change the depth, and they end no run. -/
theorem depth_step (r : Runs) (t : Token) : (r.step t).depth = t.depthBehind r.depth := by
  unfold step
  split
  · next ends =>
      refine (depthBehind_of_kind (fun operator => ?_) _).symm
      simp [Token.endsRun, operator] at ends
  · rfl

theorem endsRun_of_isSolid {t : Token} (h : t.isSolid) (depth : Nat) :
    t.endsRun depth = false := by
  unfold Token.isSolid at h
  unfold Token.endsRun
  cases hk : t.kind <;> simp_all [Token.Kind.isLayout]

/-- The runs put together are the tokens. -/
theorem flatten_of (tokens : List Token) :
    (of tokens).ended.flatten ++ (of tokens).current = tokens := by
  induction tokens using List.reverseRecOn with
  | nil => rfl
  | append_singleton tokens t ih =>
      rw [of_append, List.foldl_cons, List.foldl_nil, step]
      split
      · simpa [← List.append_assoc] using ih
      · rw [← List.append_assoc, ih]

theorem ended_prefix (tokens more : List Token) :
    (of tokens).ended <+: (of (tokens ++ more)).ended := by
  induction more using List.reverseRecOn with
  | nil => simp
  | append_singleton more t ih =>
      rw [← List.append_assoc, of_append, List.foldl_cons, List.foldl_nil, step]
      split
      · exact ih.trans (List.prefix_append _ _)
      · exact ih

/-- Where a statement ends, its tokens are a run behind the runs of the tokens before it. -/
theorem exists_ended {seen : List Token} {t : Token} (ahead : List Token)
    (ends : t.endsStatement (of seen).depth) :
    ∃ post, (of (seen ++ t :: ahead)).ended =
      (of seen).ended ++ ((of seen).current ++ [t]) :: post := by
  have ends : t.endsRun (of seen).depth := by
    rcases t.endsRun_cases (of seen).depth with ⟨-, other⟩ | ⟨-, other, -⟩ | ⟨here, -⟩
    · rw [ends] at other
      cases other
    · rw [ends] at other
      cases other
    · exact here
  obtain ⟨post, whole⟩ := ended_prefix (seen ++ [t]) ahead
  refine ⟨post, ?_⟩
  rw [List.append_assoc, List.singleton_append] at whole
  rw [← whole, of_append, List.foldl_cons, List.foldl_nil, step_of_endsRun ends, List.append_assoc]
  rfl

theorem infix_of_mem_ended {tokens run : List Token} (h : run ∈ (of tokens).ended) :
    run <:+: tokens := by
  conv_rhs => rw [← flatten_of tokens]
  exact (List.infix_of_mem_flatten h).trans (List.prefix_append _ _).isInfix

/-- Tokens that end no run, from one bracket depth to another. -/
inductive Goes : Nat → List Token → Nat → Prop where
  | nil {d : Nat} : Goes d [] d
  | cons {d e : Nat} {t : Token} {more : List Token} (goes : t.endsRun d = false)
      (rest : Goes (t.depthBehind d) more e) : Goes d (t :: more) e

theorem Goes.concat {d e : Nat} {ts : List Token} {t : Token} (h : Goes d ts e)
    (goes : t.endsRun e = false) : Goes d (ts ++ [t]) (t.depthBehind e) := by
  induction h with
  | nil => exact .cons goes .nil
  | cons first _ ih => exact .cons first (ih goes)

/-- Runs one behind the other, each with the token that ends it as its last. -/
inductive Splits : Nat → List (List Token) → Prop where
  | nil {d : Nat} : Splits d []
  | cons {d e : Nat} {ts : List Token} {t : Token} {runs : List (List Token)}
      (goes : Goes d ts e) (ends : t.endsRun e) (rest : Splits e runs) :
      Splits d ((ts ++ [t]) :: runs)

theorem exists_splits (tokens : List Token) {d e : Nat} {ended : List (List Token)}
    {current : List Token} (goes : Goes d current e)
    (done : (tokens.foldl step ⟨ended, e, current⟩).current = []) :
    ∃ runs, (tokens.foldl step ⟨ended, e, current⟩).ended = ended ++ runs ∧ Splits d runs := by
  induction tokens generalizing d e ended current with
  | nil => exact ⟨[], by simp, .nil⟩
  | cons t tokens ih =>
      rw [List.foldl_cons] at done ⊢
      cases ends : t.endsRun e with
      | true =>
          rw [step_of_endsRun ends] at done ⊢
          obtain ⟨runs, eq, rest⟩ := ih .nil done
          exact ⟨(current ++ [t]) :: runs, by rw [eq]; simp, .cons goes ends rest⟩
      | false =>
          rw [step_of_not_endsRun ends] at done ⊢
          exact ih (goes.concat ends) done

/-- Where nothing is left over, the tokens split into their runs. -/
theorem splits_of (tokens : List Token) (done : (of tokens).current = []) :
    Splits 0 (of tokens).ended := by
  obtain ⟨runs, eq, splits⟩ := exists_splits tokens .nil done
  rw [of, eq]
  exact splits

theorem Splits.exists_cons {d : Nat} {run : List Token} {runs : List (List Token)}
    (h : Splits d (run :: runs)) :
    ∃ ts t e, run = ts ++ [t] ∧ Goes d ts e ∧ t.endsRun e ∧ Splits e runs := by
  generalize hr : run :: runs = all at h
  cases h with
  | nil => cases hr
  | cons goes ends rest =>
      obtain ⟨rfl, rfl⟩ := List.cons.inj hr
      exact ⟨_, _, _, rfl, goes, ends, rest⟩

theorem Splits.ne_nil {d : Nat} {runs : List (List Token)} (h : Splits d runs) :
    ∀ run ∈ runs, run ≠ [] := by
  induction h with
  | nil => nofun
  | cons _ _ _ ih =>
      intro run hr
      rcases List.mem_cons.mp hr with rfl | hr
      · simp
      · exact ih run hr

/-- Tokens of one kind that mark blocks only join the run. -/
theorem foldl_step_marks {marks : List Token} (r : Runs)
    (h : ∀ m ∈ marks, m.kind = .indent ∨ m.kind = .dedent) :
    marks.foldl step r = ⟨r.ended, r.depth, r.current ++ marks⟩ := by
  induction marks generalizing r with
  | nil => simp
  | cons m marks ih =>
      have hm := h m (List.mem_cons_self ..)
      have ends : m.endsRun r.depth = false := by
        unfold Token.endsRun
        rcases hm with hm | hm <;> rw [hm]
      have depth : m.depthBehind r.depth = r.depth :=
        depthBehind_of_kind (by rcases hm with hm | hm <;> rw [hm] <;> simp) _
      rw [List.foldl_cons, step_of_not_endsRun ends, depth,
        ih _ fun k hk => h k (List.mem_cons_of_mem _ hk)]
      simp

end Runs

/-! ## Reading one row -/

section Row

variable {row depth column : Nat} {line rest : Text} {items : List RowItem} {r : RowTokens}
  {ended joins : Prop}

/-- How the rest of a row is read from a bracket depth on. Only a row that has not `ended` in a
    newline is left without a terminator, a joint or an open literal, and only one that `joins`
    holds a backslash. -/
inductive Scanned (row : Nat) (ended joins : Prop) : Nat → RowTokens → Prop where
  | out {d : Nat} (h : ¬ended) : Scanned row ended joins d ⟨[], d, .plain⟩
  | joint {d : Nat} (h : joins) : Scanned row ended joins d ⟨[], d, .joined⟩
  | openLiteral {d : Nat} {literal : OpenLiteral} (h : literal.start.row = row)
      (mark : Lexeme.isQuote literal.delimiter.mark) :
      Scanned row ended joins d ⟨[], d, .inLiteral literal⟩
  | terminator {d : Nat} {t : Token} (kind : t.kind = if d = 0 then .newline else .rowBreak)
      (on : t.IsOn row) : Scanned row ended joins d ⟨[t], d, .plain⟩
  | token {d : Nat} {t : Token} {r : RowTokens} (solid : t.isSolid) (on : t.IsOn row)
      (rest : Scanned row ended joins (t.depthBehind d) r) :
      Scanned row ended joins d (r.after t)

theorem Lexeme.Takes.getLast?_ne {k : Lexeme} {text behind : Text} (taken : k.Takes text behind)
    (he : k.endsRow = false) : text.getLast? ≠ some '\n' := by
  obtain ⟨c, more, n, rfl, read, starts⟩ := taken.starts
  rw [List.cons_append] at read
  have free {p : Char → Bool} (hp : p '\n' = false)
      (all : ∀ d ∈ (c :: (more ++ behind)).take n, p d) : (c :: more).getLast? ≠ some '\n' := by
    intro last
    have := all '\n' (by rw [read]; exact List.mem_of_getLast? last)
    rw [hp] at this
    cases this
  have within {p : Char → Bool} (hp : p '\n' = false)
      (hn : n = ((c :: (more ++ behind)).takeWhile p).length) :
      (c :: more).getLast? ≠ some '\n' := by
    refine free hp fun d hd => ?_
    rw [hn, ← List.prefix_iff_eq_take.mp (List.takeWhile_prefix p)] at hd
    exact List.mem_takeWhile_imp hd
  cases starts with
  | terminator | joint | openLiteral => cases he
  | comment => exact within (by decide) rfl
  | number hn => exact free (by decide) (Lexeme.reads_number? hn).1.2
  | operator hn => exact free (by decide) (Lexeme.reads_operator? hn).1.2
  | word => exact within (by decide) rfl
  | literal hn =>
      obtain ⟨literal, -⟩ := isLiteral_of_literal? hn
      rw [read] at literal
      intro last
      generalize c :: more = text at literal last
      cases literal with
      | intro hl hq single =>
          rename_i letters body q
          have mark : q.text.getLast? = some q.mark := by
            unfold Delimiter.text
            split <;> rfl
          rw [List.getLast?_append, mark] at last
          have newline : q.mark = '\n' := Option.some.inj last
          rw [newline] at hq
          exact absurd hq (by decide)
  | stray hc =>
      have single : c :: more = [c] := by simpa using read.symm
      intro last
      rw [single] at last
      obtain rfl : c = '\n' := Option.some.inj last
      have := taken.next_eq
      simp [next, terminator?] at this

/-- A terminator or a token that ends in no newline leaves something behind it on a row that ends
    in one. -/
theorem getLast?_of_takes {gap text behind : Text} {k : Lexeme} (taken : k.Takes text behind)
    (he : k.endsRow = false) (h : (gap ++ text ++ behind).getLast? = some '\n') :
    behind.getLast? = some '\n' := by
  cases behind with
  | nil =>
      obtain ⟨c, more, hc⟩ := List.exists_cons_of_ne_nil taken.ne_nil
      rw [List.append_nil, List.getLast?_append_of_ne_nil _ taken.ne_nil] at h
      exact absurd h (taken.getLast?_ne he)
  | cons c behind => rwa [List.getLast?_append_of_ne_nil _ (by simp)] at h

theorem Lexeme.Takes.ne_of_word {text behind : Text} (taken : Lexeme.word.Takes text behind)
    {o : Char} (ho : Text.isWord o = false) : text ≠ [o] := by
  obtain ⟨c, more, n, rfl, read, starts⟩ := taken.starts
  have hc : Text.isWord c := by
    cases starts
    assumption
  intro eq
  rw [(List.cons.inj eq).1, ho] at hc
  cases hc

theorem RowItem.depthBehind_token {gap text behind : Text} {k : Lexeme}
    (taken : k.Takes text behind) {d : Nat}
    (ok : RowItem.depthAfter ⟨gap, k, text⟩ depth = .ok d) :
    (RowItem.token ⟨gap, k, text⟩ row line column).depthBehind depth = d := by
  cases k with
  | joint | comment | number | terminator | literal | openLiteral =>
      obtain rfl := Except.ok.inj ok
      exact Runs.depthBehind_of_kind (by simp [token, kind]) _
  | stray =>
      simp only [depthAfter] at ok
      split at ok
      · cases ok
      · obtain rfl := Except.ok.inj ok
        exact Runs.depthBehind_of_kind (by simp [token, kind]) _
  | word =>
      obtain rfl := Except.ok.inj ok
      have other (o : Char) (ho : Text.isWord o = false) : text ≠ [o] := taken.ne_of_word ho
      simp [Token.depthBehind, Token.opensBracket, Token.closesBracket, Token.isOperator, token,
        other '(' (by decide), other '[' (by decide), other '\x7b' (by decide),
        other ')' (by decide), other ']' (by decide), other '\x7d' (by decide)]
  | operator =>
      simp only [depthAfter, depthAfter?] at ok
      split at ok
      · next eq =>
          split at eq
          · next opens =>
              obtain rfl := Option.some.inj eq
              obtain rfl := Except.ok.inj ok
              rcases opens with rfl | rfl | rfl <;> rfl
          · split at eq
            · next closes =>
                split at eq
                · cases eq
                · obtain rfl := Option.some.inj eq
                  obtain rfl := Except.ok.inj ok
                  rcases closes with rfl | rfl | rfl <;> rfl
            · next opens closes =>
                obtain rfl := Option.some.inj eq
                obtain rfl := Except.ok.inj ok
                simp only [not_or] at opens closes
                simp [Token.depthBehind, Token.opensBracket, Token.closesBracket,
                  Token.isOperator, token, opens, closes]
      · cases ok

theorem scanned_tokens (hi : Itemized rest items) (he : ended → rest.getLast? = some '\n')
    (hj : '\\' ∈ rest → joins) (h : RowItem.tokens row line depth column items = .ok r) :
    Scanned row ended joins depth r := by
  induction hi generalizing column depth r with
  | nil hg =>
      obtain rfl := Except.ok.inj h
      refine .out fun e => ?_
      exact absurd (hg '\n' (List.mem_of_getLast? (he e))) (by decide)
  | last hg taken ends =>
      cases RowItem.leads_of_tokens h with
      | joint hk =>
          obtain ⟨c, more, n, rfl, -, starts⟩ := taken.starts
          obtain rfl : _ = Lexeme.joint := hk
          cases starts with
          | joint hc => exact .joint (hj (by simp [hc]))
      | openLiteral hk =>
          obtain ⟨c, more, n, rfl, -, starts⟩ := taken.starts
          obtain rfl : _ = Lexeme.openLiteral _ := hk
          cases starts with
          | openLiteral hq => exact .openLiteral rfl (isQuote_of_runsOn hq)
      | terminator => exact .terminator rfl ⟨rfl, rfl⟩
      | token ends' =>
          rw [ends] at ends'
          cases ends'
  | cons hg taken ends _ ih =>
      cases RowItem.leads_of_tokens h with
      | joint hk | openLiteral hk | terminator hk =>
          simp only at hk
          rw [hk] at ends
          cases ends
      | token _ ok rest =>
          refine .token (RowItem.isSolid_token ends) ⟨rfl, rfl⟩ ?_
          rw [RowItem.depthBehind_token taken ok]
          exact ih (fun e => getLast?_of_takes taken ends (he e))
            (fun mem => hj (List.mem_append_right _ mem)) rest

theorem RowItem.eq_comment_of_kind {gap text : Text} {k : Lexeme}
    (h : (RowItem.token ⟨gap, k, text⟩ row line column).kind = .comment) : k = .comment := by
  cases k <;> simp [token, kind] at h ⊢
  split at h <;> cases h

theorem Lexeme.Takes.head?_of_comment {text behind : Text}
    (taken : Lexeme.comment.Takes text behind) : text.head? = some '#' := by
  obtain ⟨c, more, n, rfl, read, starts⟩ := taken.starts
  cases starts with
  | comment hc => exact congrArg some hc

/-- A comment is the first token of a row only if it is the first thing on it. -/
theorem head?_of_comment (hi : Itemized rest items) (open_ : ∀ c ∈ rest.head?, ¬Lexeme.isGap c)
    (h : RowItem.tokens row line depth column items = .ok r) :
    ∀ t ∈ r.tokens.head?, t.kind = .comment → rest.head? = some '#' := by
  intro t ht comment
  have first {gap text behind : Text} {k : Lexeme} (hg : ∀ c ∈ gap, Lexeme.isGap c)
      (taken : k.Takes text behind) (hr : rest = gap ++ text ++ behind)
      (hk : (RowItem.token ⟨gap, k, text⟩ row line column).kind = .comment) :
      rest.head? = some '#' := by
    obtain rfl := RowItem.eq_comment_of_kind hk
    subst hr
    cases gap with
    | nil =>
        rw [List.nil_append, List.head?_append, taken.head?_of_comment]
        rfl
    | cons d gap => exact absurd (hg d (by simp)) (open_ d (by simp))
  cases hi with
  | nil hg =>
      obtain rfl := Except.ok.inj h
      cases ht
  | last hg taken ends =>
      cases RowItem.leads_of_tokens h with
      | joint | openLiteral => cases ht
      | terminator =>
          obtain rfl := Option.some.inj ht
          simp only at comment
          split at comment <;> cases comment
      | token ends' =>
          rw [ends] at ends'
          cases ends'
  | cons hg taken ends _ =>
      cases RowItem.leads_of_tokens h with
      | joint hk | openLiteral hk | terminator hk =>
          simp only at hk
          rw [hk] at ends
          cases ends
      | token =>
          obtain rfl := Option.some.inj ht
          exact first hg taken rfl comment

namespace Scanned

theorem isOn (h : Scanned row ended joins depth r) : ∀ t ∈ r.tokens, t.IsOn row := by
  induction h with
  | out | joint | openLiteral => simp
  | terminator _ on => simpa using on
  | token _ on _ ih =>
      intro u hu
      rcases List.mem_cons.mp hu with rfl | hu
      · exact on
      · exact ih u hu

theorem isSolid_or_endsRow (h : Scanned row ended joins depth r) :
    ∀ t ∈ r.tokens, t.isSolid ∨ t.kind = .newline ∨ t.kind = .rowBreak := by
  induction h with
  | out | joint | openLiteral => simp
  | terminator kind =>
      intro t ht
      rw [List.mem_singleton.mp ht, kind]
      split <;> simp
  | token solid _ _ ih =>
      intro u hu
      rcases List.mem_cons.mp hu with rfl | hu
      · exact .inl solid
      · exact ih u hu

theorem start_of_inLiteral {literal : OpenLiteral} (h : Scanned row ended joins depth r)
    (he : r.rowEnd = .inLiteral literal) :
    literal.start.row = row ∧ Lexeme.isQuote literal.delimiter.mark := by
  induction h with
  | out | joint | terminator => cases he
  | openLiteral start mark =>
      obtain rfl := RowEnd.inLiteral.inj he
      exact ⟨start, mark⟩
  | token _ _ _ ih => exact ih he

theorem depth_of_nil (h : Scanned row ended joins depth r) (none : r.tokens = []) :
    r.depth = depth := by
  cases h with
  | out | joint | openLiteral | terminator => rfl
  | token => cases none

theorem joins_of_joined (h : Scanned row ended joins depth r) (he : r.rowEnd = .joined) :
    joins := by
  induction h with
  | out | openLiteral | terminator => cases he
  | joint h => exact h
  | token _ _ _ ih => exact ih he

/-- The tokens join the run, or they end a statement. -/
theorem foldl_step (h : Scanned row ended joins depth r) (R : Runs) (hd : R.depth = depth) :
    r.tokens.foldl Runs.step R = ⟨R.ended, r.depth, R.current ++ r.tokens⟩ ∧
        (ended → r.rowEnd = .plain → r.depth ≠ 0) ∨
      r.tokens.foldl Runs.step R = ⟨R.ended ++ [R.current ++ r.tokens], 0, []⟩ ∧
        r.rowEnd = .plain ∧ r.depth = 0 ∧
        ∃ t, r.tokens.getLast? = some t ∧ t.kind = .newline := by
  induction h generalizing R with
  | out h =>
      subst hd
      exact .inl ⟨by simp, fun e => absurd e h⟩
  | joint | openLiteral =>
      subst hd
      exact .inl ⟨by simp, fun _ => nofun⟩
  | terminator kind on =>
      rename_i d t
      subst hd
      by_cases zero : R.depth = 0
      · rw [if_pos zero] at kind
        refine .inr ⟨?_, rfl, zero, t, rfl, kind⟩
        have ends : t.endsRun R.depth := by simp [Token.endsRun, kind, zero]
        rw [List.foldl_cons, List.foldl_nil, Runs.step_of_endsRun ends, zero]
      · rw [if_neg zero] at kind
        refine .inl ⟨?_, fun _ _ => zero⟩
        have goes : t.endsRun R.depth = false := by simp [Token.endsRun, kind, zero]
        rw [List.foldl_cons, List.foldl_nil, Runs.step_of_not_endsRun goes,
          Runs.depthBehind_of_kind (by simp [kind])]
  | token solid on _ ih =>
      rename_i d t r _
      have goes := Runs.endsRun_of_isSolid solid R.depth
      have read : (r.after t).tokens.foldl Runs.step R =
          r.tokens.foldl Runs.step ⟨R.ended, t.depthBehind R.depth, R.current ++ [t]⟩ := by
        rw [RowTokens.after, List.foldl_cons, Runs.step_of_not_endsRun goes]
      rw [read]
      rcases ih ⟨R.ended, t.depthBehind R.depth, R.current ++ [t]⟩ (by rw [hd]) with
        ⟨eq, opens⟩ | ⟨eq, plain, zero, u, last, kind⟩
      · exact .inl ⟨by rw [eq]; simp [RowTokens.after], opens⟩
      · refine .inr ⟨by rw [eq]; simp [RowTokens.after], plain, zero, u, ?_, kind⟩
        rw [RowTokens.after, List.getLast?_cons, last]
        rfl

end Scanned

end Row

end StyleGuide
