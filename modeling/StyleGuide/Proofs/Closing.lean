import StyleGuide.Proofs.TokenStream.Blocks
import StyleGuide.Proofs.TokenStream.Cover

/-! # Every statement is closed

Behind each token of a statement a newline stands in front of the next mark of a block and of the
end of the source. The newline of a last row without terminator is put in by the look of that row,
so it is missing where the row looks like none of a statement and yet belongs to one.
-/

namespace StyleGuide

/-- A newline stands in front of all marks of blocks and the mark of the end. -/
def EndsStatement (tokens : List Token) : Prop :=
  ∃ inner t rest, tokens = inner ++ t :: rest ∧ t.kind = .newline ∧
    ∀ u ∈ inner, u.kind ≠ .indent ∧ u.kind ≠ .dedent ∧ u.kind ≠ .endMarker

/-- Behind each token that is part of a statement, the statement ends. -/
def AreClosed (tokens : List Token) : Prop :=
  ∀ front t behind, tokens = front ++ t :: behind → t.isContent → EndsStatement behind

/-- Whether a statement waits for its end behind a token, where `waits` says so in front of it.
    There is no answer where a block opens or closes or the source ends while a statement waits. -/
def waitsBehind? (waits : Bool) (t : Token) : Option Bool :=
  match t.kind with
  | .newline => some false
  | .indent | .dedent | .endMarker => if waits then none else some false
  | .rowBreak | .comment => some waits
  | .name | .number | .operator | .string | .stray => some true

section Tokens

variable {t : Token} {ts : List Token} {w : Bool}

theorem endsStatement_cons : EndsStatement (t :: ts) ↔ t.kind = .newline ∨
    (t.kind ≠ .indent ∧ t.kind ≠ .dedent ∧ t.kind ≠ .endMarker) ∧ EndsStatement ts := by
  constructor
  · rintro ⟨inner, u, rest, eq, kind, free⟩
    cases inner with
    | nil =>
        obtain ⟨rfl, -⟩ := List.cons.inj eq
        exact .inl kind
    | cons v inner =>
        obtain ⟨rfl, rfl⟩ := List.cons.inj eq
        obtain ⟨first, free⟩ := List.forall_mem_cons.mp free
        exact .inr ⟨first, inner, u, rest, rfl, kind, free⟩
  · rintro (kind | ⟨first, inner, u, rest, rfl, kind, free⟩)
    · exact ⟨[], t, ts, rfl, kind, nofun⟩
    · exact ⟨t :: inner, u, rest, rfl, kind, List.forall_mem_cons.mpr ⟨first, free⟩⟩

theorem areClosed_cons :
    AreClosed (t :: ts) ↔ (t.isContent → EndsStatement ts) ∧ AreClosed ts := by
  constructor
  · intro h
    refine ⟨h [] t ts rfl, fun front u behind eq => h (t :: front) u behind ?_⟩
    rw [eq, List.cons_append]
  · rintro ⟨first, rest⟩ front u behind eq
    cases front with
    | nil =>
        obtain ⟨rfl, rfl⟩ := List.cons.inj eq
        exact first
    | cons v front => exact rest front u behind (List.cons.inj eq).2

/-- Nothing waits in the end exactly if all statements are closed, the one that waited at the start
    among them. -/
theorem foldlM_waitsBehind?_iff :
    ts.foldlM waitsBehind? w = some false ↔ AreClosed ts ∧ (w → EndsStatement ts) := by
  induction ts generalizing w with
  | nil =>
      have none : AreClosed [] := fun front t behind eq => by simp at eq
      have never : ¬EndsStatement [] := by
        rintro ⟨inner, t, rest, eq, -⟩
        simp at eq
      cases w <;> simp [none, never]
  | cons t ts ih =>
      rw [List.foldlM_cons, areClosed_cons, endsStatement_cons, waitsBehind?]
      cases hk : t.kind with
      | newline => simp [ih, Token.isContent, hk, Token.Kind.isLayout]
      | indent | dedent | endMarker =>
          cases w <;> simp [ih, Token.isContent, hk, Token.Kind.isLayout]
      | rowBreak | comment => simp [ih, Token.isContent, hk, Token.Kind.isLayout]
      | name | number | operator | string | stray =>
          simp [ih, Token.isContent, hk, Token.Kind.isLayout]
          grind

instance : Decidable (AreClosed ts) :=
  decidable_of_iff (ts.foldlM waitsBehind? false = some false) (by simp [foldlM_waitsBehind?_iff])

/-- Where nothing ends a statement, it waits as soon as there is content. -/
theorem foldlM_waitsBehind?_of_isSolid (solid : ∀ t ∈ ts, t.isSolid) :
    ts.foldlM waitsBehind? w = some (w || ts.any Token.isContent) := by
  induction ts generalizing w with
  | nil => simp
  | cons t ts ih =>
      obtain ⟨first, rest⟩ := List.forall_mem_cons.mp solid
      have step : waitsBehind? w t = some (w || t.isContent) := by
        unfold Token.isSolid at first
        cases hk : t.kind <;>
          simp_all [waitsBehind?, Token.isContent, Token.Kind.isLayout]
      rw [List.foldlM_cons, step, List.any_cons, ← Bool.or_assoc]
      exact ih rest

end Tokens

/-! ## Reading a row -/

section Row

variable {row depth column : Nat} {line rest : Text} {items : List RowItem} {r : RowTokens}
  {ended joins : Prop} {w : Bool}

/-- A row that has ended leaves no statement waiting that it does not go on with. -/
theorem Scanned.exists_waits (h : Scanned row ended joins depth r) (opened : depth ≠ 0 → w) :
    ∃ w', r.tokens.foldlM waitsBehind? w = some w' ∧ (r.depth ≠ 0 → w') ∧
      (ended → r.rowEnd = .plain → r.depth = 0 → w' = false) := by
  induction h generalizing w with
  | out other => exact ⟨w, rfl, opened, fun e => absurd e other⟩
  | joint | openLiteral => exact ⟨w, rfl, opened, fun _ => nofun⟩
  | @terminator d t kind on =>
      by_cases zero : d = 0
      · rw [if_pos zero] at kind
        refine ⟨false, ?_, fun other => absurd zero other, fun _ _ _ => rfl⟩
        simp [waitsBehind?, kind]
      · rw [if_neg zero] at kind
        refine ⟨w, ?_, opened, fun _ _ closed => absurd closed zero⟩
        simp [waitsBehind?, kind]
  | @token d t r solid on rest ih =>
      have step : waitsBehind? w t = some (w || t.isContent) := by
        have := foldlM_waitsBehind?_of_isSolid (w := w) (List.forall_mem_singleton.mpr solid)
        simpa using this
      obtain ⟨w', read, more⟩ := ih (w := w || t.isContent) fun deep => by
        by_cases operator : t.kind = .operator
        · simp [Token.isContent, operator, Token.Kind.isLayout]
        · rw [Runs.depthBehind_of_kind operator] at deep
          simp [opened deep]
      refine ⟨w', ?_, more⟩
      rw [RowTokens.after, List.foldlM_cons, step]
      exact read

theorem Lexeme.Takes.mem_newline {k : Lexeme} {text behind : Text} (taken : k.Takes text behind)
    (h : k = .joint ∨ k = .terminator) : '\n' ∈ text := by
  rcases h with rfl | rfl
  · obtain ⟨ending, rfl, he⟩ := taken.exists_joint
    obtain ⟨s, rfl⟩ := he.exists_concat
    simp
  · obtain ⟨s, rfl⟩ := taken.isTerminator.exists_concat
    simp

/-- Without a newline nothing on the row ends a statement. -/
theorem isSolid_of_tokens (hi : Itemized rest items) (bare : '\n' ∉ rest)
    (h : RowItem.tokens row line depth column items = .ok r) : ∀ t ∈ r.tokens, t.isSolid := by
  induction hi generalizing column depth r with
  | nil =>
      obtain rfl := Except.ok.inj h
      exact nofun
  | last hg taken ends =>
      cases RowItem.leads_of_tokens h with
      | joint | openLiteral => exact nofun
      | terminator hk => exact absurd (taken.mem_newline (.inr hk)) fun mem => bare (by simp [mem])
      | token ends' =>
          rw [ends] at ends'
          cases ends'
  | cons hg taken ends _ ih =>
      cases RowItem.leads_of_tokens h with
      | joint hk | openLiteral hk | terminator hk =>
          simp only at hk
          rw [hk] at ends
          cases ends
      | token _ _ more =>
          refine List.forall_mem_cons.mpr ⟨RowItem.isSolid_token ends, ih (fun mem => ?_) more⟩
          exact bare (List.mem_append_right _ mem)

theorem Lexeme.Takes.eq_comment {k : Lexeme} {text behind : Text} (taken : k.Takes text behind)
    (h : text.head? = some '#') : k = .comment := by
  obtain ⟨more, rfl⟩ := List.head?_eq_some_iff.mp h
  have read := taken.next_eq
  rw [List.cons_append, next, if_pos (by rfl)] at read
  exact (Prod.mk.inj read).1.symm

/-- A comment goes on up to the end of the row or to a carriage return. -/
theorem Lexeme.Takes.of_comment {text behind : Text} (taken : Lexeme.comment.Takes text behind)
    (bare : '\n' ∉ behind) : '\r' ∉ text ∧ ∀ c ∈ behind.head?, c = '\r' := by
  obtain ⟨c, more, n, rfl, read, starts⟩ := taken.starts
  rw [List.cons_append] at read
  cases starts with
  | comment hc =>
      have whole : (c :: (more ++ behind)).takeWhile (fun d => d != '\r' && d != '\n') =
          c :: more := by
        rw [List.prefix_iff_eq_take.mp (List.takeWhile_prefix _)]
        exact read
      have length := congrArg List.length whole
      rw [← List.cons_append, length_takeWhile_append_iff] at length
      refine ⟨fun mem => by simpa using length.1 _ mem, fun d hd => ?_⟩
      have stops := length.2 d hd
      have other : d ≠ '\n' := by
        rintro rfl
        exact bare (List.mem_of_mem_head? hd)
      simpa [other] using stops

/-- A row without newline that goes on with a statement has content unless it is blank or a comment
    up to its end. -/
theorem any_isContent_iff (hi : Itemized rest items) (bare : '\n' ∉ rest)
    (h : RowItem.tokens row line depth column items = .ok r)
    (closed : ∀ l, r.rowEnd ≠ .inLiteral l) :
    r.tokens.any Token.isContent ↔
      ∃ c ∈ (rest.dropWhile Lexeme.isGap).head?, c ≠ '#' ∨ '\r' ∈ rest := by
  induction hi generalizing column depth r with
  | nil hg =>
      obtain rfl := Except.ok.inj h
      rw [List.dropWhile_eq_nil_iff.mpr hg]
      simp
  | last hg taken ends =>
      cases RowItem.leads_of_tokens h with
      | joint hk => exact absurd (taken.mem_newline (.inl hk)) fun mem => bare (by simp [mem])
      | openLiteral => exact absurd rfl (closed _)
      | terminator hk => exact absurd (taken.mem_newline (.inr hk)) fun mem => bare (by simp [mem])
      | token ends' =>
          rw [ends] at ends'
          cases ends'
  | @cons gap text behind k items hg taken ends _ ih =>
      cases RowItem.leads_of_tokens h with
      | joint hk | openLiteral hk | terminator hk =>
          simp only at hk
          rw [hk] at ends
          cases ends
      | token _ _ more =>
          have bare' : '\n' ∉ behind := fun mem => bare (List.mem_append_right _ mem)
          replace ih := ih bare' more closed
          obtain ⟨c, text', first⟩ := List.exists_cons_of_ne_nil taken.ne_nil
          have head : (text ++ behind).head? = some c := by rw [first]; rfl
          rw [taken.dropWhile_append hg, head, RowTokens.after, List.any_cons]
          by_cases hash : c = '#'
          · obtain rfl := hash
            obtain rfl := taken.eq_comment (by rw [first]; rfl)
            obtain ⟨clean, stops⟩ := taken.of_comment bare'
            have gap' : '\r' ∉ gap := fun mem => absurd (hg _ mem) (by decide)
            have comment : (RowItem.token ⟨gap, .comment, text⟩ row line column).isContent =
                false := rfl
            rw [comment, Bool.false_or, ih]
            cases behind with
            | nil => simp [gap', clean]
            | cons d behind =>
                obtain rfl := stops d rfl
                simp [Lexeme.isGap]
          · have content : (RowItem.token ⟨gap, k, text⟩ row line column).isContent := by
              rw [Token.isContent, Bool.and_eq_true, bne_iff_ne]
              refine ⟨RowItem.isSolid_token ends, fun kind => ?_⟩
              obtain rfl := RowItem.eq_comment_of_kind kind
              rw [first] at taken
              exact hash (Option.some.inj taken.head?_of_comment)
            simp [content, hash]

end Row

namespace ScanState

variable {s t : ScanState} {line rest : Text} {rows : List Text} {w : Bool}

/-- Some token of a statement has been read, and not its end. -/
def Waits (s : ScanState) : Prop := s.tokens.toList.foldlM waitsBehind? false = some true

/-- A statement with content would be open behind the row `last`, if this were the last row and had
    no terminator: a literal or a bracket has been open in front of it, or the row begins a
    statement, or a backslash joins it to content or to another row and it has content itself. -/
def LeavesOpen (s : ScanState) (last : Text) : Prop :=
  match s.rowEnd with
  | .inLiteral _ => True
  | .plain => s.depth ≠ 0 ∨ s.betweenStatements? last = none
  | .joined => s.Waits ∨ ∃ c ∈ (last.dropWhile Lexeme.isGap).head?, c ≠ '#' ∨ '\r' ∈ last

/-- Whether a statement waits behind the tokens so far. One does as long as brackets are open, and
    none does where a row has ended with nothing open. -/
structure Owes (s : ScanState) (w : Bool) : Prop where
  waits : s.tokens.toList.foldlM waitsBehind? false = some w
  opened : s.depth ≠ 0 → w
  quoted : ∀ l, s.rowEnd = .inLiteral l → Lexeme.isQuote l.delimiter.mark

section Advance

variable {r : RowTokens} {v : Bool} {column : Nat}

/-- The scan of the rest of a row goes on with the statement that waits, or ends it. -/
theorem exists_owes_of_scan (marks : List Token) (indents : List Nat) (h : s.Owes w)
    (first : marks.foldlM waitsBehind? w = some v)
    (opened : s.depth ≠ 0 → v)
    (last : line.getLast? = some '\n' → rest.getLast? = some '\n')
    (bare : '\n' ∉ line → '\n' ∉ rest)
    (scan : scanRow s.row line s.depth column rest = .ok r) :
    ∃ w', ({ s with indents := indents }.advance marks r).Owes w' ∧
      (line.getLast? = some '\n' → r.rowEnd = .plain → r.depth = 0 → w' = false) ∧
      ('\n' ∉ line → r.rowEnd = .plain → (w' ↔ v ∨
        ∃ c ∈ (rest.dropWhile Lexeme.isGap).head?, c ≠ '#' ∨ '\r' ∈ rest)) := by
  have items := itemized_list rest
  have scanned : Scanned s.row (line.getLast? = some '\n') True s.depth r :=
    scanned_tokens items last (fun _ => trivial) scan
  obtain ⟨w', read, deep, done⟩ := scanned.exists_waits opened
  refine ⟨w', ⟨?_, deep, fun l hl => (scanned.start_of_inLiteral hl).2⟩, done,
    fun none plain => ?_⟩
  · rw [toList_tokens_advance, List.foldlM_append, List.foldlM_append, h.waits]
    simp [first, read]
  · have solid := isSolid_of_tokens items (bare none) scan
    rw [foldlM_waitsBehind?_of_isSolid solid] at read
    rw [← any_isContent_iff items (bare none) scan (by simp [plain]), ← Option.some.inj read]
    simp

/-- A row that opens a statement leaves it open if the row has no newline. -/
theorem exists_owes_of_open {marks : List Token} {indents : List Nat} (owes : s.Owes false)
    (he : s.rowEnd = .plain) (hd : s.depth = 0) (between : s.betweenStatements? line = none)
    (first : marks.foldlM waitsBehind? false = some false)
    (scan : scanRow s.row line s.depth column (line.dropWhile Lexeme.isGap) = .ok r) :
    ∃ w', ({ s with indents := indents }.advance marks r).Owes w' ∧
      (line.getLast? = some '\n' → r.rowEnd = .plain → r.depth = 0 → w' = false) ∧
      ('\n' ∉ line → r.rowEnd = .plain → (w' ↔ s.LeavesOpen line)) := by
  have inside : ∀ c ∈ line.dropWhile Lexeme.isGap, c ∈ line := fun c hc =>
    (List.dropWhile_suffix _).subset hc
  have opens : s.LeavesOpen line := by simp [LeavesOpen, he, between]
  obtain ⟨w', behind, ended, bare⟩ := exists_owes_of_scan marks indents owes first
    (fun deep => absurd hd deep) getLast?_dropWhile_isGap (mt (inside '\n')) scan
  refine ⟨w', behind, ended, fun none plain => ?_⟩
  obtain ⟨c, hc, other, -⟩ := betweenStatements?_eq_none_iff.mp between
  rw [bare none plain, List.dropWhile_idempotent]
  exact iff_of_true (.inr ⟨c, hc, .inl other⟩) opens

end Advance

/-- Each row keeps account of the statement that waits. A row without newline leaves one waiting
    exactly if it leaves one open. -/
theorem exists_owes_of_feeds (h : Feeds s line t) (owes : s.Owes w)
    (done : s.rowEnd = .plain → s.depth = 0 → w = false) :
    ∃ w', t.Owes w' ∧
      (line.getLast? = some '\n' → t.rowEnd = .plain → t.depth = 0 → w' = false) ∧
      ('\n' ∉ line → t.rowEnd = .plain → (w' ↔ s.LeavesOpen line)) := by
  cases h with
  | nothing he hd between =>
      obtain rfl := done he hd
      refine ⟨false, owes, fun _ _ _ => rfl, fun _ _ => ?_⟩
      simp [LeavesOpen, he, hd, between]
  | between he hd between =>
      obtain rfl := done he hd
      refine ⟨false, ?_, fun _ _ _ => rfl, fun _ _ => by simp [LeavesOpen, he, hd, between]⟩
      cases isBetween_of_betweenStatements? between with
      | comment | blank =>
          refine ⟨?_, fun deep => absurd hd deep, fun _ => nofun⟩
          rw [toList_tokens_advance, List.append_nil, List.foldlM_append, owes.waits]
          simp [waitsBehind?]
  | @literalMore literal he hn more =>
      refine ⟨w, ⟨by simpa using owes.waits, owes.opened, fun l hl => ?_⟩, fun _ => nofun,
        fun _ => nofun⟩
      obtain rfl := RowEnd.inLiteral.inj hl
      exact owes.quoted literal he
  | @literalEnd literal n r he hn scan =>
      obtain ⟨w', behind, ended, bare⟩ := exists_owes_of_scan
        [s.closingToken literal (line.take n)] s.indents owes
        (show _ = some true from rfl) (fun _ => rfl)
        (getLast?_drop_of_closing? (owes.quoted _ he) hn)
        (fun none mem => none (List.mem_of_mem_drop mem)) scan
      refine ⟨w', behind, ended, fun none plain => ?_⟩
      simp [LeavesOpen, he, bare none plain]
  | continued he scan =>
      obtain ⟨w', behind, ended, bare⟩ := exists_owes_of_scan [] s.indents owes
        rfl owes.opened id id scan
      refine ⟨w', behind, ended, fun none plain => ?_⟩
      rw [bare none plain]
      rcases he with he | ⟨he, deep⟩
      · simp [LeavesOpen, he, Waits, owes.waits]
      · simp [LeavesOpen, he, deep, owes.opened]
  | indented he hd between deeper scan =>
      obtain rfl := done he hd
      exact exists_owes_of_open owes he hd between rfl scan
  | @aligned r closed kept he hd between indents inner width scan =>
      obtain rfl := done he hd
      have marks : (closed.map fun _ => s.dedentToken line).foldlM waitsBehind? false =
          some false := by
        clear indents inner
        induction closed with
        | nil => rfl
        | cons _ closed ih => exact ih
      exact exists_owes_of_open owes he hd between marks scan

/-- Behind rows with a newline a statement waits only where something is open. -/
theorem exists_owes_of_feedsAll (h : FeedsAll s rows t)
    (ended : ∀ line ∈ rows, line.getLast? = some '\n') (owes : s.Owes w)
    (done : s.rowEnd = .plain → s.depth = 0 → w = false) :
    ∃ w', t.Owes w' ∧ (t.rowEnd = .plain → t.depth = 0 → w' = false) := by
  induction h generalizing w with
  | nil => exact ⟨w, owes, done⟩
  | cons fed _ ih =>
      obtain ⟨first, rest⟩ := List.forall_mem_cons.mp ended
      obtain ⟨v, owes', done', -⟩ := exists_owes_of_feeds fed owes done
      exact ih rest owes' (done' first)

/-- The marks of the end close the statement that waits, if there is a newline among them. -/
theorem foldlM_waitsBehind?_endMarks {last : Text} (hl : rows.getLast? = some last) :
    (s.endMarks rows).foldlM waitsBehind? w = some false ↔ (w → lacksNewline last) := by
  have marks (ts : List Nat) (t u : Token) (ht : t.kind = .dedent) (hu : u.kind = .endMarker) :
      (ts.map (fun _ => t) ++ [u]).foldlM waitsBehind? true = Option.none ∧
        (ts.map (fun _ => t) ++ [u]).foldlM waitsBehind? false = some false := by
    induction ts with
    | nil => simp [waitsBehind?, hu]
    | cons x ts ih => exact ⟨by simp [waitsBehind?, ht], by simpa [waitsBehind?, ht] using ih.2⟩
  obtain ⟨waits, still⟩ := marks s.indents ⟨.dedent, [], ⟨s.row, 0⟩, ⟨s.row, 0⟩, []⟩
    ⟨.endMarker, [], ⟨s.row, 0⟩, ⟨s.row, 0⟩, []⟩ rfl rfl
  rw [endMarks, hl, Option.getD_some, List.append_assoc, List.foldlM_append]
  cases lacks : lacksNewline last with
  | true => simpa [waitsBehind?] using still
  | false =>
      rw [if_neg (by simp), List.foldlM_nil, pure_bind]
      cases w with
      | true =>
          rw [waits]
          simp
      | false => simpa using still

end ScanState

/-- Rows with a newline may be followed by one without. -/
theorem AreRows.getLast?_of_front {front : List Text} {last : Text}
    (h : AreRows (front ++ [last])) :
    (∀ line ∈ front, line.getLast? = some '\n') ∧
      (last.getLast? = some '\n' ∨ last.getLast? ≠ some '\n' ∧ '\n' ∉ last) := by
  have newline (done more : List Text) (line : Text) (h : AreRows (done ++ line :: more)) :
      '\n' ∉ line ∧ more = [] ∨ line.getLast? = some '\n' := by
    rcases h.row_cases with none | ⟨body, rfl, -⟩
    · exact .inl none
    · exact .inr (by simp)
  constructor
  · intro line hl
    obtain ⟨done, more, rfl⟩ := List.append_of_mem hl
    rcases newline done (more ++ [last]) line (by simpa using h) with ⟨-, none⟩ | ends
    · simp at none
    · exact ends
  · rcases newline front [] last h with ⟨none, -⟩ | ends
    · exact .inr ⟨fun ends => none (List.mem_of_getLast? ends), none⟩
    · exact .inl ends

/-- All statements of a source are closed unless it ends in a row without newline that leaves a
    statement open, and that row looks like a blank row or a comment. -/
theorem areClosed_iff {source : Text} {tokens : List Token} (read : tokenize source = .ok tokens) :
    AreClosed tokens ↔ ∀ front last s, Text.rows source = front ++ [last] →
      front.foldlM ScanState.feed .initial = .ok s → last.getLast? ≠ some '\n' →
        s.LeavesOpen last → Text.trim last ≠ [] ∧ (Text.trim last).head? ≠ some '#' := by
  have closed : tokens.foldlM waitsBehind? false = some false ↔ AreClosed tokens := by
    simp [foldlM_waitsBehind?_iff]
  obtain ⟨t, fed, finished⟩ := ScanState.exists_of_bind_eq_ok read
  obtain ⟨plain, zero, rfl⟩ := ScanState.finish_eq_ok finished
  have initial : ScanState.initial.Owes false := ⟨rfl, fun deep => absurd rfl deep, nofun⟩
  rw [← closed, List.foldlM_append]
  rcases List.eq_nil_or_concat (Text.rows source) with none | ⟨front, last, rows⟩
  · rw [none] at fed ⊢
    obtain rfl := Except.ok.inj fed
    have blank : ScanState.lacksNewline [] = false := by decide
    simp [ScanState.initial, ScanState.endMarks, blank, waitsBehind?]
  · rw [List.concat_eq_append] at rows
    have shape := Text.areRows_rows source
    rw [rows] at fed shape ⊢
    obtain ⟨above, ends⟩ := shape.getLast?_of_front
    rw [List.foldlM_append] at fed
    obtain ⟨s, before, fed⟩ := ScanState.exists_of_bind_eq_ok fed
    rw [List.foldlM_cons] at fed
    obtain ⟨t', here, eq⟩ := ScanState.exists_of_bind_eq_ok fed
    obtain rfl := Except.ok.inj eq
    obtain ⟨w, owes, done⟩ := ScanState.exists_owes_of_feedsAll
      (ScanState.feedsAll_of_foldlM before) above initial fun _ _ => rfl
    obtain ⟨w', owes', ended, bare⟩ := ScanState.exists_owes_of_feeds
      (ScanState.feeds_of_feed here) owes done
    rw [owes'.waits, Option.bind_eq_bind, Option.bind_some,
      ScanState.foldlM_waitsBehind?_endMarks (List.getLast?_concat ..)]
    constructor
    · rintro lacks front' last' s' eq read newline opens
      obtain ⟨rfl, same⟩ := List.append_inj' eq rfl
      obtain rfl := List.singleton_inj.mp same
      obtain rfl := Except.ok.inj (before.symm.trans read)
      have none := (ends.resolve_left newline).2
      have lacks := lacks ((bare none plain).mpr opens)
      simpa [ScanState.lacksNewline, newline] using lacks
    · intro shown waits
      rcases ends with newline | ⟨newline, none⟩
      · rw [ended newline plain zero] at waits
        cases waits
      · have looks := shown front last s rfl before newline ((bare none plain).mp waits)
        simp [ScanState.lacksNewline, newline, looks]

/-- A statement in brackets that ends without a newline is closed. -/
theorem areClosed_of_brackets :
    ∃ tokens, tokenize "if x:\n  f(1,\n\n    a)".toList = .ok tokens ∧ AreClosed tokens := by
  obtain ⟨tokens, read⟩ :
      ∃ tokens, (tokenize "if x:\n  f(1,\n\n    a)".toList).toOption = some tokens :=
    Option.isSome_iff_exists.mp (by decide +kernel)
  refine ⟨tokens, eq_ok_of_toOption read, (areClosed_iff (eq_ok_of_toOption read)).mpr ?_⟩
  intro front last s rows _ _ _
  have split : Text.rows "if x:\n  f(1,\n\n    a)".toList =
      ["if x:\n", "  f(1,\n", "\n"].map String.toList ++ ["    a)".toList] := by decide +kernel
  obtain ⟨-, same⟩ := List.append_inj' (split.symm.trans rows) rfl
  obtain rfl := List.singleton_inj.mp same
  decide

/-- A literal whose last row begins with a mark for comments leaves its statement open. -/
theorem not_areClosed_of_comment_mark :
    ∃ tokens, tokenize "x = \"\"\"a\n#\"\"\"".toList = .ok tokens ∧ ¬AreClosed tokens := by
  obtain ⟨tokens, read, open_⟩ :
      ∃ tokens ∈ (tokenize "x = \"\"\"a\n#\"\"\"".toList).toOption, ¬AreClosed tokens := by
    decide +kernel
  exact ⟨tokens, eq_ok_of_toOption read, open_⟩

end StyleGuide
