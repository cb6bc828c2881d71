import StyleGuide.Proofs.Lexeme.Items
import StyleGuide.Proofs.Text.Rows
import StyleGuide.Proofs.TokenStream.Feed

/-! # Where tokens stand

The tokens of a source that are no layout stand in its rows one behind the other, and between two
on one row there is nothing but a gap.
-/

namespace StyleGuide

namespace Rows

/-- `before` is what a row holds in front of a position. -/
def Holds (rows : Rows) (before : Text) (p : Position) : Prop :=
  before <+: rows.row p.row ∧ Text.byteLength before = p.column

theorem Holds.unique {rows : Rows} {a b : Text} {p : Position} (ha : rows.Holds a p)
    (hb : rows.Holds b p) : a = b :=
  Text.eq_of_prefix_of_byteLength_eq ha.1 hb.1 (ha.2.trans hb.2.symm)

theorem Holds.takeBytes_eq {rows : Rows} {before : Text} {p : Position} (h : rows.Holds before p) :
    Text.takeBytes p.column (rows.row p.row) = before := by
  obtain ⟨behind, whole⟩ := h.1
  rw [← whole, ← h.2, Text.takeBytes_byteLength_append]

theorem Holds.slice_eq {rows : Rows} {before part : Text} {p q : Position}
    (hp : rows.Holds before p) (hq : rows.Holds (before ++ part) q) (row : p.row = q.row) :
    Text.slice p.column q.column (rows.row p.row) = part := by
  obtain ⟨behind, whole⟩ := hq.1
  rw [row, ← whole, ← hp.2, ← hq.2, Text.byteLength_append, Text.slice_append]

/-- A position with nothing but a gap in front of it on its row. -/
def Opens (rows : Rows) (p : Position) : Prop :=
  ∃ gap, rows.Holds gap p ∧ ∀ c ∈ gap, Lexeme.isGap c

theorem opens_start (rows : Rows) (n : Nat) : rows.Opens ⟨n, 0⟩ :=
  ⟨[], ⟨List.nil_prefix, rfl⟩, nofun⟩

/-- From one position to the next there is the end of a row with a gap behind it, or a gap. -/
inductive Apart (rows : Rows) (p q : Position) : Prop where
  | below (h : p.row < q.row) (opens : rows.Opens q)
  | behind {before gap : Text} (hp : rows.Holds before p) (hq : rows.Holds (before ++ gap) q)
      (row : p.row = q.row) (hg : ∀ c ∈ gap, Lexeme.isGap c)

theorem Apart.row_le {rows : Rows} {p q : Position} (h : rows.Apart p q) : p.row ≤ q.row := by
  cases h with
  | below h => exact Nat.le_of_lt h
  | behind _ _ row _ => exact Nat.le_of_eq row

theorem Apart.opens {rows : Rows} {p q : Position} (h : rows.Apart p q) (opens : rows.Opens p) :
    rows.Opens q := by
  cases h with
  | below _ opens => exact opens
  | behind hp hq _ hg =>
      rename_i before gap
      obtain ⟨first, held, gaps⟩ := opens
      obtain rfl := hp.unique held
      refine ⟨_, hq, fun c hc => ?_⟩
      exact (List.mem_append.mp hc).elim (gaps c) (hg c)

/-- From one position to the next there is the end of a row, or a part of a row. -/
inductive Before (rows : Rows) (p q : Position) : Prop where
  | below (h : p.row < q.row)
  | behind {before part : Text} (hp : rows.Holds before p) (hq : rows.Holds (before ++ part) q)
      (row : p.row = q.row)

theorem Apart.before {rows : Rows} {p q : Position} (h : rows.Apart p q) : rows.Before p q := by
  cases h with
  | below h => exact .below h
  | behind hp hq row _ => exact .behind hp hq row

theorem Before.row_le {rows : Rows} {p q : Position} (h : rows.Before p q) : p.row ≤ q.row := by
  cases h with
  | below h => exact Nat.le_of_lt h
  | behind _ _ row => exact Nat.le_of_eq row

theorem Before.trans {rows : Rows} {p q r : Position} (h : rows.Before p q)
    (h' : rows.Before q r) : rows.Before p r := by
  cases h with
  | below h =>
      cases h' with
      | below h' => exact .below (Nat.lt_trans h h')
      | behind _ _ row => exact .below (row ▸ h)
  | behind hp hq row =>
      cases h' with
      | below h' => exact .below (row ▸ h')
      | behind hq' hr row' =>
          obtain rfl := hq'.unique hq
          exact .behind hp (List.append_assoc .. ▸ hr) (row.trans row')

theorem Holds.before_self {rows : Rows} {x : Text} {p : Position} (h : rows.Holds x p) :
    rows.Before p p :=
  .behind h (by rwa [List.append_nil]) rfl

end Rows

namespace Token

/-- A token with a place of its own in the source. -/
def isSolid (t : Token) : Bool := !t.kind.isLayout

theorem isSolid_of_isContent {t : Token} (h : t.isContent) : t.isSolid := by
  simp only [isContent, Bool.and_eq_true] at h
  exact h.1

theorem isSolid_of_comment {t : Token} (kind : t.kind = .comment) : t.isSolid := by
  simp [isSolid, kind, Kind.isLayout]

/-- The text of the token is one of its kind. -/
structure IsSpelled (t : Token) : Prop where
  literal : t.kind = .string → IsLiteral t.text
  plain : t.isContent → t.kind ≠ .string → ∀ c ∈ t.text, ¬Lexeme.isQuote c
  comment : t.kind = .comment → t.text.head? = some '#'
  ne_nil : t.text ≠ []

/-- The token stands on one row as it is written there, and a literal is read there as a whole, or it
    is a literal over several rows. -/
inductive IsSet (rows : Rows) (t : Token) : Prop where
  | onRow {before : Text} (start : rows.Holds before t.start)
      (stop : rows.Holds (before ++ t.text) t.stop) (row : t.start.row = t.stop.row)
      (spelled : t.IsSpelled) (reads : t.kind = .string → ∃ behind,
        before ++ t.text ++ behind = rows.row t.start.row ∧
          Lexeme.literal? (t.text ++ behind) = some (.closed t.text.length))
  | acrossRows (string : t.kind = .string) (long : 2 ≤ t.text.length)
      (h : t.start.row < t.stop.row)

theorem IsSet.row_le {rows : Rows} {t : Token} (h : t.IsSet rows) : t.start.row ≤ t.stop.row := by
  cases h with
  | onRow _ _ row _ => exact Nat.le_of_eq row
  | acrossRows _ _ h => exact Nat.le_of_lt h

theorem IsSet.ne_nil {rows : Rows} {t : Token} (h : t.IsSet rows) : t.text ≠ [] := by
  cases h with
  | onRow _ _ _ spelled => exact spelled.ne_nil
  | acrossRows _ long _ => exact List.ne_nil_of_length_pos (by omega)

theorem IsSet.before {rows : Rows} {t : Token} (h : t.IsSet rows) :
    rows.Before t.start t.stop := by
  cases h with
  | onRow start stop row _ => exact .behind start stop row
  | acrossRows _ _ h => exact .below h

end Token

/-- Tokens that follow each other from one position to another. -/
inductive Laid (rows : Rows) : Position → List Token → Position → Prop where
  | nil {p : Position} : Laid rows p [] p
  | cons {p q : Position} {t : Token} {ts : List Token} (apart : rows.Apart p t.start)
      (set : t.IsSet rows) (rest : Laid rows t.stop ts q) : Laid rows p (t :: ts) q

namespace Laid

variable {rows : Rows} {p q r : Position} {ts us : List Token}

theorem append (h : Laid rows p ts q) (more : Laid rows q us r) : Laid rows p (ts ++ us) r := by
  induction h with
  | nil => exact more
  | cons apart set rest ih => exact .cons apart set (ih more)

theorem exists_of_append (h : Laid rows p (ts ++ us) r) :
    ∃ q, Laid rows p ts q ∧ Laid rows q us r := by
  induction ts generalizing p with
  | nil => exact ⟨p, .nil, h⟩
  | cons t ts ih =>
      cases h with
      | cons apart set rest =>
          obtain ⟨q, first, second⟩ := ih rest
          exact ⟨q, .cons apart set first, second⟩

/-- Part of the tokens lead from one position to another as well. -/
theorem exists_of_infix (h : Laid rows p ts q) (sub : us <:+: ts) :
    ∃ p' q', Laid rows p' us q' := by
  obtain ⟨before, behind, rfl⟩ := sub
  obtain ⟨q', first, -⟩ := h.exists_of_append
  obtain ⟨p', -, second⟩ := first.exists_of_append
  exact ⟨p', q', second⟩

/-- Tokens may follow any position on an earlier row. -/
theorem lift {e : Position} (h : Laid rows p ts q) (above : e.row < p.row)
    (opens : rows.Opens p) :
    ∃ f, Laid rows e ts f ∧ f.row ≤ q.row ∧ ∀ u, rows.Apart q u → rows.Apart f u := by
  have lifted {u : Position} (hu : rows.Apart p u) : rows.Apart e u :=
    .below (Nat.lt_of_lt_of_le above hu.row_le) (hu.opens opens)
  cases h with
  | nil => exact ⟨e, .nil, Nat.le_of_lt above, fun u hu => lifted hu⟩
  | cons apart set rest =>
      exact ⟨q, .cons (lifted apart) set rest, Nat.le_refl _, fun _ hu => hu⟩

theorem isSet_of_mem {t : Token} (h : Laid rows p ts q) (ht : t ∈ ts) : t.IsSet rows := by
  induction h with
  | nil => cases ht
  | cons apart set rest ih =>
      rcases List.mem_cons.mp ht with rfl | ht
      · exact set
      · exact ih ht

end Laid

/-- No comment stands in front of content on its row. -/
def CommentsLast (ts : List Token) : Prop :=
  ts.Pairwise fun t u => t.kind = .comment → u.isContent → t.stop.row < u.start.row

/-- Tokens of which each stands behind the one before it. -/
inductive Ordered (rows : Rows) : Position → List Token → Prop where
  | nil {p : Position} : Ordered rows p []
  | cons {p : Position} {t : Token} {ts : List Token} (before : rows.Before p t.start)
      (set : t.IsSet rows) (rest : Ordered rows t.stop ts) : Ordered rows p (t :: ts)

theorem Ordered.of_before {rows : Rows} {p q : Position} {ts : List Token}
    (h : rows.Before p q) (ordered : Ordered rows q ts) : Ordered rows p ts := by
  cases ordered with
  | nil => exact .nil
  | cons before set rest => exact .cons (h.trans before) set rest

theorem Ordered.row_le {rows : Rows} {p : Position} {t : Token} {ts : List Token}
    (h : Ordered rows p ts) (ht : t ∈ ts) : p.row ≤ t.start.row := by
  induction h with
  | nil => cases ht
  | cons before set rest ih =>
      have first := before.row_le
      rcases List.mem_cons.mp ht with rfl | ht
      · exact first
      · exact Nat.le_trans first (Nat.le_trans set.row_le (ih ht))

theorem Ordered.isSet_of_mem {rows : Rows} {p : Position} {t : Token} {ts : List Token}
    (h : Ordered rows p ts) (ht : t ∈ ts) : t.IsSet rows := by
  induction h with
  | nil => cases ht
  | cons before set rest ih =>
      rcases List.mem_cons.mp ht with rfl | ht
      · exact set
      · exact ih ht

theorem Ordered.before_start {rows : Rows} {p : Position} {t : Token} {ts : List Token}
    (h : Ordered rows p ts) (ht : t ∈ ts) : rows.Before p t.start := by
  induction h with
  | nil => cases ht
  | cons before set rest ih =>
      rcases List.mem_cons.mp ht with rfl | ht
      · exact before
      · exact before.trans (set.before.trans (ih ht))

theorem Ordered.before_stop {rows : Rows} {p : Position} {t : Token} {ts : List Token}
    (h : Ordered rows p ts) (ht : t ∈ ts) : rows.Before p t.stop :=
  (h.before_start ht).trans (h.isSet_of_mem ht).before

/-- Of two tokens in order the second one begins behind the first. -/
theorem Ordered.before_of_sublist {rows : Rows} {p : Position} {t u : Token} {ts : List Token}
    (h : Ordered rows p ts) (sub : List.Sublist [t, u] ts) : rows.Before t.stop u.start := by
  induction h with
  | nil => cases sub
  | cons before set rest ih =>
      cases sub with
      | cons _ sub => exact ih sub
      | cons_cons _ sub => exact rest.before_start (sub.subset (by simp))

theorem Ordered.row_le_of_sublist {rows : Rows} {p : Position} {t u : Token} {ts : List Token}
    (h : Ordered rows p ts) (sub : List.Sublist [t, u] ts) : t.stop.row ≤ u.start.row :=
  (h.before_of_sublist sub).row_le

namespace Laid

variable {rows : Rows} {p q : Position} {ts : List Token}

/-- A choice among tokens keeps their order. -/
theorem ordered_filter (f : Token → Bool) (h : Laid rows p ts q) :
    Ordered rows p (ts.filter f) := by
  induction h with
  | nil => exact .nil
  | cons apart set rest ih =>
      rename_i t ts
      cases hf : f t with
      | true =>
          rw [List.filter_cons_of_pos hf]
          exact .cons apart.before set ih
      | false =>
          rw [List.filter_cons_of_neg (by simp [hf])]
          exact ih.of_before (apart.before.trans set.before)

theorem filter_isSolid_isContent (run : List Token) :
    (run.filter Token.isSolid).filter Token.isContent = run.filter Token.isContent := by
  rw [List.filter_filter]
  refine List.filter_congr fun t _ => ?_
  cases hs : t.isSolid <;> simp_all [Token.isSolid, Token.isContent]

theorem ordered_content {run : List Token} (h : Laid rows p (run.filter Token.isSolid) q) :
    Ordered rows p (run.filter Token.isContent) :=
  filter_isSolid_isContent run ▸ h.ordered_filter Token.isContent

/-- Where no comment stands in front of content, there are only gaps between content. -/
theorem filter_isContent (h : Laid rows p ts q) (solid : ∀ t ∈ ts, t.isSolid)
    (last : CommentsLast ts) : ∃ q, Laid rows p (ts.filter Token.isContent) q := by
  induction h with
  | nil => exact ⟨_, .nil⟩
  | cons apart set rest ih =>
      rename_i p q t ts
      obtain ⟨alone, last⟩ := List.pairwise_cons.mp last
      obtain ⟨r, laid⟩ := ih (fun u hu => solid u (List.mem_cons_of_mem _ hu)) last
      cases hc : t.isContent with
      | true =>
          rw [List.filter_cons_of_pos hc]
          exact ⟨r, .cons apart set laid⟩
      | false =>
          rw [List.filter_cons_of_neg (by simp [hc])]
          have comment : t.kind = .comment := by
            have solid := solid t (List.mem_cons_self ..)
            simp only [Token.isSolid] at solid
            simpa [Token.isContent, solid] using hc
          cases hts : ts.filter Token.isContent with
          | nil => exact ⟨p, .nil⟩
          | cons u us =>
              rw [hts] at laid
              obtain ⟨hu, content⟩ := List.mem_filter.mp (hts ▸ List.mem_cons_self ..)
              have below := alone u hu comment content
              have := apart.row_le
              have := set.row_le
              cases laid with
              | cons apart' set' rest' =>
                  cases apart' with
                  | below _ opens => exact ⟨r, .cons (.below (by omega) opens) set' rest'⟩
                  | behind _ _ row => omega

end Laid

/-! ## The tokens of a row -/

section Row

variable {rows : Rows} {row column depth : Nat} {line before rest : Text} {items : List RowItem}
  {r : RowTokens}

/-- What scanning says about the rest of a row: its tokens lead from the column to a position on
    the row, and a literal that is left open starts behind that. -/
structure LaidOn (rows : Rows) (row column : Nat) (r : RowTokens) : Prop where
  laid : ∃ q, Laid rows ⟨row, column⟩ (r.tokens.filter Token.isSolid) q ∧ q.row = row ∧
    ∀ literal, r.rowEnd = .inLiteral literal →
      literal.start.row = row ∧ rows.Apart q literal.start ∧ literal.text ≠ []

theorem RowItem.isSpelled {gap text behind : Text} {k : Lexeme} (taken : k.Takes text behind)
    {d : Nat} (ok : RowItem.depthAfter ⟨gap, k, text⟩ depth = .ok d) (he : k.endsRow = false) :
    (RowItem.token ⟨gap, k, text⟩ row line column).IsSpelled := by
  obtain ⟨c, rest, n, rfl, read, starts⟩ := taken.starts
  rw [List.cons_append] at read
  cases starts with
  | terminator | joint | openLiteral => cases he
  | comment hc => exact ⟨by simp [token, kind], nofun, fun _ => congrArg some hc, taken.ne_nil⟩
  | number hn =>
      refine ⟨by simp [token, kind], fun _ _ d hd => Lexeme.not_isQuote_of_isNumeric ?_,
        by simp [token, kind], taken.ne_nil⟩
      exact (Lexeme.reads_number? hn).1.2 d (by rwa [read])
  | operator hn =>
      refine ⟨by simp [token, kind], fun _ _ d hd => Lexeme.not_isQuote_of_isSymbol ?_,
        by simp [token, kind], taken.ne_nil⟩
      exact (Lexeme.reads_operator? hn).1.2 d (by rwa [read])
  | literal hn =>
      refine ⟨fun _ => ?_, by simp [token, kind], by simp [token, kind], taken.ne_nil⟩
      have := (isLiteral_of_literal? hn).1
      rwa [read] at this
  | word hc =>
      have prefix_eq : (c :: (rest ++ behind)).takeWhile Text.isWord = c :: rest := by
        rw [← read]
        exact List.prefix_iff_eq_take.mp (List.takeWhile_prefix _)
      refine ⟨by simp [token, kind]; split <;> simp, fun _ _ d hd =>
        Lexeme.not_isQuote_of_isWord ?_, by simp [token, kind]; split <;> simp, taken.ne_nil⟩
      have hd : d ∈ c :: rest := hd
      rw [← prefix_eq] at hd
      exact List.mem_takeWhile_imp hd
  | stray hc =>
      refine ⟨by simp [token, kind], fun _ _ d hd => ?_, by simp [token, kind], taken.ne_nil⟩
      have hd : d ∈ c :: rest := hd
      have single : c :: rest = [c] := by simpa using read.symm
      intro hq
      rw [single, List.mem_singleton] at hd
      subst hd
      have : depthAfter ⟨gap, .stray, d :: rest⟩ depth = .error .unterminatedString := by
        simp [depthAfter, hq]
      rw [this] at ok
      cases ok

/-- A string token is read as a literal. -/
theorem RowItem.literal?_of_string {gap text behind : Text} {k : Lexeme}
    (taken : k.Takes text behind) (he : k.endsRow = false)
    (string : (RowItem.token ⟨gap, k, text⟩ row line column).kind = .string) :
    Lexeme.literal? (text ++ behind) = some (.closed text.length) := by
  obtain ⟨c, rest, n, rfl, read, starts⟩ := taken.starts
  have length : n = (c :: rest).length := by
    have := congrArg List.length read
    rwa [List.length_take, List.cons_append, Nat.min_eq_left starts.length_pos_le.2] at this
  cases starts with
  | terminator | joint | openLiteral => cases he
  | literal hn => rwa [← List.cons_append, length] at hn
  | comment | number | operator | stray => cases string
  | word =>
      simp only [RowItem.token, RowItem.kind] at string
      split at string <;> cases string

theorem RowItem.isSolid_token {item : RowItem} (he : item.lexeme.endsRow = false) :
    (item.token row line column).isSolid := by
  obtain ⟨gap, k, text⟩ := item
  cases k with
  | joint | terminator | openLiteral => cases he
  | comment | number | operator | literal | stray => rfl
  | word =>
      simp only [Token.isSolid, token, kind]
      split <;> rfl

/-- What the tokens from one item on come to. -/
inductive RowItem.Leads (row : Nat) (line : Text) (depth column : Nat) (item : RowItem)
    (more : List RowItem) : RowTokens → Prop where
  | joint (hk : item.lexeme = .joint) : Leads row line depth column item more ⟨[], depth, .joined⟩
  | openLiteral {q : Delimiter} (hk : item.lexeme = .openLiteral q) :
      Leads row line depth column item more ⟨[], depth,
        .inLiteral ⟨q, (item.token row line column).start, item.text, line⟩⟩
  | terminator (hk : item.lexeme = .terminator) :
      Leads row line depth column item more
        ⟨[{ item.token row line column with
          kind := if depth = 0 then .newline else .rowBreak }], depth, .plain⟩
  | token {d : Nat} {r : RowTokens} (he : item.lexeme.endsRow = false)
      (ok : item.depthAfter depth = .ok d)
      (rest : RowItem.tokens row line d (item.token row line column).stop.column more = .ok r) :
      Leads row line depth column item more (r.after (item.token row line column))

theorem RowItem.leads_of_tokens {item : RowItem} {more : List RowItem}
    (h : RowItem.tokens row line depth column (item :: more) = .ok r) :
    Leads row line depth column item more r := by
  simp only [tokens] at h
  split at h
  · next hk =>
      obtain rfl := Except.ok.inj h
      exact .joint hk
  · next hk =>
      obtain rfl := Except.ok.inj h
      exact .openLiteral hk
  · next hk =>
      obtain rfl := Except.ok.inj h
      exact .terminator hk
  · split at h
    · cases h
    · next hj ho ht _ d ok =>
        cases rest : tokens row line d (item.token row line column).stop.column more with
        | error e =>
            rw [rest] at h
            cases h
        | ok r' =>
            rw [rest] at h
            obtain rfl := Except.ok.inj h
            refine .token ?_ ok rest
            cases hk : item.lexeme with
            | joint => exact absurd hk hj
            | openLiteral q => exact absurd hk (ho q)
            | terminator => exact absurd hk ht
            | comment | number | operator | literal | word | stray => rfl

/-- A token that ends no row stands in front of those of the items behind it. -/
theorem RowItem.tokens_cons {item : RowItem} {d : Nat} (he : item.lexeme.endsRow = false)
    (ok : item.depthAfter depth = .ok d) (row : Nat) (line : Text) (column : Nat)
    (items : List RowItem) :
    RowItem.tokens row line depth column (item :: items) =
      (RowItem.tokens row line d (item.token row line column).stop.column items).map
        (.after (item.token row line column)) := by
  rw [tokens]
  cases hk : item.lexeme with
  | joint | openLiteral | terminator =>
      rw [hk] at he
      cases he
  | comment | number | operator | literal | word | stray => simp only [ok]

theorem laidOn_tokens (hrow : rows.row row = line) (hi : Itemized rest items)
    (whole : before ++ rest = line) (hc : Text.byteLength before = column)
    (h : RowItem.tokens row line depth column items = .ok r) : LaidOn rows row column r := by
  have holds {a b : Text} {n : Nat} (hl : a ++ b = line) (hn : Text.byteLength a = n) :
      rows.Holds a ⟨row, n⟩ := ⟨⟨b, by rw [hl, hrow]⟩, hn⟩
  induction hi generalizing before column depth r with
  | nil hg =>
      obtain rfl := Except.ok.inj h
      exact ⟨_, .nil, rfl, nofun⟩
  | last hg taken he =>
      rename_i gap text behind k
      have apart : rows.Apart ⟨row, column⟩ ⟨row, column + Text.byteLength gap⟩ :=
        .behind (holds whole hc) (holds (b := text ++ behind) (by simpa using whole)
          (by simp [hc])) rfl hg
      cases RowItem.leads_of_tokens h with
      | joint => exact ⟨_, .nil, rfl, nofun⟩
      | openLiteral =>
          refine ⟨_, .nil, rfl, fun literal hl => ?_⟩
          obtain rfl := RowEnd.inLiteral.inj hl
          exact ⟨rfl, apart, taken.ne_nil⟩
      | terminator =>
          refine ⟨⟨row, column⟩, ?_, rfl, nofun⟩
          split <;> exact .nil
      | token he' =>
          rw [he] at he'
          cases he'
  | cons hg taken he _ ih =>
      rename_i gap text behind k items _
      have start : rows.Holds (before ++ gap) ⟨row, column + Text.byteLength gap⟩ :=
        holds (b := text ++ behind) (by simpa using whole) (by simp [hc])
      cases RowItem.leads_of_tokens h with
      | joint hk | openLiteral hk | terminator hk =>
          simp only at hk
          rw [hk] at he
          cases he
      | token _ ok rest =>
          have parts : before ++ gap ++ text ++ behind = line := by simpa using whole
          obtain ⟨q, laid, end_row, literal⟩ :=
            (ih parts (by simp [hc, RowItem.token, Nat.add_assoc]) rest).laid
          have stop : rows.Holds (before ++ gap ++ text)
              (RowItem.token ⟨gap, k, text⟩ row line column).stop :=
            holds parts (by simp [hc, Nat.add_assoc])
          refine ⟨q, ?_, end_row, literal⟩
          rw [RowTokens.after, List.filter_cons_of_pos (RowItem.isSolid_token he)]
          exact .cons (.behind (holds whole hc) start rfl hg)
            (.onRow start stop rfl (RowItem.isSpelled taken ok he) fun string =>
              ⟨behind, parts.trans hrow.symm, RowItem.literal?_of_string taken he string⟩) laid

theorem laidOn_between {s : ScanState} (hrow : rows.row s.row = line)
    (h : s.IsBetween line r) : LaidOn rows s.row 0 r := by
  cases h with
  | comment hg hl hc he =>
      rename_i gap rest comment ending
      have start : rows.Holds gap ⟨s.row, Text.byteLength gap⟩ :=
        ⟨⟨comment ++ ending, by rw [hrow, hl, List.append_assoc]⟩, rfl⟩
      have stop : rows.Holds (gap ++ comment)
          ⟨s.row, Text.byteLength gap + Text.byteLength comment⟩ :=
        ⟨⟨ending, by rw [hrow, hl]⟩, Text.byteLength_append _ _⟩
      have first : rows.Holds [] ⟨s.row, 0⟩ := ⟨List.nil_prefix, rfl⟩
      have marked : comment.head? = some '#' := by
        rw [hc]
        exact congrArg List.head? (Text.dropEndWhile_append (s := []) (c := '#') (by decide) rest)
      have filled : comment ≠ [] := by
        intro none
        rw [none] at marked
        cases marked
      refine ⟨_, .cons (.behind first start rfl hg)
        (.onRow start stop rfl ⟨nofun, nofun, fun _ => marked, filled⟩ nofun) .nil, rfl, nofun⟩
  | blank hg hl hc => exact ⟨_, .nil, rfl, nofun⟩

end Row

/-! ## The tokens of a source -/

section Source

variable {rows : Rows} {s t : ScanState} {line : Text}

/-- The solid tokens read so far are laid out on the rows before the next one, and a literal that
    is open starts behind them. -/
def ScanState.IsLaid (rows : Rows) (s : ScanState) : Prop :=
  ∃ p, Laid rows ⟨0, 0⟩ (s.tokens.toList.filter Token.isSolid) p ∧ p.row < s.row ∧
    ∀ literal, s.rowEnd = .inLiteral literal →
      literal.start.row < s.row ∧ rows.Apart p literal.start ∧ literal.text ≠ []

theorem ScanState.isLaid_initial (rows : Rows) : initial.IsLaid rows :=
  ⟨⟨0, 0⟩, .nil, Nat.zero_lt_one, nofun⟩

/-- Layout marks and a row that is laid out come on top. -/
theorem ScanState.isLaid_advance {marks : List Token} {r : RowTokens} {column : Nat}
    {indents : List Nat} (h : s.IsLaid rows) (hm : ∀ m ∈ marks, m.isSolid = false)
    (opens : rows.Opens ⟨s.row, column⟩) (hr : LaidOn rows s.row column r) :
    ({ s with indents := indents }.advance marks r).IsLaid rows := by
  obtain ⟨p, laid, below, -⟩ := h
  obtain ⟨q, more, end_row, literal⟩ := hr.laid
  obtain ⟨f, more, le, apart⟩ := more.lift (e := p) below opens
  refine ⟨f, ?_, Nat.lt_succ_of_le (end_row ▸ le), fun l hl => ?_⟩
  · have none : marks.filter Token.isSolid = [] := List.filter_eq_nil_iff.mpr fun m hm' => by
      simp [hm m hm']
    rw [toList_tokens_advance, List.filter_append, List.filter_append, none, List.append_nil]
    exact laid.append more
  · obtain ⟨row_eq, behind, ne⟩ := literal l hl
    exact ⟨Nat.lt_succ_of_le (Nat.le_of_eq row_eq), apart _ behind, ne⟩

theorem ScanState.isLaid_of_feeds (h : Feeds s line t) (hrow : rows.row s.row = line)
    (laid : s.IsLaid rows) : t.IsLaid rows := by
  have gap : rows.Opens ⟨s.row, Text.byteLength (line.takeWhile Lexeme.isGap)⟩ :=
    ⟨_, ⟨hrow ▸ List.takeWhile_prefix _, rfl⟩, fun _ => List.mem_takeWhile_imp⟩
  cases h with
  | nothing => exact laid
  | literalEnd he hn scan =>
      rename_i literal n r
      obtain ⟨p, before, below, open_⟩ := laid
      obtain ⟨lower, apart, ne⟩ := open_ literal he
      obtain ⟨q, more, end_row, literal'⟩ := (laidOn_tokens hrow (itemized_list _)
        (List.take_append_drop n line) rfl scan).laid
      have long : 2 ≤ (s.closingToken literal (line.take n)).text.length := by
        obtain ⟨body, behind, rfl, rfl, -⟩ := Delimiter.exists_of_closing? hn
        have := List.length_pos_iff.mpr ne
        have := List.length_pos_iff.mpr (Delimiter.text_ne_nil literal.delimiter)
        simp only [closingToken]
        rw [List.take_left, List.length_append, List.length_append]
        omega
      refine ⟨q, ?_, Nat.lt_succ_of_le (Nat.le_of_eq end_row), fun l hl => ?_⟩
      · rw [toList_tokens_advance, List.filter_append, List.filter_append, List.append_assoc]
        exact before.append (.cons apart (.acrossRows rfl long lower) more)
      · obtain ⟨row_eq, behind⟩ := literal' l hl
        exact ⟨Nat.lt_succ_of_le (Nat.le_of_eq row_eq), behind⟩
  | literalMore he hn more =>
      rename_i literal
      obtain ⟨p, before, below, open_⟩ := laid
      obtain ⟨lower, apart, ne⟩ := open_ literal he
      refine ⟨p, by simpa using before, Nat.lt_succ_of_lt below, fun l hl => ?_⟩
      obtain rfl := RowEnd.inLiteral.inj hl
      exact ⟨Nat.lt_succ_of_lt lower, apart, by simp [ne]⟩
  | continued he scan =>
      exact isLaid_advance laid (by simp) (rows.opens_start _)
        (laidOn_tokens hrow (itemized_list line) (List.nil_append line) rfl scan)
  | between he hd between =>
      exact isLaid_advance laid (by simp) (rows.opens_start _)
        (laidOn_between hrow (isBetween_of_betweenStatements? between))
  | indented he hd between deeper scan =>
      exact isLaid_advance laid (by simp [indentToken, Token.isSolid, Token.Kind.isLayout]) gap
        (laidOn_tokens hrow (itemized_list _) List.takeWhile_append_dropWhile rfl scan)
  | aligned he hd between indents inner width scan =>
      exact isLaid_advance laid (by simp [dedentToken, Token.isSolid, Token.Kind.isLayout]) gap
        (laidOn_tokens hrow (itemized_list _) List.takeWhile_append_dropWhile rfl scan)

theorem ScanState.isLaid_of_feedsAll {lines done : List Text} {source : Text}
    (h : FeedsAll s lines t) (shape : AreRows lines) (split : Text.rows source = done ++ lines)
    (hrow : lines ≠ [] → s.row = done.length + 1) (laid : s.IsLaid (Rows.ofSource source)) :
    t.IsLaid (Rows.ofSource source) := by
  induction h generalizing done with
  | nil => exact laid
  | cons fed rest ih =>
      rename_i s u _ line lines
      have here := isLaid_of_feeds fed (hrow (by simp) ▸ Rows.row_ofSource split) laid
      have split' : Text.rows source = (done ++ [line]) ++ lines := by simpa using split
      cases shape with
      | last => exact ih .nil split' (by simp) here
      | cons hn shape =>
          refine ih shape split' (fun _ => ?_) here
          rw [row_of_feeds fed (by simp), hrow (by simp), List.length_append]
          rfl

theorem ScanState.not_isSolid_of_mem_endMarks {lines : List Text} {m : Token}
    (h : m ∈ s.endMarks lines) : m.isSolid = false := by
  simp only [endMarks, List.mem_append, List.mem_map, List.mem_singleton] at h
  obtain (h | ⟨w, -, rfl⟩) | rfl := h
  · split at h
    · rw [List.mem_singleton.mp h]
      rfl
    · cases h
  · rfl
  · rfl

theorem ScanState.not_isContent_of_mem_endMarks {lines : List Text} {m : Token}
    (h : m ∈ s.endMarks lines) : m.isContent = false := by
  refine Bool.eq_false_iff.mpr fun content => ?_
  have solid := Token.isSolid_of_isContent content
  rw [not_isSolid_of_mem_endMarks h] at solid
  cases solid

end Source

/-- The solid tokens of a source are laid out on its rows. -/
theorem laid_of_tokenize {source : Text} {tokens : List Token}
    (h : tokenize source = .ok tokens) :
    ∃ p, Laid (Rows.ofSource source) ⟨0, 0⟩ (tokens.filter Token.isSolid) p := by
  obtain ⟨s, fed, -, -, rfl⟩ := exists_of_tokenize h
  obtain ⟨p, laid, -, -⟩ := ScanState.isLaid_of_feedsAll fed (Text.areRows_rows source)
    (List.nil_append _).symm (fun _ => rfl) (ScanState.isLaid_initial _)
  have marks : (s.endMarks (Text.rows source)).filter Token.isSolid = [] :=
    List.filter_eq_nil_iff.mpr fun m hm => by
      simp [ScanState.not_isSolid_of_mem_endMarks hm]
  exact ⟨p, by rwa [List.filter_append, marks, List.append_nil]⟩

end StyleGuide
