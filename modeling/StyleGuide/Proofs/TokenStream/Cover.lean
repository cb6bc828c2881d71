import Mathlib.Data.List.Chain
import StyleGuide.Proofs.TokenStream.Place

/-! # The tokens cover the source

The tokens of a source stand in order and do not overlap, each has the text that the source holds
between its two ends, and what lies outside of them is filling: spaces, tabs, form feeds and
backslashes that join rows.
-/

namespace StyleGuide

namespace Position

theorem le_refl (p : Position) : p ≤ p := .inr ⟨rfl, Nat.le_refl _⟩

theorem le_trans {p q r : Position} (h : p ≤ q) (h' : q ≤ r) : p ≤ r := by
  rcases h with lt | ⟨eq, le⟩
  · rcases h' with lt' | ⟨eq', -⟩
    · exact .inl (Nat.lt_trans lt lt')
    · exact .inl (eq' ▸ lt)
  · rcases h' with lt' | ⟨eq', le'⟩
    · exact .inl (eq ▸ lt')
    · exact .inr ⟨eq.trans eq', Nat.le_trans le le'⟩

end Position

/-- The characters that no token takes: gaps, and backslashes with the row terminator behind
    them. -/
inductive IsFilling : Text → Prop where
  | nil : IsFilling []
  | gap {c : Char} {s : Text} (hc : Lexeme.isGap c) (rest : IsFilling s) : IsFilling (c :: s)
  | joint {ending s : Text} (he : Lexeme.IsTerminator ending) (rest : IsFilling s) :
      IsFilling ('\\' :: (ending ++ s))

theorem IsFilling.append {s t : Text} (hs : IsFilling s) (ht : IsFilling t) :
    IsFilling (s ++ t) := by
  induction hs with
  | nil => exact ht
  | gap hc _ ih => exact .gap hc ih
  | joint he _ ih =>
      rw [List.cons_append, List.append_assoc]
      exact .joint he ih

theorem isFilling_of_gaps {s : Text} (h : ∀ c ∈ s, Lexeme.isGap c) : IsFilling s := by
  induction s with
  | nil => exact .nil
  | cons c s ih => exact .gap (h c (by simp)) (ih fun d hd => h d (by simp [hd]))

namespace Text

/-- What a source holds in front of a position. A column behind the end of its row stands for that
    end. -/
def upTo (source : Text) (p : Position) : Text :=
  ((rows source).take (p.row - 1)).flatten ++ takeBytes p.column ((Rows.ofSource source).row p.row)

/-- The end of a row, behind its terminator. -/
def endOf (source : Text) (row : Nat) : Position :=
  ⟨row, byteLength ((Rows.ofSource source).row row)⟩

/-- A position between two characters or at an end of an existing row. -/
def HasPlace (source : Text) (p : Position) : Prop :=
  0 < p.row ∧ p.row ≤ (rows source).length ∧ ∃ before, (Rows.ofSource source).Holds before p

theorem takeBytes_eq_self {n : Nat} {s : Text} (h : byteLength s ≤ n) : takeBytes n s = s := by
  induction s generalizing n with
  | nil => rfl
  | cons c s ih =>
      simp only [byteLength_cons] at h
      rw [takeBytes, if_pos (by omega), ih (by omega)]

theorem takeBytes_zero (s : Text) : takeBytes 0 s = [] := by
  cases s with
  | nil => rfl
  | cons c s => rw [takeBytes, if_neg (Nat.not_le_of_lt c.utf8Size_pos)]

theorem row_ofSource (source : Text) (n : Nat) :
    (Rows.ofSource source).row (n + 1) = (rows source)[n]?.getD [] := by
  simp [Rows.row, Rows.ofSource]

theorem upTo_origin (source : Text) : source.upTo ⟨0, 0⟩ = [] := by
  simp [upTo, takeBytes_zero]

theorem upTo_start (source : Text) (n : Nat) :
    source.upTo ⟨n + 1, 0⟩ = ((rows source).take n).flatten := by
  simp [upTo, takeBytes_zero]

theorem row_length (source : Text) :
    (Rows.ofSource source).row (rows source).length = (rows source).getLast?.getD [] := by
  rw [List.getLast?_eq_getElem?]
  cases h : rows source with
  | nil => rfl
  | cons line more => simp [Rows.row, Rows.ofSource, h]

theorem upTo_of_le {source : Text} {n column : Nat}
    (h : byteLength ((Rows.ofSource source).row n) ≤ column) :
    source.upTo ⟨n, column⟩ = source.upTo ⟨n + 1, 0⟩ := by
  rw [upTo_start, upTo, takeBytes_eq_self h]
  cases n with
  | zero => simp [Rows.row]
  | succ n =>
      rw [row_ofSource, Nat.add_sub_cancel, List.take_add_one, List.flatten_append]
      cases (rows source)[n]? <;> simp

theorem upTo_endOf (source : Text) (n : Nat) :
    source.upTo (source.endOf n) = source.upTo ⟨n + 1, 0⟩ := upTo_of_le (Nat.le_refl _)

/-- The text behind the last row is the source. -/
theorem upTo_length_succ (source : Text) : source.upTo ⟨(rows source).length + 1, 0⟩ = source := by
  rw [upTo_start, List.take_length, flatten_rows]

end Text

open Text

section OnRow

variable {source : Text} {done more : List Text} {line before part behind : Text}

theorem upTo_of_split (split : rows source = done ++ line :: more)
    (whole : before ++ behind = line) :
    source.upTo ⟨done.length + 1, byteLength before⟩ = done.flatten ++ before := by
  rw [upTo, Rows.row_ofSource split, Nat.add_sub_cancel, split, List.take_left, ← whole,
    takeBytes_byteLength_append]

theorem hasPlace_of_split (split : rows source = done ++ line :: more)
    (whole : before ++ behind = line) :
    source.HasPlace ⟨done.length + 1, byteLength before⟩ := by
  refine ⟨Nat.succ_pos _, by rw [split]; simp, before, ⟨behind, ?_⟩, rfl⟩
  rw [whole, Rows.row_ofSource split]

theorem endOf_of_split (split : rows source = done ++ line :: more) :
    source.endOf (done.length + 1) = ⟨done.length + 1, byteLength line⟩ := by
  rw [endOf, Rows.row_ofSource split]

end OnRow

/-- From one position on to a later one there is nothing but filling. -/
structure Leads (source : Text) (p q : Position) : Prop where
  le : p ≤ q
  filled : ∃ s, IsFilling s ∧ source.upTo q = source.upTo p ++ s

theorem Leads.refl (source : Text) (p : Position) : Leads source p p :=
  ⟨p.le_refl, [], .nil, by rw [List.append_nil]⟩

theorem Leads.trans {source : Text} {p q r : Position} (h : Leads source p q)
    (h' : Leads source q r) : Leads source p r := by
  obtain ⟨le, s, filling, eq⟩ := h
  obtain ⟨le', s', filling', eq'⟩ := h'
  exact ⟨Position.le_trans le le', s ++ s', filling.append filling', by
    rw [eq', eq, List.append_assoc]⟩

theorem leads_endOf (source : Text) (n : Nat) :
    Leads source (source.endOf n) ⟨n + 1, 0⟩ :=
  ⟨.inl (Nat.lt_succ_self n), [], .nil, by rw [List.append_nil, upTo_endOf]⟩

namespace Token

/-- The marks that stand for no part of the source: ends of statements without a terminator, ends
    of blocks and the end of the source. -/
def IsMark (t : Token) : Prop :=
  t.text = [] ∧ (t.kind = .newline ∨ t.kind = .dedent ∨ t.kind = .endMarker)

/-- The text of the token is the source between its two ends, which are places of the source. -/
structure IsCut (source : Text) (t : Token) : Prop where
  start : source.HasPlace t.start
  stop : source.HasPlace t.stop
  text : source.upTo t.start ++ t.text = source.upTo t.stop

end Token

/-- The tokens cover the source from one position to another, up to filling. -/
inductive Covering (source : Text) : Position → List Token → Position → Prop where
  | nil {p q : Position} (leads : Leads source p q) : Covering source p [] q
  | cons {p q : Position} {t : Token} {ts : List Token} (leads : Leads source p t.start)
      (forward : t.start ≤ t.stop) (whole : t.IsMark ∨ t.IsCut source)
      (rest : Covering source t.stop ts q) : Covering source p (t :: ts) q

namespace Covering

variable {source : Text} {p q r : Position} {ts us : List Token}

theorem of_leads (h : Leads source p q) (covering : Covering source q ts r) :
    Covering source p ts r := by
  cases covering with
  | nil leads => exact .nil (h.trans leads)
  | cons leads forward whole rest => exact .cons (h.trans leads) forward whole rest

theorem append (h : Covering source p ts q) (more : Covering source q us r) :
    Covering source p (ts ++ us) r := by
  induction h with
  | nil leads => exact more.of_leads leads
  | cons leads forward whole rest ih => exact .cons leads forward whole (ih more)

theorem to_leads (h : Covering source p ts q) (leads : Leads source q r) :
    Covering source p ts r := by
  have := h.append (.nil leads)
  rwa [List.append_nil] at this

/-- Marks of one place cover nothing. -/
theorem replicate {m : Token} (mark : m.IsMark) (still : m.start = m.stop)
    (leads : Leads source p m.start) (n : Nat) :
    Covering source p (List.replicate n m) m.start := by
  induction n generalizing p with
  | zero => exact .nil leads
  | succ n ih =>
      rw [List.replicate_succ]
      refine .cons leads (still ▸ m.start.le_refl) (.inl mark) (ih ?_)
      rw [← still]
      exact .refl source m.start

end Covering

/-! ## Rows -/

section Row

variable {source : Text} {done more : List Text} {line before rest : Text} {depth row : Nat}
  {p : Position} {ts : List Token} {items : List RowItem} {r : RowTokens}

/-- The tokens cover the source from a position to the end of a row, or to the start of a literal
    that is open there. -/
structure CoversRow (source : Text) (p : Position) (ts : List Token) (row : Nat)
    (rowEnd : RowEnd) : Prop where
  closed : (∀ l, rowEnd ≠ .inLiteral l) → Covering source p ts (source.endOf row)
  literal : ∀ l, rowEnd = .inLiteral l → Covering source p ts l.start ∧ l.start.row ≤ row ∧
    source.HasPlace l.start ∧ source.upTo l.start ++ l.text = source.upTo (source.endOf row)

theorem Covering.coversRow {q : Position} {us : List Token} {rowEnd : RowEnd}
    (h : Covering source p us q) (more : CoversRow source q ts row rowEnd) :
    CoversRow source p (us ++ ts) row rowEnd := by
  obtain ⟨closed, literal⟩ := more
  refine ⟨fun none => h.append (closed none), fun l hl => ?_⟩
  obtain ⟨covering, here⟩ := literal l hl
  exact ⟨h.append covering, here⟩

theorem Lexeme.Takes.isTerminator {text behind : Text}
    (taken : Lexeme.terminator.Takes text behind) : Lexeme.IsTerminator text := by
  obtain ⟨c, more, n, rfl, read, starts⟩ := taken.starts
  rw [List.cons_append] at read
  cases starts with
  | terminator hn =>
      rw [← read]
      exact (Lexeme.isTerminator_of_terminator? hn).1

theorem Lexeme.Takes.exists_joint {text behind : Text}
    (taken : Lexeme.joint.Takes text behind) :
    ∃ ending, text = '\\' :: ending ∧ Lexeme.IsTerminator ending := by
  obtain ⟨c, more, n, rfl, read, starts⟩ := taken.starts
  rw [List.cons_append] at read
  cases starts with
  | joint hc hn =>
      subst hc
      rw [List.take_succ_cons] at read
      exact ⟨more, rfl, (List.cons.inj read).2 ▸ (Lexeme.isTerminator_of_terminator? hn).1⟩

theorem Lexeme.Takes.behind_eq_nil {text behind : Text} {q : Delimiter}
    (taken : (Lexeme.openLiteral q).Takes text behind) : behind = [] := by
  obtain ⟨c, more, n, rfl, read, starts⟩ := taken.starts
  have length := congrArg List.length read
  cases starts with
  | openLiteral hq =>
      rw [List.cons_append, List.take_succ_cons, List.take_length] at length
      simp only [List.length_cons, List.length_append] at length
      exact List.length_eq_zero_iff.mp (by omega)

theorem Lexeme.IsTerminator.exists_concat {ending : Text} (h : Lexeme.IsTerminator ending) :
    ∃ s, ending = s ++ ['\n'] := by
  rcases h with rfl | rfl
  · exact ⟨[], rfl⟩
  · exact ⟨['\r'], rfl⟩

/-- A newline ends the row that holds it. -/
def EndsAtNewline (line : Text) : Prop := ∀ a b, line = a ++ '\n' :: b → b = []

theorem EndsAtNewline.notMem {a s b : Text} (only : EndsAtNewline (a ++ s ++ b))
    (last : s.getLast? ≠ some '\n') : '\n' ∉ s := by
  intro mem
  obtain ⟨x, y, rfl⟩ := List.append_of_mem mem
  have none := only (a ++ x) (y ++ b) (by simp)
  obtain ⟨rfl, -⟩ := List.append_eq_nil_iff.mp none
  simp at last

theorem EndsAtNewline.behind_eq_nil {before ending behind : Text}
    (h : EndsAtNewline (before ++ ending ++ behind)) (he : Lexeme.IsTerminator ending) :
    behind = [] := by
  obtain ⟨s, rfl⟩ := he.exists_concat
  exact h (before ++ s) behind (by simp)

theorem leads_of_split (before part behind : Text) (split : rows source = done ++ line :: more)
    (whole : before ++ part ++ behind = line) (filling : IsFilling part) :
    Leads source ⟨done.length + 1, byteLength before⟩
      ⟨done.length + 1, byteLength (before ++ part)⟩ := by
  refine ⟨.inr ⟨rfl, by simp⟩, part, filling, ?_⟩
  rw [upTo_of_split split whole, upTo_of_split split (by rw [← List.append_assoc, whole]),
    List.append_assoc]

theorem isCut_of_split {t : Token} {behind : Text} (split : rows source = done ++ line :: more)
    (whole : before ++ t.text ++ behind = line)
    (start : t.start = ⟨done.length + 1, byteLength before⟩)
    (stop : t.stop = ⟨done.length + 1, byteLength (before ++ t.text)⟩) :
    t.start ≤ t.stop ∧ t.IsCut source := by
  have whole' : before ++ (t.text ++ behind) = line := by rw [← List.append_assoc, whole]
  refine ⟨?_, ?_, ?_, ?_⟩
  · rw [start, stop]
    exact .inr ⟨rfl, by simp⟩
  · rw [start]
    exact hasPlace_of_split split whole'
  · rw [stop]
    exact hasPlace_of_split split whole
  · rw [start, stop, upTo_of_split split whole', upTo_of_split split whole, List.append_assoc]

theorem RowItem.start_token (line before gap text : Text) (k : Lexeme) :
    (RowItem.token ⟨gap, k, text⟩ row line (byteLength before)).start =
      ⟨row, byteLength (before ++ gap)⟩ := by
  simp [token]

theorem RowItem.stop_token (line before gap text : Text) (k : Lexeme) :
    (RowItem.token ⟨gap, k, text⟩ row line (byteLength before)).stop =
      ⟨row, byteLength (before ++ gap ++ text)⟩ := by
  simp [token, Nat.add_assoc]

/-- A token with the gap in front of it, whatever its kind. -/
theorem covering_token (before gap text behind : Text) {t : Token}
    (split : rows source = done ++ line :: more) (hg : ∀ c ∈ gap, Lexeme.isGap c)
    (parts : before ++ gap ++ text ++ behind = line)
    (start : t.start = ⟨done.length + 1, byteLength (before ++ gap)⟩)
    (stop : t.stop = ⟨done.length + 1, byteLength (before ++ gap ++ text)⟩)
    (ht : t.text = text) :
    Covering source ⟨done.length + 1, byteLength before⟩ [t]
      ⟨done.length + 1, byteLength (before ++ gap ++ text)⟩ := by
  subst ht
  obtain ⟨forward, cut⟩ := isCut_of_split split parts start stop
  have gaps : Leads source ⟨done.length + 1, byteLength before⟩ t.start := by
    rw [start]
    exact leads_of_split before gap (t.text ++ behind) split (by simpa using parts)
      (isFilling_of_gaps hg)
  refine .cons gaps forward (.inr cut) (.nil ?_)
  rw [stop]
  exact .refl source _

/-- The tokens of the rest of a row cover it. -/
theorem coversRow_tokens (before : Text) (split : rows source = done ++ line :: more)
    (newline : EndsAtNewline line) (hi : Itemized rest items) (whole : before ++ rest = line)
    (h : RowItem.tokens (done.length + 1) line depth (byteLength before) items = .ok r) :
    CoversRow source ⟨done.length + 1, byteLength before⟩ r.tokens (done.length + 1)
      r.rowEnd := by
  induction hi generalizing before depth r with
  | nil hg =>
      obtain rfl := Except.ok.inj h
      refine ⟨fun _ => .nil ?_, nofun⟩
      rw [endOf_of_split split, ← whole]
      exact leads_of_split _ _ [] split (by simpa using whole) (isFilling_of_gaps hg)
  | last hg taken ends =>
      rename_i gap text behind k
      have parts : before ++ gap ++ text ++ behind = line := by simpa using whole
      have gaps := leads_of_split before gap (text ++ behind) split (by simpa using parts)
        (isFilling_of_gaps hg)
      cases RowItem.leads_of_tokens h with
      | token ends' =>
          rw [ends] at ends'
          cases ends'
      | joint hk =>
          obtain rfl : k = .joint := hk
          obtain ⟨ending, rfl, he⟩ := taken.exists_joint
          obtain rfl : behind = [] := by
            have here : EndsAtNewline (before ++ gap ++ ['\\'] ++ ending ++ behind) := by
              simpa [← parts] using newline
            exact here.behind_eq_nil he
          have joint : IsFilling ('\\' :: ending) := by
            have := IsFilling.joint he .nil
            rwa [List.append_nil] at this
          refine ⟨fun _ => .nil (gaps.trans ?_), nofun⟩
          rw [endOf_of_split split, ← parts, List.append_nil]
          exact leads_of_split _ _ _ split parts joint
      | openLiteral hk =>
          obtain rfl : k = .openLiteral _ := hk
          obtain rfl := taken.behind_eq_nil
          rw [List.append_nil] at parts
          refine ⟨fun none => absurd rfl (none _), fun l hl => ?_⟩
          obtain rfl := RowEnd.inLiteral.inj hl
          simp only [RowItem.start_token]
          refine ⟨.nil gaps, Nat.le_refl _, hasPlace_of_split split parts, ?_⟩
          rw [upTo_of_split split parts, endOf_of_split split,
            upTo_of_split split (List.append_nil line), List.append_assoc, parts]
      | terminator hk =>
          obtain rfl : k = .terminator := hk
          obtain rfl : behind = [] := by
            rw [← parts] at newline
            exact newline.behind_eq_nil taken.isTerminator
          refine ⟨fun _ => ?_, nofun⟩
          rw [endOf_of_split split, ← parts, List.append_nil]
          exact covering_token before gap text [] split hg parts
            (RowItem.start_token line before gap text .terminator)
            (RowItem.stop_token line before gap text .terminator) rfl
  | cons hg taken ends _ ih =>
      rename_i gap text behind k items _
      have parts : before ++ gap ++ text ++ behind = line := by simpa using whole
      cases RowItem.leads_of_tokens h with
      | joint hk | openLiteral hk | terminator hk =>
          simp only at hk
          rw [hk] at ends
          cases ends
      | token _ ok rest =>
          have one := covering_token before gap text behind split hg parts
            (RowItem.start_token line before gap text k)
            (RowItem.stop_token line before gap text k) rfl
          rw [RowItem.stop_token] at rest
          exact one.coversRow (ih _ parts rest)

/-- A row between statements is covered. -/
theorem covering_between {s : ScanState} (split : rows source = done ++ line :: more)
    (hrow : s.row = done.length + 1) (h : s.IsBetween line r) :
    CoversRow source ⟨s.row, 0⟩ r.tokens s.row r.rowEnd := by
  rw [hrow]
  cases h with
  | comment hg hl hc he =>
      rename_i gap rest comment ending
      refine ⟨fun _ => ?_, nofun⟩
      have first := covering_token [] gap comment ending split hg hl.symm
        (t := ⟨.comment, comment, ⟨s.row, byteLength gap⟩,
          ⟨s.row, byteLength gap + byteLength comment⟩, line⟩)
        (by simp [hrow]) (by simp [hrow]) rfl
      have second := covering_token (gap ++ comment) [] ending [] split (by simp)
        (by simpa using hl.symm)
        (t := ⟨.rowBreak, ending, ⟨s.row, byteLength gap + byteLength comment⟩,
          ⟨s.row, byteLength gap + byteLength comment + byteLength ending⟩, line⟩)
        (by simp [hrow]) (by simp [hrow, Nat.add_assoc]) rfl
      have both := first.append (by simpa using second)
      rw [endOf_of_split split]
      simpa [hl] using both
  | blank hg hl hc =>
      rename_i gap rest c
      refine ⟨fun _ => ?_, nofun⟩
      have here := covering_token [] gap (c :: rest) [] split hg (by simpa using hl.symm)
        (t := ⟨.rowBreak, c :: rest, ⟨s.row, byteLength gap⟩,
          ⟨s.row, byteLength gap + byteLength (c :: rest)⟩, line⟩)
        (by simp [hrow]) (by simp [hrow]) rfl
      rw [endOf_of_split split]
      simpa [hl, hrow] using here

end Row

/-! ## Sources -/

section Source

variable {source : Text} {done more lines : List Text} {line : Text} {s t : ScanState}

namespace ScanState

/-- The tokens read so far cover the rows in front of the next one. -/
def IsCovered (source : Text) (s : ScanState) : Prop :=
  0 < s.row ∧ CoversRow source ⟨0, 0⟩ s.tokens.toList (s.row - 1) s.rowEnd

theorem isCovered_initial (source : Text) : initial.IsCovered source := by
  refine ⟨Nat.one_pos, fun _ => .nil ?_, nofun⟩
  exact .refl source ⟨0, 0⟩

/-- Marks and a row that is covered come on top. -/
theorem isCovered_advance {marks : List Token} {r : RowTokens} {indents : List Nat}
    (h : s.IsCovered source) (closed : ∀ l, s.rowEnd ≠ .inLiteral l)
    (row : CoversRow source ⟨s.row, 0⟩ (marks ++ r.tokens) s.row r.rowEnd) :
    ({ s with indents := indents }.advance marks r).IsCovered source := by
  obtain ⟨pos, here⟩ := h
  refine ⟨Nat.succ_pos _, ?_⟩
  have below := leads_endOf source (s.row - 1)
  rw [Nat.sub_add_cancel pos] at below
  have covering := (here.closed closed).to_leads below
  rw [toList_tokens_advance, List.append_assoc]
  exact covering.coversRow row

theorem isCovered_of_feeds (h : Feeds s line t) (split : rows source = done ++ line :: more)
    (newline : EndsAtNewline line) (hrow : s.row = done.length + 1)
    (covered : s.IsCovered source) : t.IsCovered source := by
  have gap := List.takeWhile_append_dropWhile (p := Lexeme.isGap) (l := line)
  have gaps : ∀ c ∈ line.takeWhile Lexeme.isGap, Lexeme.isGap c :=
    fun c hc => List.mem_takeWhile_imp hc
  have closed (he : s.rowEnd = .plain) : ∀ l, s.rowEnd ≠ .inLiteral l := by
    intro l hl
    rw [he] at hl
    cases hl
  cases h with
  | nothing => exact covered
  | between he hd between =>
      have row := covering_between split hrow (isBetween_of_betweenStatements? between)
      exact isCovered_advance covered (closed he) row
  | continued he scan =>
      have row := coversRow_tokens [] split newline (itemized_list line) rfl (hrow ▸ scan)
      refine isCovered_advance covered ?_ (by simpa [hrow] using row)
      rcases he with he | ⟨he, -⟩ <;> simp [he]
  | indented he hd between deeper scan =>
      rw [hrow] at scan
      have row := coversRow_tokens _ split newline (itemized_list _) gap scan
      have first := covering_token [] [] (line.takeWhile Lexeme.isGap) _ (t := s.indentToken line)
        split (by simp) gap (by simp [indentToken, hrow]) (by simp [indentToken, hrow]) rfl
      refine isCovered_advance covered (closed he) ?_
      rw [hrow]
      exact first.coversRow row
  | aligned he hd between indents inner width scan =>
      rw [hrow] at scan
      have row := coversRow_tokens _ split newline (itemized_list _) gap scan
      have first : Leads source ⟨s.row, 0⟩ (s.dedentToken line).start := by
        rw [hrow]
        simpa [dedentToken, hrow] using leads_of_split [] _ _ split gap
          (isFilling_of_gaps gaps)
      rename_i r shut kept
      have marks := Covering.replicate (m := s.dedentToken line) ⟨rfl, .inr (.inl rfl)⟩ rfl first
        shut.length
      refine isCovered_advance covered (closed he) ?_
      rw [List.map_const']
      have all := marks.coversRow (by simpa [dedentToken, hrow] using row)
      rwa [← hrow] at all
  | literalMore he hn more =>
      rename_i literal
      obtain ⟨pos, here⟩ := covered
      obtain ⟨covering, le, place, text⟩ := here.literal literal he
      refine ⟨Nat.succ_pos _, fun none => absurd rfl (none _), fun l hl => ?_⟩
      obtain rfl := RowEnd.inLiteral.inj hl
      refine ⟨by simpa using covering, Nat.le_trans le (Nat.pred_le _), place, ?_⟩
      have row : source.upTo (source.endOf s.row) = source.upTo ⟨s.row, 0⟩ ++ line := by
        rw [hrow, endOf_of_split split, upTo_of_split split (List.append_nil line), upTo_start,
          split, List.take_left]
      have below := upTo_endOf source (s.row - 1)
      rw [Nat.sub_add_cancel pos] at below
      rw [← List.append_assoc, text, below]
      exact row.symm
  | literalEnd he hn scan =>
      rename_i literal n r
      obtain ⟨pos, here⟩ := covered
      obtain ⟨covering, le, place, text⟩ := here.literal literal he
      have whole := List.take_append_drop n line
      rw [hrow] at scan
      have row := coversRow_tokens _ split newline (itemized_list _) whole scan
      have below := upTo_endOf source (s.row - 1)
      rw [Nat.sub_add_cancel pos] at below
      have cut : (s.closingToken literal (line.take n)).IsCut source := by
        refine ⟨place, ?_, ?_⟩
        · simpa [closingToken, hrow] using hasPlace_of_split split whole
        · simp only [closingToken, hrow]
          rw [← List.append_assoc, text, below, upTo_of_split split whole, hrow, upTo_start,
            split, List.take_left]
      have token : Covering source literal.start [s.closingToken literal (line.take n)]
          ⟨done.length + 1, byteLength (line.take n)⟩ := by
        refine .cons (.refl source _) (.inl ?_) (.inr cut) (.nil ?_)
        · simp only [closingToken]
          omega
        · simpa [closingToken, hrow] using Leads.refl source _
      refine ⟨Nat.succ_pos _, ?_⟩
      rw [toList_tokens_advance, List.append_assoc]
      have all := (covering.append token).coversRow row
      simpa [advance, hrow] using all

theorem endsAtNewline_of_areRows (shape : AreRows (line :: lines)) : EndsAtNewline line := by
  intro a b hl
  cases shape with
  | last _ h => exact absurd (hl ▸ (by simp)) h
  | cons h _ =>
      rename_i body
      rcases List.append_eq_append_iff.mp hl with ⟨c, rfl, eq⟩ | ⟨c, rfl, eq⟩
      · cases c with
        | nil => exact (List.cons.inj eq).2.symm
        | cons d c => simp at eq
      · cases c with
        | nil => exact (List.cons.inj eq).2
        | cons d c =>
            obtain ⟨rfl, -⟩ := List.cons.inj eq
            simp at h

/-- All rows are covered, except for a last one of gaps, which is not read. -/
theorem isCovered_of_feedsAll (h : FeedsAll s lines t) (shape : AreRows lines)
    (split : rows source = done ++ lines) (hrow : s.row = done.length + 1)
    (covered : s.IsCovered source) :
    t.IsCovered source ∧ (t.row = (rows source).length + 1 ∨
      ∃ above last, rows source = above ++ [last] ∧ t.row = above.length + 1 ∧
        ∀ c ∈ last, Lexeme.isGap c) := by
  induction h generalizing done with
  | nil =>
      rw [List.append_nil] at split
      exact ⟨covered, .inl (split ▸ hrow)⟩
  | cons fed rest ih =>
      rename_i s u _ line lines
      have newline : EndsAtNewline line := endsAtNewline_of_areRows shape
      have covered' := isCovered_of_feeds fed split newline hrow covered
      have split' : rows source = (done ++ [line]) ++ lines := by simpa using split
      rcases row_or_gaps_of_feeds fed with next | ⟨rfl, gaps⟩
      · have hrow' : u.row = (done ++ [line]).length + 1 := by
          rw [next, hrow, List.length_append]
          rfl
        have shape' : AreRows lines := by
          cases shape with
          | last => exact .nil
          | cons _ rest => exact rest
        exact ih shape' split' hrow' covered'
      · cases shape with
        | cons => exact absurd (gaps '\n' (by simp)) (by decide)
        | last =>
            cases rest with
            | nil => exact ⟨covered', .inr ⟨done, line, split, hrow, gaps⟩⟩

/-- The marks behind the last row cover what is left. -/
theorem covering_endMarks (covered : s.IsCovered source) (he : s.rowEnd = .plain)
    (last : s.row = (rows source).length + 1 ∨
      ∃ above last, rows source = above ++ [last] ∧ s.row = above.length + 1 ∧
        ∀ c ∈ last, Lexeme.isGap c) :
    Covering source ⟨0, 0⟩ (s.tokens.toList ++ s.endMarks (rows source))
      ⟨(rows source).length + 1, 0⟩ := by
  have dedent : Token.IsMark ⟨.dedent, [], ⟨s.row, 0⟩, ⟨s.row, 0⟩, []⟩ := ⟨rfl, .inr (.inl rfl)⟩
  have endMarker : Token.IsMark ⟨.endMarker, [], ⟨s.row, 0⟩, ⟨s.row, 0⟩, []⟩ :=
    ⟨rfl, .inr (.inr rfl)⟩
  obtain ⟨pos, here⟩ := covered
  have above := here.closed (by simp [he])
  have marks (p : Position) (leads : Leads source p ⟨s.row, 0⟩) : Covering source p
      (s.indents.map (fun _ => ⟨.dedent, [], ⟨s.row, 0⟩, ⟨s.row, 0⟩, []⟩) ++
        [⟨.endMarker, [], ⟨s.row, 0⟩, ⟨s.row, 0⟩, []⟩]) ⟨s.row, 0⟩ := by
    rw [List.map_const']
    refine (Covering.replicate dedent rfl leads _).append ?_
    exact .cons (.refl source _) (Position.le_refl _) (.inl endMarker) (.nil (.refl source _))
  have below := leads_endOf source (s.row - 1)
  rw [Nat.sub_add_cancel pos] at below
  rw [endMarks, List.append_assoc]
  refine above.append ?_
  rcases last with hrow | ⟨done, last, split, hrow, gaps⟩
  · rw [← hrow]
    split
    · have edge : source.endOf (s.row - 1) =
          ⟨(rows source).length, byteLength ((rows source).getLast?.getD [])⟩ := by
        rw [hrow, Nat.add_sub_cancel, endOf, row_length]
      have beyond : source.upTo ⟨s.row, 0⟩ = source.upTo ⟨(rows source).length,
          byteLength ((rows source).getLast?.getD []) + 1⟩ := by
        rw [hrow, ← upTo_of_le]
        rw [row_length]
        exact Nat.le_succ _
      refine .cons ?_ (.inr ⟨rfl, Nat.le_succ _⟩) (.inl ⟨rfl, .inl rfl⟩) (marks _ ?_)
      · rw [edge]
        exact .refl source _
      · exact ⟨.inl (by simp [hrow]), [], .nil, by rw [beyond, List.append_nil]⟩
    · exact marks _ below
  · have blank : lacksNewline ((rows source).getLast?.getD []) = false := by
      have none : trim last = [] := by
        rw [trim, trimStart, List.dropWhile_eq_nil_iff.mpr
          fun c hc => Lexeme.isBlank_of_isGap (gaps c hc)]
        rfl
      simp [lacksNewline, split, none]
    have length : (rows source).length = s.row := by simp [split, hrow]
    have behind : Leads source ⟨s.row, 0⟩ ⟨(rows source).length + 1, 0⟩ := by
      refine ⟨.inl (by simp [length]), last, isFilling_of_gaps gaps, ?_⟩
      rw [upTo_length_succ, hrow, upTo_start, split, List.take_left]
      simpa [split] using (flatten_rows source).symm
    rw [blank]
    exact (marks _ below).to_leads behind

end ScanState

end Source

/-- The tokens cover the source: each of them but the marks is the part of the source between its
    two ends, they stand in order, and what the source holds in front of the first, between two
    and behind the last is filling. -/
structure Covers (source : Text) (tokens : List Token) : Prop where
  whole : ∀ t ∈ tokens, t.IsMark ∨ t.IsCut source
  forward : ∀ t ∈ tokens, t.start ≤ t.stop
  ordered : tokens.IsChain fun t u => t.stop ≤ u.start
  first : ∃ t, tokens.head? = some t ∧ IsFilling (source.upTo t.start)
  between : tokens.IsChain fun t u =>
    ∃ s, IsFilling s ∧ source.upTo u.start = source.upTo t.stop ++ s
  last : ∃ t, tokens.getLast? = some t ∧ ∃ s, IsFilling s ∧ source = source.upTo t.stop ++ s

theorem Covering.isMark_or_isCut {source : Text} {p q : Position} {ts : List Token}
    (h : Covering source p ts q) : ∀ t ∈ ts, t.IsMark ∨ t.IsCut source := by
  induction h with
  | nil => exact fun _ mem => absurd mem List.not_mem_nil
  | cons _ _ whole _ ih => exact List.forall_mem_cons.mpr ⟨whole, ih⟩

theorem Covering.covers {source : Text} {p q : Position} {t : Token} {ts : List Token}
    (h : Covering source p (t :: ts) q) :
    (∀ u ∈ t :: ts, (u.IsMark ∨ u.IsCut source) ∧ u.start ≤ u.stop) ∧
      (t :: ts).IsChain (fun u v => Leads source u.stop v.start) ∧
      ∃ u, (t :: ts).getLast? = some u ∧ Leads source u.stop q := by
  induction ts generalizing p t with
  | nil =>
      cases h with
      | cons _ forward whole rest =>
          cases rest with
          | nil leads => exact ⟨by simpa using ⟨whole, forward⟩, .singleton t, t, rfl, leads⟩
  | cons u ts ih =>
      cases h with
      | cons _ forward whole rest =>
          obtain ⟨each, chain, v, hv, leads⟩ := ih rest
          have next : Leads source t.stop u.start := by
            cases rest with
            | cons leads => exact leads
          refine ⟨?_, .cons_cons next chain, v, by simpa using hv, leads⟩
          rintro w (_ | ⟨_, hw⟩)
          · exact ⟨whole, forward⟩
          · exact each w hw

/-- Every token of a source is a mark or a part of the source. -/
theorem isMark_or_isCut_of_tokenize {source : Text} {tokens : List Token} {t : Token}
    (h : tokenize source = .ok tokens) (ht : t ∈ tokens) : t.IsMark ∨ t.IsCut source := by
  obtain ⟨s, fed, plain, -, rfl⟩ := exists_of_tokenize h
  obtain ⟨covered, last⟩ := ScanState.isCovered_of_feedsAll fed (areRows_rows source)
    (List.nil_append _).symm rfl (ScanState.isCovered_initial source)
  exact (ScanState.covering_endMarks covered plain last).isMark_or_isCut t ht

/-- The tokens of a source cover it in order and lose nothing of it. -/
theorem covers_of_tokenize {source : Text} {tokens : List Token}
    (h : tokenize source = .ok tokens) : Covers source tokens := by
  obtain ⟨s, fed, plain, -, rfl⟩ := exists_of_tokenize h
  obtain ⟨covered, last⟩ := ScanState.isCovered_of_feedsAll fed (areRows_rows source)
    (List.nil_append _).symm rfl (ScanState.isCovered_initial source)
  have covering := ScanState.covering_endMarks covered plain last
  cases hts : s.tokens.toList ++ s.endMarks (rows source) with
  | nil => simp [ScanState.endMarks] at hts
  | cons t ts =>
      rw [hts] at covering
      obtain ⟨each, chain, u, hu, leads⟩ := covering.covers
      have first : Leads source ⟨0, 0⟩ t.start := by
        cases covering with
        | cons leads => exact leads
      obtain ⟨-, s, filling, eq⟩ := first
      obtain ⟨-, s', filling', eq'⟩ := leads
      refine ⟨fun w hw => (each w hw).1, fun w hw => (each w hw).2,
        chain.imp fun v w leads => leads.le, ⟨t, rfl, ?_⟩, chain.imp fun v w leads => leads.filled,
        u, hu, s', filling', ?_⟩
      · rw [eq, upTo_origin]
        exact filling
      · rw [← eq', upTo_length_succ]

/-- A literal over two rows, a joint, characters of two bytes, a carriage return and a block are all
    kept. -/
theorem covers_of_joined_rows :
    let source := "if é:\n\tx = ('a\\\nü', \\\r\n  1)  # c\r\n\r\n  # d\ny".toList
    ∃ tokens, tokenize source = .ok tokens ∧ Covers source tokens ∧
      (tokens.filter Token.isContent).map Token.text =
        ["if", "é", ":", "x", "=", "(", "'a\\\nü'", ",", "1", ")", "y"].map String.toList := by
  intro source
  obtain ⟨tokens, read⟩ : ∃ tokens, (tokenize source).toOption = some tokens :=
    Option.isSome_iff_exists.mp (by decide +kernel)
  have content : (((tokenize source).toOption.getD []).filter Token.isContent).map Token.text =
      ["if", "é", ":", "x", "=", "(", "'a\\\nü'", ",", "1", ")", "y"].map String.toList := by
    decide +kernel
  rw [read] at content
  have read := eq_ok_of_toOption read
  exact ⟨tokens, read, covers_of_tokenize read, content⟩

end StyleGuide
