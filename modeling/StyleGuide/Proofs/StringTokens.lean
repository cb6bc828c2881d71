import StyleGuide.Proofs.Lexeme.Body
import StyleGuide.Proofs.TokenStream.Blocks

/-! # String tokens

Each string token is a literal with a body in which its delimiter is found at no place that is not
hidden, on however many rows it stands. Between single marks it goes on behind each row that ends in
a backslash. On the row where it starts this backslash has to hide the newline; on a row behind that
nothing is asked of the backslashes in front of it.
-/

namespace StyleGuide

/-- The text is a string literal. Between single marks it holds no newline that is not hidden. -/
def IsStringLiteral (text : Text) : Prop :=
  ∃ p : LiteralParts, p.text = text ∧ p.IsValid ∧ (p.delimiter.isTriple = false →
    ∀ front back, p.body = front ++ '\n' :: back → front.HidesNewline)

/-- Each newline has a backslash in front, and the first has an odd number of them. -/
def AreJoined (body : Text) : Prop :=
  ∀ front back, body = front ++ '\n' :: back →
    Lexeme.endsInBackslash (front ++ ['\n']) ∧ ('\n' ∉ front → Odd front.slashes)

/-- The text of a string token. -/
def IsWritten (text : Text) : Prop :=
  ∃ p : LiteralParts, p.text = text ∧ p.IsValid ∧ (p.delimiter.isTriple = false → AreJoined p.body)

/-- A string literal up to the end of a row behind which it goes on. -/
inductive IsOpenLiteral (q : Delimiter) : Text → Prop where
  | intro {letters body : Text} (hl : Lexeme.areOpening letters) (hq : Lexeme.isQuote q.mark)
      (ended : body.getLast? = some '\n') (quiet : ∀ behind, q.IsQuietIn body behind)
      (joined : q.isTriple = false → AreJoined body) : IsOpenLiteral q (letters ++ q.text ++ body)

section Literal

variable {s line text body : Text} {q : Delimiter} {n : Nat}

/-- A literal between single marks is good if each of its newlines has an odd number of backslashes
    in front. -/
theorem isStringLiteral_iff {p : LiteralParts} (valid : p.IsValid) :
    IsStringLiteral p.text ↔ (p.delimiter.isTriple = false →
      ∀ front back, p.body = front ++ '\n' :: back → Odd front.slashes) := by
  simp only [← Text.hidesNewline_iff_odd]
  refine ⟨?_, fun hidden => ⟨p, rfl, valid, hidden⟩⟩
  rintro ⟨p', same, valid', hidden⟩
  rwa [← valid'.eq_of_text_eq valid same]

/-- In front of a delimiter on the same row there is no newline. -/
theorem areJoined_of_endsAtNewline (before : Text) {behind : Text}
    (only : EndsAtNewline (before ++ (body ++ q.text ++ behind))) : AreJoined body := by
  rintro front back rfl
  have none := only (before ++ front) (back ++ q.text ++ behind) (by simp)
  simp [q.text_ne_nil] at none

/-- A body that ends in its only newline, which is hidden. -/
theorem areJoined_concat {front : Text} (hidden : front.HidesNewline)
    (only : EndsAtNewline (front ++ ['\n'])) : AreJoined (front ++ ['\n']) := by
  intro front' back eq
  obtain rfl := only front' back eq
  rw [← (List.append_inj' eq rfl).1]
  exact ⟨Text.endsInBackslash_of_hidesNewline hidden, fun _ => Text.hidesNewline_iff_odd.mp hidden⟩

/-- A row that goes on with a body. -/
theorem AreJoined.append (h : AreJoined body) (ended : body.getLast? = some '\n')
    (more : ∀ front back, line = front ++ '\n' :: back → Lexeme.endsInBackslash (front ++ ['\n'])) :
    AreJoined (body ++ line) := by
  have later (front back : Text) (eq : line = front ++ '\n' :: back) :
      Lexeme.endsInBackslash (body ++ front ++ ['\n']) ∧
        ('\n' ∉ body ++ front → Odd (body ++ front).slashes) := by
    have inner := more front back eq
    simp only [Lexeme.endsInBackslash, Bool.or_eq_true, List.isSuffixOf_iff_suffix] at inner ⊢
    rw [List.append_assoc]
    refine ⟨inner.imp (·.trans (List.suffix_append _ _)) (·.trans (List.suffix_append _ _)), ?_⟩
    exact fun none => absurd (List.mem_append_left _ (List.mem_of_getLast? ended)) none
  intro front back eq
  rcases List.append_eq_append_iff.mp eq with ⟨front', rfl, eq'⟩ | ⟨back', rfl, eq'⟩
  · exact later front' back eq'
  · cases back' with
    | nil => simpa using later [] back eq'.symm
    | cons c back' =>
        obtain ⟨rfl, -⟩ := List.cons.inj eq'
        exact h front back' rfl

theorem isWritten_of_literal? (h : Lexeme.literal? s = some (.closed n)) (only : EndsAtNewline s) :
    IsWritten (s.take n) := by
  obtain ⟨letters, q, rest, rfl, hl, hq, ⟨m, hm, eq⟩ | ⟨-, -, eq⟩⟩ := Lexeme.exists_of_literal? h
  · obtain rfl := Lexeme.LiteralStart.closed.inj eq
    obtain ⟨body, behind, rfl, rfl, quiet⟩ := Delimiter.exists_quiet_of_closing? hq hm
    refine ⟨⟨letters, q, body⟩, ?_, ⟨hl, hq, quiet⟩, fun _ =>
      areJoined_of_endsAtNewline _ only⟩
    rw [← List.append_assoc, ← List.length_append, List.take_left]
    simp [LiteralParts.text]
  · cases eq

theorem isOpenLiteral_of_literal? (h : Lexeme.literal? s = some (.runsOn q))
    (last : s.getLast? = some '\n') (only : EndsAtNewline s) : IsOpenLiteral q s := by
  obtain ⟨letters, q, rest, rfl, hl, hq, ⟨m, hm, eq⟩ | ⟨none, goes, eq⟩⟩ :=
    Lexeme.exists_of_literal? h
  · cases eq
  · obtain rfl := Lexeme.LiteralStart.runsOn.inj eq
    have only' : EndsAtNewline rest := fun a b eq =>
      only (letters ++ q.text ++ a) b (by simp [eq])
    have ended : rest.getLast? = some '\n' := by
      cases rest with
      | nil =>
          obtain ⟨marks, hm⟩ := q.text_eq_append
          rw [List.append_nil, hm, ← List.append_assoc, List.getLast?_concat] at last
          exact absurd (Option.some.inj last) (ne_newline_of_isQuote hq).1
      | cons c rest => rwa [List.getLast?_append_of_ne_nil _ (by simp)] at last
    refine .intro hl hq ended (fun behind => ?_) fun single => ?_
    · exact Delimiter.isQuietIn_of_closing?_eq_none hq none (.inr ended) only' behind
    · obtain ⟨front, rfl, hidden⟩ := exists_hidesNewline_of_runsOn (by simpa [single] using goes)
      exact areJoined_concat hidden only'

namespace IsOpenLiteral

theorem isQuote (h : IsOpenLiteral q text) : Lexeme.isQuote q.mark := by
  cases h with
  | intro _ hq => exact hq

/-- A row inside a literal that does not end there. -/
theorem append (h : IsOpenLiteral q text) (none : q.closing? line = none)
    (more : q.isTriple || Lexeme.endsInBackslash line) (last : line.getLast? = some '\n')
    (only : EndsAtNewline line) : IsOpenLiteral q (text ++ line) := by
  cases h with
  | @intro letters body hl hq ended quiet joined =>
      have shown : body.hides = false := Text.hides_of_getLast? ended (by decide)
      have quiet' := Delimiter.isQuietIn_of_closing?_eq_none hq none (.inr last) only
      rw [List.append_assoc]
      refine .intro hl hq (by simp [last]) (fun behind => (quiet _).append shown (quiet' behind)) ?_
      refine fun single => (joined single).append ended fun front back eq => ?_
      obtain rfl := only front back eq
      rw [← eq]
      simpa [single] using more

/-- A row inside a literal that ends there. -/
theorem isWritten (h : IsOpenLiteral q text) (hn : q.closing? line = some n)
    (only : EndsAtNewline line) : IsWritten (text ++ line.take n) := by
  cases h with
  | @intro letters body hl hq ended quiet joined =>
      have shown : body.hides = false := Text.hides_of_getLast? ended (by decide)
      obtain ⟨inner, behind, rfl, rfl, quiet'⟩ := Delimiter.exists_quiet_of_closing? hq hn
      have none : AreJoined inner := areJoined_of_endsAtNewline [] only
      refine ⟨⟨letters, q, body ++ inner⟩, ?_, ⟨hl, hq, (quiet _).append shown quiet'⟩, ?_⟩
      · rw [List.take_left]
        simp [LiteralParts.text]
      · exact fun single => (joined single).append ended fun front back eq =>
          (none front back eq).1

end IsOpenLiteral

end Literal

/-! ## Reading the rows -/

/-- The string tokens of a row are literals, and so far is the one that is open behind it, if the
    row ends in a newline. -/
structure WrittenOn (newline : Prop) (tokens : List Token) (rowEnd : RowEnd) : Prop where
  tokens : ∀ t ∈ tokens, t.kind = .string → IsWritten t.text
  literal : newline → ∀ l, rowEnd = .inLiteral l → IsOpenLiteral l.delimiter l.text

section Row

variable {row depth column : Nat} {line rest : Text} {items : List RowItem} {r : RowTokens}

theorem RowItem.eq_literal_of_kind {gap text : Text} {k : Lexeme} (ends : k.endsRow = false)
    (h : (RowItem.token ⟨gap, k, text⟩ row line column).kind = .string) : k = .literal := by
  cases k with
  | literal => rfl
  | openLiteral => cases ends
  | joint | comment | number | operator | terminator | stray => simp [token, kind] at h
  | word =>
      simp only [token, kind] at h
      split at h <;> cases h

theorem writtenOn_tokens (hi : Itemized rest items) (only : EndsAtNewline rest)
    (h : RowItem.tokens row line depth column items = .ok r) :
    WrittenOn (rest.getLast? = some '\n') r.tokens r.rowEnd := by
  induction hi generalizing column depth r with
  | nil hg =>
      obtain rfl := Except.ok.inj h
      exact ⟨nofun, fun _ => nofun⟩
  | @last gap text behind k hg taken ends =>
      cases RowItem.leads_of_tokens h with
      | joint => exact ⟨nofun, fun _ => nofun⟩
      | @openLiteral q hk =>
          refine ⟨nofun, fun newline l hl => ?_⟩
          obtain rfl := RowEnd.inLiteral.inj hl
          obtain ⟨c, more, n, rfl, read, starts⟩ := taken.starts
          obtain rfl : k = .openLiteral q := hk
          cases starts with
          | openLiteral hq =>
              rw [List.cons_append, List.take_succ_cons, List.take_length] at read
              obtain rfl : behind = [] := by simpa using read
              simp only [List.append_nil] at hq newline only
              refine isOpenLiteral_of_literal? hq ?_ fun a b eq =>
                only (gap ++ a) b (by rw [List.append_assoc, ← eq])
              rwa [List.getLast?_append_of_ne_nil _ (by simp)] at newline
      | terminator =>
          refine ⟨fun t ht string => ?_, fun _ => nofun⟩
          rw [List.mem_singleton.mp ht] at string
          simp only at string
          split at string <;> cases string
      | token ends' =>
          rw [ends] at ends'
          cases ends'
  | @cons gap text behind k items hg taken ends _ ih =>
      cases RowItem.leads_of_tokens h with
      | joint hk | openLiteral hk | terminator hk =>
          simp only at hk
          rw [hk] at ends
          cases ends
      | token _ _ more =>
          have later : EndsAtNewline behind := fun a b eq =>
            only (gap ++ text ++ a) b (by simp [eq])
          obtain ⟨tokens, literal⟩ := ih later more
          refine ⟨List.forall_mem_cons.mpr ⟨fun string => ?_, tokens⟩, fun newline =>
            literal (getLast?_of_takes taken ends newline)⟩
          have lexeme : k = .literal := RowItem.eq_literal_of_kind ends string
          subst lexeme
          obtain ⟨c, more, n, rfl, read, starts⟩ := taken.starts
          cases starts with
          | literal hn =>
              have here := isWritten_of_literal? hn fun a b eq =>
                only (gap ++ a) b (by simp [← eq])
              rwa [← List.cons_append, read] at here

end Row

namespace ScanState

variable {s t : ScanState} {line rest : Text} {lines : List Text} {column : Nat}

theorem writtenOn_of_scan {marks : List Token} (indents : List Nat) {r : RowTokens}
    (h : WrittenOn True s.tokens.toList s.rowEnd)
    (hm : ∀ m ∈ marks, m.kind = .string → IsWritten m.text)
    (last : line.getLast? = some '\n' → rest.getLast? = some '\n') (only : EndsAtNewline rest)
    (scan : scanRow s.row line s.depth column rest = .ok r) :
    WrittenOn (line.getLast? = some '\n')
      ({ s with indents := indents }.advance marks r).tokens.toList r.rowEnd := by
  obtain ⟨tokens, literal⟩ := writtenOn_tokens (itemized_list rest) only scan
  refine ⟨?_, fun newline => literal (last newline)⟩
  rw [toList_tokens_advance]
  simp only [List.mem_append]
  rintro t ((ht | ht) | ht)
  · exact h.tokens t ht
  · exact hm t ht
  · exact tokens t ht

/-- Each row keeps the string tokens literals. -/
theorem writtenOn_of_feeds (h : Feeds s line t) (only : EndsAtNewline line)
    (written : WrittenOn True s.tokens.toList s.rowEnd) :
    WrittenOn (line.getLast? = some '\n') t.tokens.toList t.rowEnd := by
  have whole := List.takeWhile_append_dropWhile (p := Lexeme.isGap) (l := line)
  have behindGap : EndsAtNewline (line.dropWhile Lexeme.isGap) := fun a b eq =>
    only (line.takeWhile Lexeme.isGap ++ a) b (by rw [List.append_assoc, ← eq, whole])
  cases h with
  | nothing he => exact ⟨written.tokens, fun _ l hl => nomatch he.symm.trans hl⟩
  | between he hd between =>
      cases isBetween_of_betweenStatements? between with
      | comment | blank =>
          refine ⟨?_, fun _ => nofun⟩
          rw [toList_tokens_advance]
          simpa [or_imp, forall_and] using written.tokens
  | @literalMore literal he hn more =>
      refine ⟨by simpa using written.tokens, fun newline l hl => ?_⟩
      obtain rfl := RowEnd.inLiteral.inj hl
      exact (written.literal trivial literal he).append hn more newline only
  | @literalEnd literal n r he hn scan =>
      have unended := written.literal trivial literal he
      refine writtenOn_of_scan s.indents written (fun m hm _ => ?_)
        (getLast?_drop_of_closing? unended.isQuote hn) (fun a b eq => ?_) scan
      · rw [List.mem_singleton.mp hm]
        exact unended.isWritten hn only
      · exact only (line.take n ++ a) b (by rw [List.append_assoc, ← eq, List.take_append_drop])
  | continued he scan =>
      exact writtenOn_of_scan s.indents written (List.forall_mem_nil _) id only scan
  | indented he hd between deeper scan =>
      refine writtenOn_of_scan _ written (fun m hm string => ?_) getLast?_dropWhile_isGap behindGap
        scan
      rw [List.mem_singleton.mp hm] at string
      cases string
  | aligned he hd between indents inner width scan =>
      refine writtenOn_of_scan _ written (fun m hm string => ?_) getLast?_dropWhile_isGap behindGap
        scan
      obtain ⟨w, -, rfl⟩ := List.mem_map.mp hm
      cases string

theorem isWritten_of_feedsAll (h : FeedsAll s lines t) (shape : AreRows lines)
    (written : WrittenOn True s.tokens.toList s.rowEnd) :
    ∀ u ∈ t.tokens.toList, u.kind = .string → IsWritten u.text := by
  induction h with
  | nil => exact written.tokens
  | cons fed rest ih =>
      obtain ⟨tokens, literal⟩ := writtenOn_of_feeds fed (endsAtNewline_of_areRows shape) written
      cases shape with
      | last =>
          cases rest
          exact tokens
      | cons _ shape => exact ih shape ⟨tokens, fun _ => literal (by simp)⟩

end ScanState

theorem isWritten_of_tokenize {source : Text} {tokens : List Token} {t : Token}
    (read : tokenize source = .ok tokens) (mem : t ∈ tokens) (string : t.kind = .string) :
    IsWritten t.text := by
  obtain ⟨s, fed, -, -, rfl⟩ := exists_of_tokenize read
  have initial : WrittenOn True ScanState.initial.tokens.toList ScanState.initial.rowEnd :=
    ⟨by simp [ScanState.initial], fun _ => nofun⟩
  rcases List.mem_append.mp mem with mem | mem
  · exact ScanState.isWritten_of_feedsAll fed (Text.areRows_rows source) initial t mem string
  · have solid := ScanState.not_isSolid_of_mem_endMarks mem
    simp [Token.isSolid, string, Token.Kind.isLayout] at solid

/-- Each string token is made of letters, a delimiter, a body and the delimiter, which the body
    holds at no place that is not hidden. Between single marks each newline of the body has a
    backslash in front, and the first one an odd number of them. The token is a string literal
    exactly if the others have an odd number as well. -/
theorem exists_parts_of_string {source : Text} {tokens : List Token} {t : Token}
    (read : tokenize source = .ok tokens) (mem : t ∈ tokens) (string : t.kind = .string) :
    ∃ p : LiteralParts, p.text = t.text ∧ p.IsValid ∧
      (p.delimiter.isTriple = false → ∀ front back, p.body = front ++ '\n' :: back →
        Lexeme.endsInBackslash (front ++ ['\n']) ∧ ('\n' ∉ front → Odd front.slashes)) ∧
      (IsStringLiteral t.text ↔ (p.delimiter.isTriple = false →
        ∀ front back, p.body = front ++ '\n' :: back → Odd front.slashes)) := by
  obtain ⟨s, fed, -, -, rfl⟩ := exists_of_tokenize read
  have initial : WrittenOn True ScanState.initial.tokens.toList ScanState.initial.rowEnd :=
    ⟨by simp [ScanState.initial], fun _ => nofun⟩
  have written := ScanState.isWritten_of_feedsAll fed (Text.areRows_rows source) initial
  rcases List.mem_append.mp mem with mem | mem
  · obtain ⟨p, same, valid, joined⟩ := written t mem string
    refine ⟨p, same, valid, joined, ?_⟩
    rw [← same]
    exact isStringLiteral_iff valid
  · have := ScanState.not_isSolid_of_mem_endMarks mem
    simp [Token.isSolid, string, Token.Kind.isLayout] at this

/-- A literal on two rows with an escaped mark on the second. -/
theorem exists_parts_of_two_rows :
    let source := "x = Rb'a\\\r\n\\'b'\n".toList
    ∃ tokens t, tokenize source = .ok tokens ∧ t ∈ tokens ∧ t.kind = .string ∧
      t.text = "Rb'a\\\r\n\\'b'".toList ∧ IsStringLiteral t.text := by
  intro source
  obtain ⟨tokens, read, t, mem, string, text⟩ : ∃ tokens ∈ (tokenize source).toOption,
      ∃ t ∈ tokens, t.kind = .string ∧ t.text = "Rb'a\\\r\n\\'b'".toList := by decide +kernel
  refine ⟨tokens, t, eq_ok_of_toOption read, mem, string, text, ?_⟩
  obtain ⟨p, same, -, joined, iff⟩ := exists_parts_of_string (eq_ok_of_toOption read) mem string
  refine iff.mpr fun single front back eq => (joined single front back eq).2 fun again => ?_
  have once : p.text.count '\n' = 1 := by
    rw [same, text]
    decide
  have twice := List.count_pos_iff.mpr again
  simp only [LiteralParts.text, eq, List.count_append, List.count_cons_self] at once
  omega

/-- A literal goes on behind a row that ends in two backslashes, though these hide no newline. -/
theorem not_isStringLiteral_of_two_backslashes :
    ∃ tokens t, tokenize "x = 'a\\\nb\\\\\nc'\n".toList = .ok tokens ∧ t ∈ tokens ∧
      t.kind = .string ∧ ¬IsStringLiteral t.text := by
  let p : LiteralParts := ⟨[], ⟨'\'', false⟩, "a\\\nb\\\\\nc".toList⟩
  have valid : p.IsValid := by
    refine ⟨rfl, rfl, fun front back eq ne _ => ?_⟩
    obtain ⟨c, back, rfl⟩ := List.exists_cons_of_ne_nil ne
    rintro ⟨more, same⟩
    obtain rfl : '\'' = c := (List.cons.inj same).1
    have mark : '\'' ∈ p.body := by simp [eq]
    exact absurd mark (by decide)
  obtain ⟨tokens, read, t, mem, string, text⟩ :
      ∃ tokens ∈ (tokenize "x = 'a\\\nb\\\\\nc'\n".toList).toOption,
        ∃ t ∈ tokens, t.kind = .string ∧ t.text = p.text := by decide +kernel
  refine ⟨tokens, t, eq_ok_of_toOption read, mem, string, ?_⟩
  rw [text, isStringLiteral_iff valid]
  intro odd
  exact absurd (odd rfl "a\\\nb\\\\".toList "c".toList rfl) (by decide)

end StyleGuide
