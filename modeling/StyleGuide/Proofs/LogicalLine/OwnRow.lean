import StyleGuide.FixedText
import StyleGuide.Proofs.LogicalLine.Inline
import StyleGuide.Proofs.Text.Trim

/-! # A statement with a row of its own

A statement that fills its row and that no rule changes is written as the row is, without the white
space at its end.
-/

namespace StyleGuide

namespace Text

/-- The row without white space at its end, behind which comes one newline. -/
def tidied (row : Text) : Text := trimEnd row ++ ['\n']

/-- A text that begins and ends with other characters than white space. -/
structure IsFirm (s : Text) : Prop where
  first : ∃ c, s.head? = some c ∧ ¬isBlank c
  last : ∃ c, s.getLast? = some c ∧ ¬isBlank c

instance (s : Text) : Decidable s.IsFirm :=
  decidable_of_iff (s.head?.any (fun c => !isBlank c) ∧ s.getLast?.any fun c => !isBlank c)
    ⟨fun ⟨first, last⟩ => ⟨by simpa [Option.any_eq_true] using first,
      by simpa [Option.any_eq_true] using last⟩,
    fun ⟨first, last⟩ => ⟨by simpa [Option.any_eq_true] using first,
      by simpa [Option.any_eq_true] using last⟩⟩

variable {s t : Text}

theorem trimEnd_append_of_last (h : ∃ c, s.getLast? = some c ∧ ¬isBlank c) (t : Text) :
    trimEnd (s ++ t) = s ++ trimEnd t := by
  obtain ⟨c, last, hc⟩ := h
  obtain ⟨init, rfl⟩ := List.getLast?_eq_some_iff.mp last
  exact dropEndWhile_append hc t

theorem trimEnd_append_of_blank (h : isAllBlank t) : trimEnd (s ++ t) = trimEnd s := by
  induction t using List.reverseRecOn with
  | nil => rw [List.append_nil]
  | append_singleton t c ih =>
      have blank : isAllBlank t ∧ isBlank c := by simpa [isAllBlank] using h
      rw [← List.append_assoc, trimEnd_concat blank.2, ih blank.1]

theorem tidied_of_blank (h : isAllBlank s) : tidied s = ['\n'] := by
  have : trimEnd ([] ++ s) = trimEnd [] := trimEnd_append_of_blank h
  rw [List.nil_append] at this
  rw [tidied, this]
  rfl

end Text

/-- The row with number `n` holds the statement of a run and nothing else. -/
structure FillsRow (rows : Rows) (run : List Token) (n : Nat) : Prop where
  commentsLast : CommentsLast run
  /-- No token of the statement is white space. -/
  firm : ∀ t ∈ run, t.isContent → t.text.IsFirm
  /-- Its last token, which may be a comment, is the last thing on the row. -/
  behind : ∀ t, (run.filter Token.isSolid).getLast? = some t →
    t.stop.row = n ∧ Text.isAllBlank (Text.dropBytes t.stop.column (rows.row n))

instance (run : List Token) : Decidable (CommentsLast run) :=
  inferInstanceAs (Decidable (List.Pairwise _ run))

instance (rows : Rows) (run : List Token) (n : Nat) : Decidable (FillsRow rows run n) :=
  decidable_of_iff (CommentsLast run ∧ (∀ t ∈ run, t.isContent → t.text.IsFirm) ∧
      ∀ t ∈ (run.filter Token.isSolid).getLast?,
        t.stop.row = n ∧ Text.isAllBlank (Text.dropBytes t.stop.column (rows.row n)))
    ⟨fun ⟨last, firm, behind⟩ => ⟨last, firm, behind⟩,
      fun ⟨last, firm, behind⟩ => ⟨last, firm, behind⟩⟩

namespace LogicalLine

variable {rows : Rows} {run pre post : List Token} {b t : Token} {p q : Position} {n : Nat}
  {x : Text}

/-- Comments on other rows than the content in front of them are not written behind it. -/
theorem commentBehind_eq {before : Option Token} (content : b.isContent)
    (hb : ∀ a, before = some a → a.stop.row = n) (on : ∀ t ∈ pre, t.isContent → t.stop.row = n)
    (other : ∀ t ∈ pre, t.kind = .comment → t.start.row ≠ n) :
    commentBehind rows before (pre ++ b :: post) = commentBehind rows (some b) post := by
  induction pre generalizing before with
  | nil => rw [List.nil_append, commentBehind, if_pos content]
  | cons t pre ih =>
      have on' : ∀ u ∈ pre, u.isContent → u.stop.row = n :=
        fun u hu => on u (List.mem_cons_of_mem _ hu)
      have other' : ∀ u ∈ pre, u.kind = .comment → u.start.row ≠ n :=
        fun u hu => other u (List.mem_cons_of_mem _ hu)
      rw [List.cons_append, commentBehind]
      split
      · next ht =>
          refine ih (fun a ha => ?_) on' other'
          obtain rfl := Option.some.inj ha
          exact on t (List.mem_cons_self ..) ht
      · have later := ih hb on' other'
        cases before with
        | none => exact later
        | some a =>
            have elsewhere : ¬(t.kind = .comment ∧ a.stop.row = t.start.row) := by
              rintro ⟨kind, row⟩
              exact other t (List.mem_cons_self ..) kind (row.symm.trans (hb a rfl))
            simp only [later, if_neg elsewhere]

/-- What is on the row behind the content is the comment and white space. -/
theorem exists_comment {l : LogicalLine} (hl : ofTokens? rows (pre ++ b :: post) = some l)
    (fills : FillsRow rows (pre ++ b :: post) n) (content : b.isContent)
    (on : ∀ t ∈ pre, t.isContent → t.stop.row = n) (row : b.start.row = n) (row' : b.stop.row = n)
    (bare : ∀ t ∈ post, t.isContent = false)
    (laid : Laid rows p ((pre ++ b :: post).filter Token.isSolid) q) (held : rows.Holds x b.stop) :
    ∃ tail, Text.isAllBlank tail ∧ x ++ l.comment.getD [] ++ tail = rows.row n := by
  have other : ∀ t ∈ pre, t.kind = .comment → t.start.row ≠ n := by
    intro t ht kind same
    have below := (List.pairwise_append.mp fills.commentsLast).2.2 t ht b
      (List.mem_cons_self ..) kind content
    have set := laid.isSet_of_mem
      (List.mem_filter.mpr ⟨List.mem_append_left _ ht, Token.isSolid_of_comment kind⟩)
    have := set.row_le
    omega
  have comment : l.comment = commentBehind rows (some b) post := by
    rw [comment_of_ofTokens? hl]
    exact commentBehind_eq content nofun on other
  rw [List.filter_append, List.filter_cons_of_pos (Token.isSolid_of_isContent content)] at laid
  obtain ⟨_, -, laid⟩ := laid.exists_of_append
  cases laid with
  | cons _ _ laid =>
      have level {t : Token} (ht : t ∈ post) (kind : t.kind = .comment) :
          t.start.row = t.stop.row := by
        cases laid.isSet_of_mem (List.mem_filter.mpr ⟨ht, Token.isSolid_of_comment kind⟩) with
        | onRow _ _ row => exact row
        | acrossRows string => rw [kind] at string; cases string
      -- The last token is either `b` or the last comment behind it.
      have last (t : Token) (ht : (post.filter Token.isSolid).getLast? = some t) :
          t ∈ post ∧ t.kind = .comment ∧ t.stop.row = n ∧
            Text.isAllBlank (Text.dropBytes t.stop.column (rows.row n)) := by
        obtain ⟨mem, solid⟩ := List.mem_filter.mp (List.mem_of_getLast? ht)
        have kind : t.kind = .comment := by
          have := bare t mem
          simp only [Token.isSolid] at solid
          simpa [Token.isContent, solid] using this
        refine ⟨mem, kind, fills.behind t ?_⟩
        rw [List.filter_append, List.filter_cons_of_pos (Token.isSolid_of_isContent content),
          List.getLast?_append, List.getLast?_cons, ht]
        rfl
      cases hv : (post.filter Token.isSolid).getLast? with
      | none =>
          have none : post.filter Token.isSolid = [] := List.getLast?_eq_none_iff.mp hv
          obtain ⟨-, blank⟩ := fills.behind b (by
            rw [List.filter_append, List.filter_cons_of_pos (Token.isSolid_of_isContent content),
              none, List.getLast?_concat])
          have quiet : commentBehind rows (some b) post = .none := by
            refine commentBehind_eq_none bare fun t ht kind => ?_
            have := List.filter_eq_nil_iff.mp none t ht
            exact absurd (Token.isSolid_of_comment kind) this
          obtain ⟨tail, whole⟩ := held.1
          rw [row'] at whole
          refine ⟨tail, ?_, ?_⟩
          · rwa [← whole, ← held.2, Text.dropBytes_byteLength_append] at blank
          · rw [comment, quiet, ← whole]
            simp
      | some v =>
          obtain ⟨mem, kind, rowv, blank⟩ := last v hv
          have samerow : v.start.row = b.stop.row := by rw [level mem kind, rowv, row']
          obtain ⟨w, s, eq, holds, -, -, roww, all⟩ := exists_last_comment held
            held.before_self laid bare mem kind samerow
          have reach := all v mem kind samerow
          cases reach with
          | below below => omega
          | @behind first part hp hq =>
              obtain ⟨tail, whole⟩ := holds.1
              rw [roww, row'] at whole
              have rest : Text.dropBytes v.stop.column (rows.row n) = part ++ tail := by
                rw [← whole, ← hq.unique holds, ← hp.2, List.append_assoc,
                  Text.dropBytes_byteLength_append]
              rw [rest] at blank
              have parts : Text.isAllBlank part ∧ Text.isAllBlank tail := by
                simpa [Text.isAllBlank, List.all_append] using blank
              refine ⟨tail, parts.2, ?_⟩
              rw [comment, eq]
              exact whole

/-- In front of a statement that fills its row there is nothing but a gap. -/
theorem opens_of_laid {first : Token} {rest : List Token}
    (content : run.filter Token.isContent = first :: rest) (last : CommentsLast run)
    (laid : Laid rows p (run.filter Token.isSolid) q) (above : p.row < first.start.row) :
    rows.Opens first.start := by
  obtain ⟨_, behind⟩ := laid.filter_isContent (fun t ht => (List.mem_filter.mp ht).2)
    (last.sublist List.filter_sublist)
  rw [Laid.filter_isSolid_isContent, content] at behind
  cases behind with
  | cons apart =>
      cases apart with
      | below _ opens => exact opens
      | behind _ _ row => omega

/-- The part of a row that a statement takes up. -/
theorem exists_part {first : Token} {rest : List Token} (ordered : Ordered rows p (first :: rest))
    (on : OnRow n (first :: rest)) (held : rows.Holds x first.start)
    (firm : ∀ t ∈ first :: rest, t.text.IsFirm) :
    ∃ part, rows.Holds (x ++ part) (stopOf first rest) ∧ part.IsFirm := by
  have isSet := ordered
  cases ordered with
  | cons _ set ordered =>
      have onf := on first (List.mem_cons_self ..)
      cases set with
      | acrossRows _ _ across => omega
      | onRow start stop =>
          obtain rfl := start.unique held
          have holds := holds_weaveBehind ordered on stop
          rw [List.append_assoc] at holds
          have head : ∃ c, (first.text ++ (weaveBehind rows first rest).written).head? = some c ∧
              ¬Text.isBlank c := by
            obtain ⟨c, head, hc⟩ := (firm first (List.mem_cons_self ..)).first
            exact ⟨c, by rw [List.head?_append, head]; rfl, hc⟩
          refine ⟨_, holds, head, ?_⟩
          -- The part ends where the last token ends.
          have mem := List.getLast_mem (l := first :: rest) (by simp)
          have onb := on _ mem
          cases isSet.isSet_of_mem mem with
          | acrossRows _ _ across => omega
          | onRow _ stop =>
              have whole := stop.unique holds
              obtain ⟨d, last, hd⟩ := (firm _ mem).last
              refine ⟨d, ?_, hd⟩
              have ends := congrArg List.getLast? whole
              rw [List.getLast?_append, last, List.getLast?_append_of_ne_nil] at ends
              · exact ends.symm
              · obtain ⟨c, head, -⟩ := head
                intro none
                rw [none] at head
                cases head

/-- A row that a statement fills is a gap, the content, the comment and white space. -/
theorem exists_parts_of_fillsRow {l : LogicalLine} (hl : ofTokens? rows run = some l)
    (single : l.isSingleRow) (laid : Laid rows p (run.filter Token.isSolid) q)
    (above : p.row < l.firstRow) (fills : FillsRow rows run l.firstRow) :
    ∃ first rest x part tail, run.filter Token.isContent = first :: rest ∧
      l.IsOf rows first rest ∧ OnRow l.firstRow (first :: rest) ∧
      rows.Holds x first.start ∧ rows.Holds (x ++ part) (stopOf first rest) ∧
      (∀ c ∈ x, Lexeme.isGap c) ∧ part.IsFirm ∧ Text.isAllBlank tail ∧
      x ++ part ++ l.comment.getD [] ++ tail = rows.row l.firstRow := by
  obtain ⟨first, rest, content, of⟩ := exists_of_ofTokens? hl
  have ordered := content ▸ laid.ordered_content
  have on := onRow_of_isSingleRow of single ordered
  obtain ⟨x, held, gaps⟩ := opens_of_laid content fills.commentsLast laid (of.firstRow ▸ above)
  have firm : ∀ t ∈ first :: rest, t.text.IsFirm := by
    intro t ht
    obtain ⟨mem, content⟩ := List.mem_filter.mp (content ▸ ht)
    exact fills.firm t mem content
  obtain ⟨part, holds, firmPart⟩ := exists_part ordered on held firm
  have nonempty : run.filter Token.isContent ≠ [] := by simp [content]
  obtain ⟨pre, b, post, rfl, contentb, bare⟩ := exists_last_content nonempty
  have lastb : (first :: rest).getLast? = some b := by
    have none : post.filter Token.isContent = [] :=
      List.filter_eq_nil_iff.mpr fun t ht => by simp [bare t ht]
    rw [← content, List.filter_append, List.filter_cons_of_pos contentb, none,
      List.getLast?_concat]
  have stop : stopOf first rest = b.stop := by
    rw [stopOf, ← Option.some.inj ((List.getLast?_eq_some_getLast _).symm.trans lastb)]
  have onb := on b (List.mem_of_getLast? lastb)
  have onpre : ∀ t ∈ pre, t.isContent → t.stop.row = l.firstRow := fun t ht hc =>
    (on t (content ▸ List.mem_filter.mpr ⟨List.mem_append_left _ ht, hc⟩)).2
  obtain ⟨tail, blank, whole⟩ := exists_comment hl fills contentb onpre onb.1 onb.2 bare laid
    (stop ▸ holds)
  exact ⟨first, rest, x, part, tail, content, of, on, held, holds, gaps, firmPart, blank, whole⟩

/-- What is written for a statement that fills its row and has been left as it is. -/
theorem written_of_fillsRow {l : LogicalLine} {fixedRows : Array Text} (k : Nat)
    (hl : ofTokens? rows run = some l) (single : l.isSingleRow)
    (laid : Laid rows p (run.filter Token.isSolid) q) (above : p.row < l.firstRow)
    (fills : FillsRow rows run l.firstRow)
    (same : fixedRows[l.firstRow - 1]?.getD [] = rows.row l.firstRow) :
    l.written l.text k fixedRows =
      List.replicate k '\n' ++ Text.tidied (rows.row l.firstRow) := by
  obtain ⟨w, literals, masked, ⟨_, b, hf, hb, written⟩, isLiteral, clear⟩ :=
    exists_weave hl single laid
  have restored : restore? l.text l.literals = some w.written := by
    rw [← masked, ← literals]
    exact Weave.restore?_masked ((Weave.inPlace_iff_isClear isLiteral).mpr
      (clear fills.commentsLast))
  obtain ⟨first, rest, x, part, tail, content, of, on, held, holds, gaps, firm, blank, whole⟩ :=
    exists_parts_of_fillsRow hl single laid above fills
  rw [content] at hf hb
  obtain rfl := Option.some.inj hf
  have stop : stopOf first rest = b.stop := by
    rw [stopOf, ← Option.some.inj ((List.getLast?_eq_some_getLast _).symm.trans hb)]
  have onf := on first (List.mem_cons_self ..)
  have onb := on b (List.mem_of_getLast? hb)
  rw [stop] at holds
  have written : w.written = part := by
    rw [written, ← onf.1, held.slice_eq holds (onf.1.trans onb.2.symm)]
    have := Text.trimEnd_append_of_last firm.last []
    rwa [List.append_nil, show Text.trimEnd [] = [] from rfl, List.append_nil] at this
  have lead : (rows.row l.firstRow).takeWhile Text.isBlank = x := by
    obtain ⟨c, head, hc⟩ := firm.first
    obtain ⟨more, rfl⟩ := List.head?_eq_some_iff.mp head
    rw [← whole, List.append_assoc, List.append_assoc, List.takeWhile_append_of_pos
      fun c hc => Lexeme.isBlank_of_isGap (gaps c hc), List.cons_append,
      List.takeWhile_cons_of_neg hc, List.append_nil]
  have last : ∃ c, (x ++ part).getLast? = some c ∧ ¬Text.isBlank c := by
    obtain ⟨c, last, hc⟩ := firm.last
    exact ⟨c, by rw [List.getLast?_append, last]; rfl, hc⟩
  have trimmed : Text.trimEnd (rows.row l.firstRow) =
      x ++ part ++ Text.trimEnd (l.comment.getD []) := by
    rw [← whole, Text.trimEnd_append_of_blank blank, Text.trimEnd_append_of_last last]
  simp only [LogicalLine.written, single, if_true, restored, same, lead, written, Text.tidied,
    trimmed]

end LogicalLine

end StyleGuide
