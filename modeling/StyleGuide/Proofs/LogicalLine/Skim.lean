import StyleGuide.Proofs.Lexeme.BlankEnd
import StyleGuide.Proofs.Literals
import StyleGuide.Proofs.LogicalLine.OwnRow
import StyleGuide.Proofs.Rule.Endings

/-! # Skimming a mended statement

Skimming goes over the literals of a statement and counts the brackets between them, which are those
of its masked form. So a mended statement on one row leaves open what it did before, and its literals
end where they did.
-/

namespace StyleGuide

open Lexeme

/-- Outside of literals, only brackets count where nothing frames anything. -/
theorem skim_unframed {front : Option Nat} {x : Text} (unframed : ∀ c ∈ x, ¬isFraming c)
    (start : front = none → ∀ c ∈ x.head?, ¬Text.isBlank c) (s : Text) :
    skim (front.getD 0) (x ++ s) = (brackets? front x).bind fun behind => skim (behind.getD 0) s := by
  induction x generalizing front with
  | nil => rfl
  | cons c x ih =>
      obtain ⟨hc, unframed⟩ := List.forall_mem_cons.mp unframed
      have next : bracketsBehind? front c = (depthAfter? [c] (front.getD 0)).map some := by
        refine if_neg ?_
        rintro (⟨none, blank⟩ | ⟨frames, -⟩)
        · exact start none c rfl blank
        · exact hc frames
      rw [List.cons_append, skim_cons hc, brackets?_cons, next]
      cases depthAfter? [c] (front.getD 0) with
      | none => rfl
      | some d => exact @ih (some d) unframed fun none => absurd none (by simp)

theorem IsLiteral.brackets?_mask {literal : Text} (h : IsLiteral literal) (front : Option Nat) :
    brackets? front (mask literal) = some (some (front.getD 0)) := by
  obtain ⟨m, c, eq, firm, quote⟩ := exists_mask_eq h
  refine brackets?_of_plain (by simp [eq]) (List.all_eq_true.mpr fun d hd => ?_) front
  rw [eq, List.mem_append, List.mem_singleton] at hd
  rcases hd with hd | rfl
  · exact isPlain_of_isFirm (firm d hd)
  · exact isPlain_of_isFirm (isFirm_of_isQuote quote)

namespace Weave

/-- Each literal is read as one, where the text `s` stands behind the weave. -/
def Reads (s : Text) : Weave → Prop
  | plain _ => True
  | strand _ l rest =>
    literal? (l ++ (rest.written ++ s)) = some (.closed l.length) ∧ rest.Reads s

/-- Between the literals no character frames anything. -/
def IsUnframed : Weave → Prop
  | plain text => ∀ c ∈ text, ¬isFraming c
  | strand gap _ rest => (∀ c ∈ gap, ¬isFraming c) ∧ rest.IsUnframed

variable {w w' : Weave} {s s' x : Text} {front behind : Option Nat}

/-- Skimming counts the brackets of the masked form. -/
theorem skim_written (reads : w.Reads s) (literal : ∀ l ∈ w.literals, IsLiteral l)
    (unframed : w.IsUnframed) (start : front = none → ∀ c ∈ w.masked.head?, ¬Text.isBlank c) :
    skim (front.getD 0) (w.written ++ s) =
      (brackets? front w.masked).bind fun behind => skim (behind.getD 0) s := by
  induction w generalizing front with
  | plain text => exact skim_unframed unframed start s
  | strand gap l rest ih =>
      obtain ⟨read, reads⟩ := reads
      obtain ⟨hl, literal⟩ := List.forall_mem_cons.mp literal
      have first : front = none → ∀ c ∈ gap.head?, ¬Text.isBlank c := by
        intro none c hc
        refine start none c ?_
        rw [masked, List.append_assoc, List.head?_append, Option.mem_def.mp hc]
        rfl
      rw [written, masked, List.append_assoc, List.append_assoc, List.append_assoc,
        skim_unframed unframed.1 first, brackets?_append, Option.bind_assoc]
      congr 1
      funext between
      rw [skim_of_literal? read, List.drop_left, brackets?_append, hl.brackets?_mask,
        Option.bind_some]
      exact @ih (some _) reads literal unframed.2 fun none => absurd none (by simp)

/-- Where the masked form can be read, nothing but quote marks frames anything. -/
theorem isUnframed_of_brackets (h : brackets? front w.masked = some behind)
    (free : ∀ n ∈ w.quotes, n = 0) : w.IsUnframed := by
  have unframed {text : Text} (count : text.countP isQuote = 0)
      (quoted : ∀ c ∈ text, isFraming c → isQuote c) : ∀ c ∈ text, ¬isFraming c :=
    fun c hc frames => List.countP_eq_zero.mp count c hc (quoted c hc frames)
  have quoted := isQuote_of_isFraming h
  clear h
  induction w with
  | plain text => exact unframed (free _ (List.mem_singleton_self _)) quoted
  | strand gap literal rest ih =>
      obtain ⟨here, free⟩ := List.forall_mem_cons.mp free
      simp only [masked, List.forall_mem_append] at quoted
      exact ⟨unframed here quoted.1.1, ih free quoted.2⟩

/-- A literal is read as before if it touches what follows only where it did before. -/
theorem Reads.of_apart (h : w.Reads s) (literals : w'.literals = w.literals)
    (apart : w.StaysApart w') (free : ∀ n ∈ w'.quotes, n = 0)
    (stop : ∀ c ∈ s'.head?, isQuote c → s.head? = some c) : w'.Reads s' := by
  have unquoted {text : Text} (count : text.countP isQuote = 0) {c : Char} (hc : c ∈ text.head?) :
      ¬isQuote c := List.countP_eq_zero.mp count c (List.mem_of_mem_head? hc)
  induction w generalizing w' with
  | plain text =>
      cases w' with
      | plain => trivial
      | strand => cases literals
  | strand gap l rest ih =>
      cases w' with
      | plain => cases literals
      | strand gap' l' rest' =>
          obtain ⟨rfl, later⟩ := List.cons.inj literals
          obtain ⟨-, free⟩ := List.forall_mem_cons.mp free
          have apart : rest.StaysApart rest' := fun i => apart (i + 1)
          refine ⟨literal?_append h.1 fun c hc quote => ?_, ih h.2 later apart free⟩
          -- a quote mark behind the literal opens the next one
          cases rest' with
          | plain text' =>
              cases rest with
              | strand => cases later
              | plain text =>
                  cases text' with
                  | cons d text' =>
                      exact absurd quote (unquoted (free _ (List.mem_singleton_self _)) hc)
                  | nil =>
                      obtain rfl : text = [] := Option.some.inj (apart 0 rfl)
                      exact stop c hc quote
          | strand gap' l' rest' =>
              cases rest with
              | plain => cases later
              | strand gap l rest =>
                  obtain ⟨rfl, -⟩ := List.cons.inj later
                  cases gap' with
                  | cons d gap' => exact absurd quote (unquoted (free _ (List.mem_cons_self ..)) hc)
                  | nil =>
                      obtain rfl : gap = [] := Option.some.inj (apart 0 rfl)
                      have ne : l' ≠ [] := by
                        rintro rfl
                        exact absurd (isLiteral_of_literal? h.2.1).2.1 (by simp)
                      rwa [written, List.nil_append, List.append_assoc,
                        List.head?_append_of_ne_nil _ ne] at hc ⊢

@[simp] theorem reads_prepend : (w.prepend x).Reads s ↔ w.Reads s := by
  cases w <;> rfl

theorem isUnframed_prepend (hx : ∀ c ∈ x, ¬isFraming c) (h : w.IsUnframed) :
    (w.prepend x).IsUnframed := by
  cases w with
  | plain => exact List.forall_mem_append.mpr ⟨hx, h⟩
  | strand => exact ⟨List.forall_mem_append.mpr ⟨hx, h.1⟩, h.2⟩

theorem trimEnd_eq_self (h : w.trimEnd.written = w.written) : w.trimEnd = w := by
  induction w with
  | plain => exact congrArg plain h
  | strand gap literal rest ih => rw [trimEnd, ih (List.append_cancel_left h)]

theorem trimEnd_eq_self_of_masked (h : w.trimEnd.masked = w.masked) : w.trimEnd = w := by
  induction w with
  | plain => exact congrArg plain h
  | strand gap literal rest ih => rw [trimEnd, ih (List.append_cancel_left h)]

/-- A statement begins with a character that frames no more than a literal. -/
theorem exists_head_written {d : Nat} (h : brackets? none w.masked = some (some d))
    (literal : ∀ l ∈ w.literals, IsLiteral l) :
    ∃ c rest, w.written = c :: rest ∧ ¬Text.isBlank c ∧ (isFraming c → isQuote c) := by
  have first {c : Char} {text : Text} (read : brackets? none (c :: text) = some (some d)) :
      ¬Text.isBlank c ∧ (isFraming c → isQuote c) := by
    obtain ⟨_, first, -⟩ := Option.bind_eq_some_iff.mp read
    obtain ⟨blank, framing, -⟩ := bracketsBehind?_eq_some first
    exact ⟨blank rfl, framing⟩
  cases w with
  | plain text =>
      cases text with
      | nil => cases h
      | cons c text => exact ⟨c, text, rfl, first h⟩
  | strand gap l rest =>
      cases gap with
      | cons c gap => exact ⟨c, _, rfl, first h⟩
      | nil =>
          obtain ⟨c, more, rfl, firm⟩ := (literal l (List.mem_cons_self ..)).isFirm_head
          have plain := isPlain_of_isFirm firm
          simp only [isPlain, Bool.and_eq_true, Bool.or_eq_true, Bool.not_eq_true'] at plain
          refine ⟨c, _, rfl, by simp [plain.1.1], fun frames => ?_⟩
          exact plain.1.2.resolve_left (by simp [frames])

theorem subset_written : ∀ l ∈ w.literals, l ⊆ w.written := by
  induction w with
  | plain => exact nofun
  | strand gap l rest ih =>
      refine List.forall_mem_cons.mpr ⟨fun c hc => ?_, fun m hm c hc => ?_⟩
      · exact List.mem_append_left _ (List.mem_append_right _ hc)
      · exact List.mem_append_right _ (ih m hm hc)

theorem notMem_newline_written (unframed : w.IsUnframed) (h : ∀ l ∈ w.literals, '\n' ∉ l) :
    '\n' ∉ w.written := by
  have other {text : Text} (unframed : ∀ c ∈ text, ¬isFraming c) : '\n' ∉ text :=
    fun mem => unframed _ mem (by decide)
  induction w with
  | plain => exact other unframed
  | strand gap l rest ih =>
      obtain ⟨here, later⟩ := List.forall_mem_cons.mp h
      rw [written, List.mem_append, List.mem_append, not_or, not_or]
      exact ⟨⟨other unframed.1, here⟩, ih unframed.2 later⟩

theorem not_isBlank_head_masked (h : ∀ c ∈ w.written.head?, ¬Text.isBlank c)
    (literal : ∀ l ∈ w.literals, IsLiteral l) : ∀ c ∈ w.masked.head?, ¬Text.isBlank c := by
  cases w with
  | plain => exact h
  | strand gap l rest =>
      cases gap with
      | cons c gap => exact h
      | nil =>
          obtain ⟨m, d, eq, firm, quote⟩ := exists_mask_eq (literal l (List.mem_cons_self ..))
          intro c hc blank
          refine not_isFirm_of_isBlank blank ?_
          rw [masked, eq] at hc
          cases m with
          | nil =>
              obtain rfl := Option.some.inj hc
              exact isFirm_of_isQuote quote
          | cons e m =>
              obtain rfl := Option.some.inj hc
              exact firm e (List.mem_cons_self ..)

theorem masked_ne_nil (h : w.written ≠ []) (literal : ∀ l ∈ w.literals, IsLiteral l) :
    w.masked ≠ [] := by
  cases w with
  | plain => exact h
  | strand gap l rest =>
      obtain ⟨m, c, eq, -⟩ := exists_mask_eq (literal l (List.mem_cons_self ..))
      simp [masked, eq]

end Weave

namespace Token

variable {rows : Rows} {t : Token} {w : Weave} {gap x s : Text} {n : Nat}

theorem reads_onto (set : t.IsSet rows) (on : t.start.row = n ∧ t.stop.row = n)
    (held : rows.Holds x t.start) (whole : x ++ t.text ++ (w.written ++ s) = rows.row n)
    (reads : w.Reads s) : (t.onto gap w).Reads s := by
  rw [onto]
  split
  · next string =>
      cases set with
      | acrossRows _ _ across => omega
      | onRow start _ _ _ literal =>
          obtain rfl := start.unique held
          obtain ⟨behind, row, read⟩ := literal string
          rw [on.1, ← whole] at row
          obtain rfl := List.append_cancel_left row
          exact ⟨read, reads⟩
  · exact Weave.reads_prepend.mpr reads

theorem isUnframed_onto (hg : ∀ c ∈ gap, ¬isFraming c) (sober : t.isSober) (h : w.IsUnframed) :
    (t.onto gap w).IsUnframed := by
  rw [onto]
  split
  · exact ⟨hg, h⟩
  · next other =>
      refine Weave.isUnframed_prepend (List.forall_mem_append.mpr ⟨hg, fun c hc => ?_⟩) h
      simp only [isSober, Bool.or_eq_true, beq_iff_eq, other, false_or, List.all_eq_true] at sober
      simpa using (Bool.and_eq_true_iff.mp (sober c hc)).1

end Token

namespace LogicalLine

variable {rows : Rows} {n : Nat} {t first : Token} {ts rest run : List Token} {p q : Position}
  {before s x : Text}

/-- The literals of a statement are read on its row. -/
theorem reads_weaveBehind (ordered : Ordered rows t.stop ts) (on : OnRow n (t :: ts))
    (held : rows.Holds before t.stop)
    (whole : before ++ ((weaveBehind rows t ts).written ++ s) = rows.row n) :
    (weaveBehind rows t ts).Reads s := by
  induction ts generalizing t before with
  | nil => trivial
  | cons u us ih =>
      cases ordered with
      | cons between set rest =>
          have ht := on t (by simp)
          have hu := on u (by simp)
          cases between with
          | below below => omega
          | @behind _ part hp hq row =>
              obtain rfl := hp.unique held
              have gap_eq : gap rows t u = part := by
                rw [gap, if_pos row]
                exact held.slice_eq hq row
              rw [weaveBehind, Token.written_onto, gap_eq, List.append_assoc, List.append_assoc,
                ← List.append_assoc, ← List.append_assoc] at whole
              refine Token.reads_onto set hu hq whole ?_
              cases set with
              | acrossRows _ _ across => omega
              | onRow start stop =>
                  obtain rfl := start.unique hq
                  exact ih rest (fun v hv => on v (List.mem_cons_of_mem _ hv)) stop whole

theorem reads_weave (ordered : Ordered rows p (first :: rest)) (on : OnRow n (first :: rest))
    (held : rows.Holds x first.start)
    (whole : x ++ ((weave rows (first :: rest)).written ++ s) = rows.row n) :
    (weave rows (first :: rest)).Reads s := by
  cases ordered with
  | cons _ set ordered =>
      have onf := on first (by simp)
      rw [weave, Token.written_onto, List.nil_append, List.append_assoc, ← List.append_assoc] at whole
      refine Token.reads_onto set onf held whole ?_
      cases set with
      | acrossRows _ _ across => omega
      | onRow start stop =>
          obtain rfl := start.unique held
          exact reads_weaveBehind ordered on stop whole

theorem isUnframed_weaveBehind (laid : Laid rows t.stop ts q) (on : OnRow n (t :: ts))
    (sober : ∀ u ∈ ts, u.isSober) : (weaveBehind rows t ts).IsUnframed := by
  induction ts generalizing t with
  | nil => exact nofun
  | cons u us ih =>
      have ht := on t (by simp)
      have hu := on u (by simp)
      obtain ⟨here, sober⟩ := List.forall_mem_cons.mp sober
      cases laid with
      | cons apart _ rest =>
          refine Token.isUnframed_onto ?_ here
            (ih rest (fun v hv => on v (List.mem_cons_of_mem _ hv)) sober)
          cases apart with
          | below below => omega
          | behind hp hq row hg =>
              rw [gap, if_pos row, hp.slice_eq hq row]
              exact fun c hc => (not_isFraming_of_all (by decide) (hg c hc)).1

/-- In a statement of sober tokens, only literals are framed. -/
theorem isUnframed_weave (laid : Laid rows p ts q) (on : OnRow n ts) (sober : ∀ u ∈ ts, u.isSober) :
    (weave rows ts).IsUnframed := by
  cases laid with
  | nil => exact nofun
  | cons _ _ rest =>
      obtain ⟨here, sober⟩ := List.forall_mem_cons.mp sober
      exact Token.isUnframed_onto nofun here (isUnframed_weaveBehind rest on sober)

end LogicalLine

namespace Pass

variable {p : Pass} {s : CheckState} {line : LogicalLine} {run : List Token} {q r : Position}

/-- The rules keep the brackets of a statement. -/
theorem keepsBrackets_mend : KeepsBrackets line.text (p.mend s line).text :=
  mend_induction (P := KeepsBrackets line.text) (.refl _)
    fun _ _ _ _ _ fixed h => h.trans (StatementRule.keepsBrackets_of_fix fixed)

/-- The rules leave no white space at the end of a statement. -/
theorem trimEnd_mend {d : Option Nat} (read : brackets? none line.text = some d)
    (trimmed : Text.trimEnd line.text = line.text) :
    Text.trimEnd (p.mend s line).text = (p.mend s line).text := by
  refine endsFirm_true_iff.mp ?_
  refine (mend_induction (P := fun text => brackets? none text = some d ∧ endsFirm true text)
    ⟨read, endsFirm_true_iff.mpr trimmed⟩ fun _ _ ctx _ _ fixed h => ?_).2
  have only : '\n' ∉ ctx.text := fun mem =>
    absurd (isQuote_of_isFraming h.1 '\n' mem (by decide)) (by decide)
  exact ⟨StatementRule.keepsBrackets_of_fix fixed none d h.1,
    StatementRule.keepsEnd_of_fix only fixed true h.2⟩

/-- A statement that fills its row can be skimmed as far when it has been mended. -/
theorem exists_restored (hl : LogicalLine.ofTokens? p.rows run = some line)
    (single : line.isSingleRow) (laid : Laid p.rows q (run.filter Token.isSolid) r)
    (above : q.row < line.firstRow) (fills : FillsRow p.rows run line.firstRow)
    (sober : ∀ t ∈ run, t.isContent → t.isSober)
    (skimmed : skim 0 (p.rows.row line.firstRow) = some .idle)
    (only : EndsAtNewline (p.rows.row line.firstRow)) :
    ∃ restored, restore? (p.mend s line).text line.literals = some restored ∧
      (∃ c rest, restored = c :: rest ∧ ¬Text.isBlank c ∧ (isFraming c → isQuote c)) ∧
      '\n' ∉ restored ++ Text.trimEnd (line.comment.getD []) ∧
      skim 0 (restored ++ (Text.trimEnd (line.comment.getD []) ++ ['\n'])) = some .idle ∧
      Text.trimEnd restored = restored := by
  obtain ⟨first, rest, x, part, tail, content, of, on, held, holds, gaps, firm, blank, whole⟩ :=
    LogicalLine.exists_parts_of_fillsRow hl single laid above fills
  have ordered := content ▸ laid.ordered_content
  have isLiteral := LogicalLine.isLiteral_of_mem_literals_weave ordered on
  obtain ⟨_, laid⟩ := laid.filter_isContent (fun t ht => (List.mem_filter.mp ht).2)
    (fills.commentsLast.sublist List.filter_sublist)
  rw [Laid.filter_isSolid_isContent, content] at laid
  have inside : ∀ t ∈ first :: rest, t ∈ run ∧ t.isContent :=
    fun t ht => List.mem_filter.mp (content ▸ ht)
  have written : (LogicalLine.weave p.rows (first :: rest)).written = part := by
    have onf := on first (List.mem_cons_self ..)
    have onb := on _ (List.getLast_mem (l := first :: rest) (by simp))
    rw [← LogicalLine.slice_eq_written ordered on, held.slice_eq holds (onf.1.trans onb.2.symm)]
  have unframed := LogicalLine.isUnframed_weave laid on
    fun t ht => sober t (inside t ht).1 (inside t ht).2
  have free := LogicalLine.quotes_weave laid on fun t ht => (inside t ht).2
  have reads := LogicalLine.reads_weave (s := line.comment.getD [] ++ tail) ordered on held
    (by rw [written, ← whole]; simp only [List.append_assoc])
  have literals : (LogicalLine.weave p.rows (first :: rest)).literals = line.literals := by
    rw [LogicalLine.literals_weave, of.literals]
  have text : line.text = Text.trimEnd (LogicalLine.weave p.rows (first :: rest)).masked := by
    rw [of.text, LogicalLine.masked_weave]
  generalize LogicalLine.weave p.rows (first :: rest) = w at *
  have trimmed : w.trimEnd = w := by
    refine Weave.trimEnd_eq_self ?_
    rw [Weave.written_trimEnd isLiteral, written]
    have := Text.trimEnd_append_of_last firm.last []
    rwa [List.append_nil, show Text.trimEnd [] = [] from rfl, List.append_nil] at this
  have masked : w.masked = line.text := by rw [text, ← Weave.masked_trimEnd isLiteral, trimmed]
  have filled : w.written ≠ [] ∧ ∀ c ∈ w.written.head?, ¬Text.isBlank c := by
    obtain ⟨c, head, hc⟩ := firm.first
    obtain ⟨more, rfl⟩ := List.head?_eq_some_iff.mp head
    rw [written]
    exact ⟨List.cons_ne_nil c more, fun d hd => Option.some.inj hd ▸ hc⟩
  obtain ⟨behind, read, idle⟩ : ∃ behind, brackets? none w.masked = some behind ∧
      skim (behind.getD 0) (line.comment.getD [] ++ tail) = some .idle := by
    rw [← whole, List.append_assoc, List.append_assoc, skim_gap gaps, ← written] at skimmed
    rw [← Option.bind_eq_some_iff, ← skimmed]
    exact (Weave.skim_written reads isLiteral unframed
      fun _ => Weave.not_isBlank_head_masked filled.2 isLiteral).symm
  obtain ⟨d, rfl⟩ := exists_of_brackets? read (Weave.masked_ne_nil filled.1 isLiteral)
  obtain ⟨w', masked', literals', quotes', apart, -⟩ :=
    exists_weave_mend (p := p) (s := s) isLiteral masked
  have read' : brackets? none w'.masked = some (some d) := by
    rw [masked']
    exact keepsBrackets_mend none _ (masked ▸ read)
  have isLiteral' : ∀ l ∈ w'.literals, IsLiteral l := literals' ▸ isLiteral
  have free' : ∀ n ∈ w'.quotes, n = 0 := quotes' ▸ free
  have comment : Text.trimEnd (line.comment.getD []) ++
      (line.comment.getD []).rtakeWhile Text.isBlank = line.comment.getD [] :=
    List.rdropWhile_append_rtakeWhile
  generalize line.comment.getD [] = behind at *
  have head := Weave.exists_head_written read' isLiteral'
  have unframed' := Weave.isUnframed_of_brackets read' free'
  refine ⟨w'.written, ?_, head, ?_, ?_, ?_⟩
  · rw [← literals, ← literals', ← masked']
    exact Weave.restore?_masked ((Weave.inPlace_iff_isClear isLiteral').mpr
      (Weave.isClear_of_quotes isLiteral' free'))
  · rw [List.mem_append, not_or]
    constructor
    · have single : '\n' ∉ part := by
        rw [List.append_assoc] at whole
        refine EndsAtNewline.notMem (whole ▸ only) fun newline => ?_
        obtain ⟨c, last, hc⟩ := firm.last
        obtain rfl := Option.some.inj (last.symm.trans newline)
        exact hc (by decide)
      refine Weave.notMem_newline_written unframed' fun l hl mem => ?_
      rw [literals'] at hl
      exact single (written ▸ Weave.subset_written l hl mem)
    · rw [← comment, ← List.append_assoc, List.append_assoc _ _ tail] at whole
      exact EndsAtNewline.notMem (whole ▸ only) (Text.getLast?_dropEndWhile_ne (by decide) behind)
  · have reads' : w'.Reads (Text.trimEnd behind ++ ['\n']) := by
      refine reads.of_apart literals' apart free' fun c hc quote => ?_
      rw [← comment, List.append_assoc]
      cases kept : Text.trimEnd behind with
      | nil =>
          rw [kept] at hc
          obtain rfl := Option.some.inj hc
          exact absurd quote (by decide)
      | cons d kept' =>
          rw [kept] at hc
          exact hc
    obtain ⟨c, more, eq, hc, -⟩ := head
    have skims := @Weave.skim_written _ _ none reads' isLiteral' unframed' fun _ =>
      Weave.not_isBlank_head_masked (by simpa [eq] using hc) isLiteral'
    rw [read', Option.bind_some] at skims
    have blanks : ∀ c ∈ behind.rtakeWhile Text.isBlank ++ tail, Text.isBlank c :=
      List.forall_mem_append.mpr
        ⟨fun c hc => List.mem_rtakeWhile_imp hc, List.all_eq_true.mp blank⟩
    rw [← comment, List.append_assoc] at idle
    exact skims.trans (skim_of_blank_end idle blanks (Text.getLast?_dropEndWhile_ne (by decide) behind))
  · have same : w'.trimEnd = w' := by
      refine Weave.trimEnd_eq_self_of_masked ?_
      rw [Weave.masked_trimEnd isLiteral', masked']
      refine trimEnd_mend (masked ▸ read) ?_
      rw [← masked, ← Weave.masked_trimEnd isLiteral, trimmed]
    rw [← Weave.written_trimEnd isLiteral', same]

end Pass

end StyleGuide
