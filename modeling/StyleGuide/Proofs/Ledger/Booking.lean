import StyleGuide.Proofs.Checker.Step
import StyleGuide.Proofs.Ledger.Entry

/-! # How a mended source is put together

Behind each token, what has been written and what waits to be written are entries for the runs
that have ended. A comment that waits for the end of its row is one that begins the current run.
-/

namespace StyleGuide

open Pass

/-- A run whose first token is a comment only where it is a comment row. -/
inductive IsTidy : List Token → Prop where
  | blank {t : Token} (kind : t.kind = .rowBreak) : IsTidy [t]
  | comment {t u : Token} (kind : t.kind = .comment) (ends : u.kind = .rowBreak) : IsTidy [t, u]
  | statement {run : List Token} (first : ∀ t ∈ run.head?, t.kind ≠ .comment)
      (last : ∃ t, run.getLast? = some t ∧ t.kind ≠ .rowBreak) : IsTidy run

theorem IsTidy.eq_of_rowBreak {current : List Token} {t : Token} (h : IsTidy (current ++ [t]))
    (kind : t.kind = .rowBreak) : current = [] ∨ ∃ u, current = [u] ∧ u.kind = .comment := by
  generalize hr : current ++ [t] = run at h
  cases h with
  | @blank u =>
      have parts : current = [] ∧ t = u := by simpa using List.append_eq_singleton_iff.mp hr
      exact .inl parts.1
  | @comment u v comment =>
      cases current with
      | nil => simp at hr
      | cons w ws =>
          simp only [List.cons_append, List.cons.injEq] at hr
          obtain ⟨rfl, hr⟩ := hr
          have parts : ws = [] ∧ t = v := by simpa using List.append_eq_singleton_iff.mp hr
          exact .inr ⟨w, by rw [parts.1], comment⟩
  | statement _ last =>
      obtain ⟨u, hu, other⟩ := last
      rw [← hr, List.getLast?_concat] at hu
      rw [← Option.some.inj hu] at other
      exact absurd kind other

theorem IsTidy.head?_ne_comment {current : List Token} {t : Token} (h : IsTidy (current ++ [t]))
    (kind : t.kind ≠ .rowBreak) : ∀ u ∈ current.head?, u.kind ≠ .comment := by
  intro u hu
  cases current with
  | nil => cases hu
  | cons v vs =>
      generalize hr : v :: vs ++ [t] = run at h
      cases h with
      | blank => simp at hr
      | comment _ ends =>
          simp only [List.cons_append, List.cons.injEq] at hr
          obtain ⟨-, hr⟩ := hr
          cases vs with
          | nil =>
              simp only [List.nil_append, List.cons.injEq] at hr
              rw [hr.1] at kind
              exact absurd ends kind
          | cons => simp at hr
      | statement first _ => exact first u (by rw [← hr]; exact hu)

/-- Where an entry comes from: a comment row, or a statement at whose end the rules were applied. -/
inductive Entry.IsFrom (p : Pass) (tokens : List Token) : Entry → Prop where
  | comment {t u : Token} {n : Nat} (run : [t, u] ∈ (Runs.of tokens).ended)
      (kind : t.kind = .comment) (ends : u.kind = .rowBreak) :
      IsFrom p tokens (.comment t.start.row n)
  | statement {seen ahead : List Token} {t : Token} {line : LogicalLine} {n : Nat}
      (whole : tokens = seen ++ t :: ahead)
      (run : (p.reach seen t).run.toList ∈ (Runs.of tokens).ended)
      (hl : LogicalLine.ofTokens? p.rows (p.reach seen t).run.toList = some line) :
      IsFrom p tokens (.statement line (p.mend (p.reach seen t) line).text n)

theorem Entry.IsFrom.of_row {p : Pass} {tokens : List Token} {row n m : Nat}
    (h : (Entry.comment row n).IsFrom p tokens) : (Entry.comment row m).IsFrom p tokens := by
  cases h with
  | comment run kind ends => exact .comment run kind ends

/-- The comment row as it waits for a statement. -/
def waiting (mended : Array Text) (entry : Nat × Nat) : Comment :=
  ⟨entry.2, Text.trimEnd (mended[entry.1 - 1]?.getD [])⟩

/-- What has been written, and what waits, is all there is of the runs that have ended. -/
structure IsBooked (p : Pass) (tokens : List Token) (ended : List (List Token)) (s : CheckState)
    (entries : List Entry) (later : List (Nat × Nat)) : Prop where
  output : s.output.toList = entries.map (Entry.written p.mendedRows)
  comments : s.comments = later.map (waiting p.mendedRows)
  rows : entries.flatMap Entry.rows ++ later.map Prod.fst = ended.flatMap (keptRows p.rows)
  lines : entries.filterMap Entry.line? = ended.filterMap (LogicalLine.ofTokens? p.rows)
  isFrom : ∀ e ∈ entries, e.IsFrom p tokens
  isFrom_later : ∀ w ∈ later, (Entry.comment w.1 w.2).IsFrom p tokens

/-- What holds behind the tokens `seen`. -/
structure Booked (p : Pass) (tokens seen : List Token) : Prop where
  run : (p.after seen).run.toList = (Runs.of seen).current
  depth : (p.after seen).depth = (Runs.of seen).depth
  track : p.OnTrack (p.after seen)
  reached : ∀ t ∈ seen, min t.stop.row p.rows.size ≤ (p.after seen).fixedRows.size
  idle : (∀ t ∈ (Runs.of seen).current.head?, t.kind ≠ .comment) → (p.after seen).pending = none
  pending : ∀ t ∈ (Runs.of seen).current.head?, t.kind = .comment →
    ∃ n, (p.after seen).pending = some (waiting p.mendedRows (t.start.row, n))
  booked : ∃ entries later, IsBooked p tokens (Runs.of seen).ended (p.after seen) entries later

/-- Other blank lines in front of the comments that wait make other entries for the same rows. -/
theorem exists_later {mended : Array Text} {later : List (Nat × Nat)} {comments : List Comment}
    (h : comments.map Comment.text = (later.map (waiting mended)).map Comment.text) :
    ∃ fitted : List (Nat × Nat), comments = fitted.map (waiting mended) ∧
      fitted.map Prod.fst = later.map Prod.fst := by
  induction later generalizing comments with
  | nil =>
      obtain rfl := List.map_eq_nil_iff.mp h
      exact ⟨[], rfl, rfl⟩
  | cons w later ih =>
      cases comments with
      | nil => cases h
      | cons c comments =>
          simp only [List.map_cons, List.cons.injEq] at h
          obtain ⟨fitted, rfl, rows⟩ := ih h.2
          refine ⟨(w.1, c.blankLines) :: fitted, ?_, by rw [List.map_cons, List.map_cons, rows]⟩
          obtain ⟨n, text⟩ := c
          obtain rfl : text = (waiting mended w).text := h.1
          rfl

section Step

variable {p : Pass} {tokens seen ahead : List Token} {t : Token}

theorem Pass.after_concat (seen : List Token) (t : Token) :
    p.after (seen ++ [t]) = p.step (p.after seen) t := by
  rw [after, List.foldl_append]
  rfl

theorem Runs.of_concat (seen : List Token) (t : Token) :
    Runs.of (seen ++ [t]) = (Runs.of seen).step t := by
  rw [of_append]
  rfl

theorem IsBooked.append {ended : List (List Token)} {s u : CheckState} {run : List Token}
    {entries : List Entry} {later : List (Nat × Nat)} (h : IsBooked p tokens ended s entries later)
    (none : keptRows p.rows run = []) (bare : LogicalLine.ofTokens? p.rows run = .none)
    (output : u.output = s.output) (comments : u.comments = s.comments) :
    IsBooked p tokens (ended ++ [run]) u entries later where
  output := by rw [output]; exact h.output
  comments := by rw [comments]; exact h.comments
  rows := by rw [List.flatMap_append, List.flatMap_singleton, none, List.append_nil]; exact h.rows
  lines := by simp [List.filterMap_append, bare, h.lines]
  isFrom := h.isFrom
  isFrom_later := h.isFrom_later

namespace Booked

/-- The rows are checked as far as the tokens reach. -/
theorem reach (h : Booked p tokens seen) (t : Token) :
    p.OnTrack (p.reach seen t) ∧
      ∀ u ∈ seen ++ [t], min u.stop.row p.rows.size ≤ (p.reach seen t).fixedRows.size := by
  obtain ⟨track, through, more⟩ := h.track.checkRowsThrough t.stop.row
  refine ⟨track.of_same ⟨rfl, rfl⟩, fun u hu => ?_⟩
  rcases List.mem_append.mp hu with hu | hu
  · exact Nat.le_trans (h.reached u hu) more
  · rw [List.mem_singleton.mp hu]
    exact through

theorem run_reach (h : Booked p tokens seen) (t : Token) :
    (p.reach seen t).run.toList = (Runs.of seen).current ++ [t] := by
  rw [Pass.reach, run_receive, Array.toList_push, h.run]

/-- The row of a comment is among those that have been checked. -/
theorem getD_fixedRows (h : Booked p tokens seen) (level : t.start.row = t.stop.row)
    (pos : 0 < t.start.row) (le : t.start.row ≤ p.rows.size) :
    (p.reach seen t).fixedRows[t.start.row - 1]?.getD t.line =
      p.mendedRows[t.start.row - 1]?.getD [] := by
  obtain ⟨track, reached⟩ := h.reach t
  have := reached t (by simp)
  have lt : t.start.row - 1 < (p.reach seen t).fixedRows.size := by omega
  obtain ⟨more, eq⟩ := track.prefix
  have same : p.mendedRows[t.start.row - 1]? =
      (p.reach seen t).fixedRows[t.start.row - 1]? := by
    rw [← Array.getElem?_toList, ← eq, List.getElem?_append_left (by simpa using lt),
      Array.getElem?_toList]
  rw [same, Array.getElem?_eq_getElem lt]
  rfl

/-- A token that ends no run. -/
theorem join (h : Booked p tokens seen) (goes : t.endsRun (Runs.of seen).depth = false)
    (comment : t.kind = .comment →
      t.start.row = t.stop.row ∧ 0 < t.start.row ∧ t.start.row ≤ p.rows.size) :
    Booked p tokens (seen ++ [t]) := by
  obtain ⟨track, reached⟩ := h.reach t
  obtain ⟨entries, later, booked⟩ := h.booked
  obtain ⟨k, n, m, step⟩ :=
    exists_step_of_not_endsRun (p := p) (s := p.after seen) (t := t) (h.depth ▸ goes)
  have runs : Runs.of (seen ++ [t]) = ⟨(Runs.of seen).ended,
      t.depthBehind (Runs.of seen).depth, (Runs.of seen).current ++ [t]⟩ := by
    rw [Runs.of_concat, Runs.step_of_not_endsRun goes]
  have first : (p.after seen).run.size = 0 ↔ (Runs.of seen).current = [] := by
    rw [← h.run, Array.size_eq_zero_iff, Array.toList_eq_nil_iff]
  rw [← Pass.reach] at step
  refine ⟨?_, ?_, ?_, ?_, ?_, ?_, entries, later, ?_⟩
  all_goals rw [after_concat, step]
  · rw [runs]
    exact h.run_reach t
  · rw [runs, h.depth]
  · exact track.of_same ⟨rfl, rfl⟩
  · exact reached
  · intro other
    simp only [runs] at other
    cases hc : (Runs.of seen).current with
    | nil =>
        have other : t.kind ≠ .comment := other t (by rw [hc]; rfl)
        rw [if_neg fun both => other both.1]
        exact h.idle (by rw [hc]; simp)
    | cons u us =>
        rw [if_neg fun both => by simp [first.mp both.2] at hc]
        refine h.idle fun v hv => other v ?_
        rw [hc] at hv ⊢
        exact hv
  · intro u hu kind
    simp only [runs] at hu
    cases hc : (Runs.of seen).current with
    | nil =>
        rw [hc] at hu
        obtain rfl := Option.some.inj hu
        rw [if_pos ⟨kind, first.mpr hc⟩]
        obtain ⟨level, pos, le⟩ := comment kind
        rw [h.getD_fixedRows level pos le]
        exact ⟨k, rfl⟩
    | cons v vs =>
        rw [if_neg fun both => by simp [first.mp both.2] at hc]
        refine h.pending u ?_ kind
        rw [hc] at hu ⊢
        exact hu
  · rw [runs]
    exact ⟨(congrArg Array.toList output_receive).trans booked.output,
      comments_receive.trans booked.comments, booked.rows, booked.lines, booked.isFrom,
        booked.isFrom_later⟩

theorem mem_ended (whole : tokens = seen ++ t :: ahead) (ends : t.endsRun (Runs.of seen).depth) :
    (Runs.of seen).current ++ [t] ∈ (Runs.of tokens).ended := by
  have split : tokens = seen ++ [t] ++ ahead := by simp [whole]
  rw [split]
  refine (Runs.ended_prefix _ _).subset ?_
  rw [Runs.of_concat, Runs.step_of_endsRun ends]
  simp

/-- The end of a row between statements. -/
theorem endRow (h : Booked p tokens seen) (fix : p.config.fix)
    (whole : tokens = seen ++ t :: ahead) (kind : t.kind = .rowBreak)
    (closed : (Runs.of seen).depth = 0) (tidy : IsTidy ((Runs.of seen).current ++ [t])) :
    Booked p tokens (seen ++ [t]) := by
  obtain ⟨track, reached⟩ := h.reach t
  obtain ⟨entries, later, booked⟩ := h.booked
  obtain ⟨n, step⟩ := step_of_rowBreak (p := p) (s := p.after seen) kind (h.depth.trans closed)
  have ends : t.endsRun (Runs.of seen).depth := by simp [Token.endsRun, kind, closed]
  have runs : Runs.of (seen ++ [t]) = ⟨(Runs.of seen).ended ++ [(Runs.of seen).current ++ [t]],
      (Runs.of seen).depth, []⟩ := by
    rw [Runs.of_concat, Runs.step_of_endsRun ends]
  rw [← Pass.reach] at step
  have same : IsBooked p tokens (Runs.of seen).ended (p.reach seen t) entries later :=
    ⟨(congrArg Array.toList output_receive).trans booked.output,
      comments_receive.trans booked.comments, booked.rows, booked.lines, booked.isFrom,
        booked.isFrom_later⟩
  -- It is enough to know what becomes of the comment that waits for the end of its row.
  suffices flushed : ∃ later', (p.flushComment (p.reach seen t)).pending = none ∧
      IsBooked p tokens (Runs.of (seen ++ [t])).ended (p.flushComment (p.reach seen t))
        entries later' by
    obtain ⟨later', none, booked'⟩ := flushed
    have fields : SameRows (p.flushComment (p.reach seen t)) (p.reach seen t) ∧
        (p.flushComment (p.reach seen t)).depth = (p.reach seen t).depth := by
      rw [flushComment]
      split <;> exact ⟨⟨rfl, rfl⟩, rfl⟩
    refine ⟨?_, ?_, ?_, ?_, ?_, ?_, entries, later', ?_⟩
    all_goals rw [after_concat, step]
    · rw [runs]
    · rw [runs]
      exact fields.2.trans (depth_receive.trans h.depth)
    · exact (track.of_same fields.1).of_same ⟨rfl, rfl⟩
    · rw [fields.1.fixedRows]
      exact reached
    · exact fun _ => none
    · simp [runs]
    · exact ⟨booked'.output, booked'.comments, booked'.rows, booked'.lines, booked'.isFrom,
        booked'.isFrom_later⟩
  rw [runs]
  rcases tidy.eq_of_rowBreak kind with none | ⟨u, only, comment⟩
  · have idle : (p.reach seen t).pending = .none :=
      pending_receive.trans (h.idle (by rw [none]; simp))
    have flush : p.flushComment (p.reach seen t) = p.reach seen t := by
      simp only [flushComment, idle]
    have bare : LogicalLine.ofTokens? p.rows [t] = .none :=
      ofTokens?_eq_none (by simp [Token.isContent, kind, Token.Kind.isLayout])
    have empty : keptRows p.rows [t] = [] := by
      rw [keptRows, bare]
      rfl
    rw [flush, none]
    exact ⟨later, idle, same.append empty bare rfl rfl⟩
  · obtain ⟨n, pending⟩ := h.pending u (by rw [only]; rfl) comment
    replace pending : (p.reach seen t).pending = _ := pending_receive.trans pending
    have flush : p.flushComment (p.reach seen t) = { p.reach seen t with
        pending := .none,
        comments := (p.reach seen t).comments ++ [waiting p.mendedRows (u.start.row, n)] } := by
      simp only [flushComment, pending, fix, if_true]
    have run : [u, t] ∈ (Runs.of tokens).ended := by
      have := mem_ended whole ends
      rwa [only] at this
    rw [flush, only]
    refine ⟨later ++ [(u.start.row, n)], rfl, same.output, ?_, ?_, ?_, same.isFrom, ?_⟩
    · simp only [same.comments, List.map_append, List.map_cons, List.map_nil]
    · rw [List.flatMap_append, List.flatMap_singleton, List.singleton_append,
        keptRows_of_comment comment kind, ← same.rows]
      simp
    · have bare : LogicalLine.ofTokens? p.rows [u, t] = .none :=
        ofTokens?_eq_none (by simp [Token.isContent, comment, kind, Token.Kind.isLayout])
      simp [List.filterMap_append, bare, same.lines]
    · intro w hw
      rcases List.mem_append.mp hw with hw | hw
      · exact same.isFrom_later w hw
      · rw [List.mem_singleton.mp hw]
        exact .comment run comment kind

/-- The end of a statement. -/
theorem endStatement (h : Booked p tokens seen) (fix : p.config.fix)
    (whole : tokens = seen ++ t :: ahead)
    (kind : t.kind = .newline ∧ (Runs.of seen).depth = 0 ∨ t.kind = .endMarker)
    (tidy : IsTidy ((Runs.of seen).current ++ [t]))
    (placed : ∀ u ∈ seen, u.isContent → 0 < u.start.row ∧ u.start.row ≤ u.stop.row) :
    Booked p tokens (seen ++ [t]) := by
  obtain ⟨track, reached⟩ := h.reach t
  obtain ⟨entries, later, booked⟩ := h.booked
  obtain ⟨n, m, step⟩ := step_of_statementEnd (p := p) (s := p.after seen) (t := t)
    (by rwa [h.depth])
  have ends : t.endsRun (Runs.of seen).depth := by
    rcases kind with ⟨kind, closed⟩ | kind <;> simp [Token.endsRun, *]
  have runs : Runs.of (seen ++ [t]) = ⟨(Runs.of seen).ended ++ [(Runs.of seen).current ++ [t]],
      (Runs.of seen).depth, []⟩ := by
    rw [Runs.of_concat, Runs.step_of_endsRun ends]
  rw [← Pass.reach] at step
  have lone : loneComment? ((Runs.of seen).current ++ [t]) = none := by
    refine loneComment?_eq_none ⟨t, by simp, ?_⟩
    rcases kind with ⟨kind, -⟩ | kind <;> simp [kind]
  have idle : (p.reach seen t).pending = none := by
    refine pending_receive.trans (h.idle (tidy.head?_ne_comment ?_))
    rcases kind with ⟨kind, -⟩ | kind <;> simp [kind]
  have same : IsBooked p tokens (Runs.of seen).ended (p.reach seen t) entries later :=
    ⟨(congrArg Array.toList output_receive).trans booked.output,
      comments_receive.trans booked.comments, booked.rows, booked.lines, booked.isFrom,
        booked.isFrom_later⟩
  -- It is enough to know what the check of the statement writes.
  suffices written : ∃ entries' later',
      SameRows (p.checkStatement (p.reach seen t)) (p.reach seen t) ∧
      (p.checkStatement (p.reach seen t)).depth = (p.reach seen t).depth ∧
      (p.checkStatement (p.reach seen t)).pending = none ∧
      IsBooked p tokens (Runs.of (seen ++ [t])).ended (p.checkStatement (p.reach seen t))
        entries' later' by
    obtain ⟨entries', later', rows, depth, none, booked'⟩ := written
    refine ⟨?_, ?_, ?_, ?_, ?_, ?_, entries', later', ?_⟩
    all_goals rw [after_concat, step]
    · rw [runs]
    · rw [runs]
      exact depth.trans (depth_receive.trans h.depth)
    · exact (track.of_same rows).of_same ⟨rfl, rfl⟩
    · rw [rows.fixedRows]
      exact reached
    · exact fun _ => none
    · simp [runs]
    · exact ⟨booked'.output, booked'.comments, booked'.rows, booked'.lines, booked'.isFrom,
        booked'.isFrom_later⟩
  rw [runs]
  cases hl : LogicalLine.ofTokens? p.rows (p.reach seen t).run.toList with
  | none =>
      rw [checkStatement_of_none hl]
      rw [h.run_reach] at hl
      have empty : keptRows p.rows ((Runs.of seen).current ++ [t]) = [] := by
        rw [keptRows, lone, hl]
      exact ⟨entries, later, ⟨rfl, rfl⟩, rfl, idle, same.append empty hl rfl rfl⟩
  | some line =>
      obtain ⟨level, findings, check⟩ := exists_checkStatement fix hl
      have run := hl
      rw [h.run_reach] at run
      have kept : keptRows p.rows ((Runs.of seen).current ++ [t]) = line.rowNumbers := by
        rw [keptRows, lone, run]
      have texts := map_text_fitted (s := p.reach seen t) (p.mend (p.reach seen t) line)
      rw [same.comments] at texts
      generalize fitted (p.reach seen t) (p.mend (p.reach seen t) line) = f at check texts
      obtain ⟨fitted, comments, fittedRows⟩ := exists_later texts
      have written : line.written (p.mend (p.reach seen t) line).text f.2
          (p.reach seen t).fixedRows =
          line.written (p.mend (p.reach seen t) line).text f.2 p.mendedRows := by
        obtain ⟨first, hf, cf, firstRow, le⟩ := LogicalLine.exists_firstRow run
        have content (u : Token) (hu : u ∈ (Runs.of seen).current ++ [t]) (hc : u.isContent) :
            u ∈ seen := by
          rcases List.mem_append.mp hu with hu | hu
          · rw [← Runs.flatten_of seen]
            exact List.mem_append_right _ hu
          · rw [List.mem_singleton.mp hu] at hc
            rcases kind with ⟨kind, -⟩ | kind <;>
              simp [Token.isContent, kind, Token.Kind.isLayout] at hc
        have := placed first (content first hf cf) cf
        refine LogicalLine.written_congr ?_ (by omega) (by omega)
        refine track.take_eq ?_
        rcases LogicalLine.exists_lastRow run with zero | ⟨last, hm, cm, lastRow⟩
        · omega
        · rw [← lastRow]
          exact reached last (List.mem_append_left _ (content last hm cm))
      rw [check]
      refine ⟨entries ++ fitted.map (fun w => .comment w.1 w.2) ++
        [.statement line (p.mend (p.reach seen t) line).text f.2], [],
        ⟨rfl, rfl⟩, rfl, idle, ?_, rfl, ?_, ?_, ?_, by simp⟩
      · simp only [Array.toList_push, Array.toList_appendList, same.output, comments, written,
          List.map_append, List.map_map, List.map_cons, List.map_nil]
        rfl
      · have rows : (fitted.map fun w => Entry.comment w.1 w.2).flatMap Entry.rows =
            later.map Prod.fst := by
          rw [← fittedRows, List.flatMap_map]
          exact (List.map_eq_flatMap ..).symm
        rw [List.flatMap_append, List.flatMap_append, rows, List.flatMap_singleton,
          List.flatMap_append, List.flatMap_singleton, kept, ← same.rows, List.map_nil,
          List.append_nil]
        rfl
      · have none : (fitted.map fun w => Entry.comment w.1 w.2).filterMap Entry.line? = [] := by
          simp [Entry.line?]
        rw [List.filterMap_append, List.filterMap_append, none, List.append_nil, same.lines,
          List.filterMap_append]
        simp [Entry.line?, run]
      · intro e he
        rcases List.mem_append.mp he with he | he
        · rcases List.mem_append.mp he with he | he
          · exact same.isFrom e he
          · obtain ⟨w, hw, rfl⟩ := List.mem_map.mp he
            have row : w.1 ∈ later.map Prod.fst := fittedRows ▸ List.mem_map_of_mem hw
            obtain ⟨v, hv, eq⟩ := List.mem_map.mp row
            rw [← eq]
            exact (same.isFrom_later v hv).of_row
        · rw [List.mem_singleton.mp he]
          refine .statement whole ?_ hl
          rw [h.run_reach]
          exact mem_ended whole ends

theorem initial : Booked p tokens [] where
  run := rfl
  depth := rfl
  track := OnTrack.initial
  reached := nofun
  idle := fun _ => rfl
  pending := nofun
  booked := ⟨[], [], rfl, rfl, rfl, rfl, nofun, nofun⟩

/-- Behind any of the tokens, all runs that have ended are booked. -/
theorem of_tidy (fix : p.config.fix) (tidy : ∀ run ∈ (Runs.of tokens).ended, IsTidy run)
    (placed : ∀ t ∈ tokens, t.isContent → 0 < t.start.row ∧ t.start.row ≤ t.stop.row)
    (comments : ∀ t ∈ tokens, t.kind = .comment →
      t.start.row = t.stop.row ∧ 0 < t.start.row ∧ t.start.row ≤ p.rows.size)
    (whole : tokens = seen ++ ahead) : Booked p tokens seen := by
  induction seen using List.reverseRecOn generalizing ahead with
  | nil => exact initial
  | append_singleton seen t ih =>
      have whole : tokens = seen ++ t :: ahead := by simpa using whole
      have h := ih whole
      have mem : t ∈ tokens := by simp [whole]
      cases ends : t.endsRun (Runs.of seen).depth with
      | false => exact h.join ends (comments t mem)
      | true =>
          have tidy := tidy _ (mem_ended whole ends)
          have placed : ∀ u ∈ seen, u.isContent → 0 < u.start.row ∧ u.start.row ≤ u.stop.row :=
            fun u hu => placed u (by simp [whole, hu])
          cases kind : t.kind with
          | rowBreak => exact h.endRow fix whole kind (by simpa [Token.endsRun, kind] using ends) tidy
          | newline =>
              exact h.endStatement fix whole
                (.inl ⟨kind, by simpa [Token.endsRun, kind] using ends⟩) tidy placed
          | endMarker => exact h.endStatement fix whole (.inr kind) tidy placed
          | name | number | operator | string | comment | indent | dedent | stray =>
              simp [Token.endsRun, kind] at ends

end Booked

end Step

end StyleGuide
