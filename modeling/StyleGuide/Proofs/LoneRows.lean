import StyleGuide.Proofs.LayoutOutline

/-! # Rows that stand alone

A row stands alone if nothing is open in front of it and it leaves nothing open. Where a source is
orderly, these are the rows that a run has for itself and that no other row shares with it.
-/

namespace StyleGuide

open Lexeme

/-- The rows that stand alone among some rows, in front of which this is open. -/
def Pause.loneRows (p : Pause) : List Text → List Text
  | [] => []
  | row :: rows =>
    if p = idle ∧ ¬opensStatement row then row :: p.loneRows rows
    else
      match p.resume? row with
      | none => []
      | some q => if p = idle ∧ q = idle then row :: q.loneRows rows else q.loneRows rows

section Walk

variable {p q : Pause} {row : Text} {lines : List Text} {widths : List Nat} {rows : Rows}
  {a b : Nat}

theorem Pause.loneRows_of_between (between : ¬opensStatement row) (lines : List Text) :
    idle.loneRows (row :: lines) = row :: idle.loneRows lines := by
  rw [loneRows, if_pos ⟨rfl, between⟩]

theorem Pause.loneRows_of_resume? (other : ¬(p = idle ∧ ¬opensStatement row))
    (resumes : p.resume? row = some q) (lines : List Text) :
    p.loneRows (row :: lines) =
      if p = idle ∧ q = idle then row :: q.loneRows lines else q.loneRows lines := by
  rw [loneRows, if_neg other, resumes]

theorem Pause.loneRows_subset (p : Pause) (lines : List Text) : p.loneRows lines ⊆ lines := by
  induction lines generalizing p with
  | nil => exact List.Subset.refl _
  | cons row lines ih =>
      by_cases between : p = idle ∧ ¬opensStatement row
      · obtain ⟨rfl, between⟩ := between
        rw [loneRows_of_between between]
        exact List.cons_subset_cons row (ih _)
      · cases resumes : p.resume? row with
        | none =>
            rw [loneRows, if_neg between, resumes]
            exact List.nil_subset _
        | some q =>
            rw [loneRows_of_resume? between resumes]
            split
            · exact List.cons_subset_cons row (ih q)
            · exact List.subset_cons_of_subset row (ih q)

/-- Behind rows that leave nothing open the others stand as they do by themselves. -/
theorem Pause.loneRows_append (outlined : p.outline? lines = some widths) (more : List Text) :
    p.loneRows (lines ++ more) = p.loneRows lines ++ idle.loneRows more := by
  induction lines generalizing p widths with
  | nil =>
      obtain ⟨rfl, -⟩ := Option.ite_none_right_eq_some.mp outlined
      rfl
  | cons row lines ih =>
      have goes {q : Pause} {widths : List Nat} (other : ¬(p = idle ∧ ¬opensStatement row))
          (resumes : p.resume? row = some q) (outlined : q.outline? lines = some widths) :
          p.loneRows (row :: lines ++ more) = p.loneRows (row :: lines) ++ idle.loneRows more := by
        rw [List.cons_append, loneRows_of_resume? other resumes, loneRows_of_resume? other resumes,
          ih outlined]
        split
        · rfl
        · rfl
      rcases outline?_cons_cases outlined with ⟨rfl, between, outlined⟩ |
        ⟨-, opens, q, widths, resumes, outlined, -⟩ | ⟨open_, q, resumes, outlined⟩
      · rw [List.cons_append, loneRows_of_between between, loneRows_of_between between, ih outlined,
          List.cons_append]
      · exact goes (fun both => both.2 opens) resumes outlined
      · exact goes (fun both => open_ both.1) resumes outlined

/-- No row of a statement over several rows stands alone. -/
theorem Passes.loneRows_append (h : Passes rows a b p) (opens : opensStatement (rows.row a))
    (several : a + 1 < b ∨ p ≠ .idle) (more : List Text) :
    Pause.idle.loneRows ((List.range' a (b - a)).map rows.row ++ more) = p.loneRows more := by
  induction h generalizing more with
  | first _ resumes =>
      have open_ := several.resolve_left (Nat.lt_irrefl _)
      rw [Nat.add_sub_cancel_left, List.range'_one, List.map_singleton, List.singleton_append,
        Pause.loneRows_of_resume? (fun other => other.2 opens) resumes,
        if_neg fun both => open_ both.2]
  | @next b p q before open_ _ resumes ih =>
      have lt := before.lt
      have split : List.range' a (b + 1 - a) = List.range' a (b - a) ++ [b] := by
        rw [show b + 1 - a = b - a + 1 by omega, List.range'_concat,
          show a + 1 * (b - a) = b by omega]
      rw [split, List.map_append, List.append_assoc, List.map_singleton, List.singleton_append,
        ih (.inr open_), Pause.loneRows_of_resume? (fun other => open_ other.1) resumes,
        if_neg fun both => open_ both.1]

/-- The row of a statement on one row stands alone. -/
theorem Passes.loneRows_of_single (h : Passes rows a (a + 1) .idle) (more : List Text) :
    Pause.idle.loneRows (rows.row a :: more) = rows.row a :: Pause.idle.loneRows more := by
  by_cases between : opensStatement (rows.row a)
  · have resumes : Pause.idle.resume? (rows.row a) = some .idle := by
      cases h with
      | first _ resumes => exact resumes
      | next before => exact absurd before.lt (Nat.lt_irrefl a)
    rw [Pause.loneRows_of_resume? (fun other => other.2 between) resumes, if_pos ⟨rfl, rfl⟩]
  · exact Pause.loneRows_of_between between more

end Walk

section Framed

variable {rows : Rows} {source : Text} {tokens run : List Token} {runs : List (List Token)}
  {line : LogicalLine} {a e n : Nat} {indents : List Nat}

/-- A run that ends between statements has one row for itself. -/
theorem Outlined.exists_of_mem (h : Outlined rows a indents runs) (hr : run ∈ runs)
    (last : ∃ t, run.getLast? = some t ∧ t.kind = .rowBreak) :
    ∃ n, rows.row n ≠ [] ∧ ¬opensStatement (rows.row n) ∧ ∀ t ∈ run, t.start.row = n := by
  have here {a : Nat} {indents : List Nat} {runs : List (List Token)}
      (h : Outlined rows a indents (run :: runs)) :
      ∃ n, rows.row n ≠ [] ∧ ¬opensStatement (rows.row n) ∧ ∀ t ∈ run, t.start.row = n := by
    obtain ⟨filled, between, bare, -⟩ := h.of_rowBreak last
    exact ⟨_, filled, between, fun t ht => (bare t ht).2⟩
  have whole := h
  induction h with
  | between _ _ _ _ rest ih | statement _ _ rest ih | newline _ rest ih =>
      rcases List.mem_cons.mp hr with rfl | hr
      · exact here whole
      · exact ih hr rest
  | last | marks =>
      obtain rfl := List.mem_singleton.mp hr
      exact here whole

/-- The rows of a statement, and those behind them. -/
theorem LogicalLine.IsFramed.loneRows_drop (framed : line.IsFramed rows) :
    ∃ front, Pause.idle.loneRows (rows.toList.drop (line.firstRow - 1)) =
        front ++ Pause.idle.loneRows (rows.toList.drop line.lastRow) ∧
      (line.isSingleRow → front = [rows.row line.firstRow]) := by
  have passes := framed.passes
  by_cases single : line.isSingleRow
  · have same : line.firstRow = line.lastRow := beq_iff_eq.mp single
    rw [← same] at passes ⊢
    refine ⟨[rows.row line.firstRow], ?_, fun _ => rfl⟩
    rw [passes.drop_eq, Nat.add_sub_cancel_left, List.range'_one, List.map_singleton,
      List.singleton_append, passes.loneRows_of_single]
    rfl
  · have several : line.firstRow ≠ line.lastRow := mt beq_iff_eq.mpr single
    have lt := passes.lt
    refine ⟨[], ?_, fun one => absurd one single⟩
    rw [passes.drop_eq, passes.loneRows_append framed.opens (.inl (by omega))]
    rfl

/-- A row that a run has for itself stands alone. -/
theorem Layout.mem_loneRows (layout : Layout rows a runs e)
    (between : ∀ run ∈ runs, (∃ t, run.getLast? = some t ∧ t.kind = .rowBreak) →
      ∃ n, rows.row n ≠ [] ∧ ¬opensStatement (rows.row n) ∧ ∀ t ∈ run, t.start.row = n)
    (framed : ∀ run ∈ runs, IsFramed rows run) :
    ∀ run ∈ runs, ∀ n, ownRows rows run = [n] →
      rows.row n ∈ Pause.idle.loneRows (rows.toList.drop (a - 1)) := by
  have own {run : List Token} {line : LogicalLine} {k : Token.Kind}
      (hl : LogicalLine.ofTokens? rows run = some line)
      (last : ∃ t, run.getLast? = some t ∧ t.kind = k) (other : k ≠ .rowBreak) {n : Nat}
      (own : ownRows rows run = [n]) : n = line.firstRow ∧ line.isSingleRow := by
    obtain ⟨t, ht, rfl⟩ := last
    rw [ownRows_of_ends ⟨t, ht, other⟩, keptRows_of_statement hl, LogicalLine.rowNumbers] at own
    have length := congrArg List.length own
    rw [List.length_range', List.length_singleton] at length
    rw [length, List.range'_one] at own
    refine ⟨(List.cons.inj own).1.symm, beq_iff_eq.mpr ?_⟩
    omega
  induction layout with
  | nil => exact List.forall_mem_nil _
  | @blank a e t runs kind row blank rest ih =>
      obtain ⟨here, between⟩ := List.forall_mem_cons.mp between
      obtain ⟨n, filled, other, on⟩ := here ⟨t, rfl, kind⟩
      obtain rfl : a = n := row.symm.trans (on t (List.mem_singleton_self t))
      rw [Rows.drop_eq_cons filled, Pause.loneRows_of_between other]
      refine List.forall_mem_cons.mpr ⟨fun n one => ?_, fun run hr n one => ?_⟩
      · rw [ownRows_of_blank kind (row ▸ blank), row] at one
        rw [(List.cons.inj one).1]
        exact List.mem_cons_self ..
      · exact List.mem_cons_of_mem _
          (ih between (fun run hr => framed run (List.mem_cons_of_mem _ hr)) run hr n one)
  | @comment a e t u runs kind ends on first rest ih =>
      obtain ⟨here, between⟩ := List.forall_mem_cons.mp between
      obtain ⟨n, filled, other, on'⟩ := here ⟨u, rfl, ends⟩
      obtain rfl : a = n := on.1.symm.trans (on' t (List.mem_cons_self ..))
      rw [Rows.drop_eq_cons filled, Pause.loneRows_of_between other]
      refine List.forall_mem_cons.mpr ⟨fun n one => ?_, fun run hr n one => ?_⟩
      · rw [ownRows_of_comment kind ends, on.1] at one
        rw [(List.cons.inj one).1]
        exact List.mem_cons_self ..
      · exact List.mem_cons_of_mem _
          (ih between (fun run hr => framed run (List.mem_cons_of_mem _ hr)) run hr n one)
  | @statement a e run line runs hl start le last rest ih =>
      obtain ⟨-, between⟩ := List.forall_mem_cons.mp between
      obtain ⟨here, framed⟩ := List.forall_mem_cons.mp framed
      obtain ⟨front, walk, single⟩ := (here.line line hl).loneRows_drop
      subst start
      rw [walk]
      refine List.forall_mem_cons.mpr ⟨fun n one => ?_, fun run hr n one => ?_⟩
      · obtain ⟨rfl, alone⟩ := own hl last (by simp) one
        exact List.mem_append_left _ (by simp [single alone])
      · exact List.mem_append_right _ (ih between framed run hr n one)
  | @last a run line hl start le last =>
      obtain ⟨front, walk, single⟩ :=
        ((framed run (List.mem_singleton_self run)).line line hl).loneRows_drop
      subst start
      rw [walk]
      refine List.forall_mem_singleton.mpr fun n one => ?_
      obtain ⟨rfl, alone⟩ := own hl last (by simp) one
      exact List.mem_append_left _ (by simp [single alone])
  | @marks a run none last =>
      obtain ⟨t, ht, kind⟩ := last
      have other : t.kind ≠ .rowBreak := by simp [kind]
      refine List.forall_mem_singleton.mpr fun n one => ?_
      rw [ownRows_of_ends ⟨t, ht, other⟩, keptRows, loneComment?_eq_none ⟨t, ht, other⟩,
        none] at one
      cases one

/-- The rows that the runs of an orderly source have for themselves stand alone. -/
theorem IsOrderly.mem_loneRows (read : tokenize source = .ok tokens)
    (orderly : IsOrderly (Rows.ofSource source) (Runs.of tokens).ended) :
    ∀ run ∈ (Runs.of tokens).ended, ∀ n, ownRows (Rows.ofSource source) run = [n] →
      (Rows.ofSource source).row n ∈ Pause.idle.loneRows (Text.rows source) := by
  obtain ⟨_, layout⟩ := layout_of_tokenize read orderly.owned orderly.filled
  have outlined := outlined_of_tokenize read (orderly.not_isLoneBackslash read)
  exact layout.mem_loneRows (fun run hr last => outlined.exists_of_mem hr last)
    (orderly.outline?_eq read).2

end Framed

end StyleGuide
