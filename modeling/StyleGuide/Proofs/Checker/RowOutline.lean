import StyleGuide.Proofs.Checker.MendedRows
import StyleGuide.Proofs.Lexeme.BlankEnd
import StyleGuide.Proofs.Rule.Draft
import StyleGuide.Proofs.TokenStream.Cover
import StyleGuide.Proofs.TokenStream.Outline

/-! # What a mended row leaves open

The rules for rows change the white space at the ends of a row. A mended row opens a statement if
the row did, and it leaves open what the row did.
-/

namespace StyleGuide

open Lexeme

/-- The first character behind the gap of a row, if it does not end the row. -/
def opener (row : Text) : Option Char :=
  (row.dropWhile isGap).head?.filter fun c => c != '\r' && c != '\n'

theorem opensStatement_eq (row : Text) : opensStatement row = (opener row).any (· != '#') := by
  rw [opensStatement, opener]
  cases (row.dropWhile isGap).head? with
  | none => rfl
  | some c => by_cases ends : c = '\r' ∨ c = '\n' <;> simp [Option.filter] <;> grind

theorem startsInBackslash_eq (row : Text) : startsInBackslash row = (opener row == some '\\') := by
  rw [startsInBackslash, opener]
  cases (row.dropWhile isGap).head? with
  | none => rfl
  | some c => by_cases ends : c = '\r' ∨ c = '\n' <;> simp [Option.filter] <;> grind

section Gap

variable {gap row s : Text} {q : Delimiter} {p r : Pause}

/-- A gap in front of a text moves the end of a literal. -/
theorem closing?_gap (hq : isQuote q.mark) (hg : ∀ c ∈ gap, isGap c) (s : Text) :
    q.closing? (gap ++ s) = (q.closing? s).map (· + gap.length) := by
  induction gap with
  | nil => simp
  | cons c gap ih =>
      obtain ⟨hc, rest⟩ := List.forall_mem_cons.mp hg
      have blank := isBlank_of_isGap hc
      have backslash : c ≠ '\\' := by
        rintro rfl
        exact absurd hc (by decide)
      have newline : c ≠ '\n' := by
        rintro rfl
        exact absurd hc (by decide)
      have opens : ¬q.text.isPrefixOf (c :: (gap ++ s)) := by
        obtain ⟨more, text⟩ := q.exists_cons
        rw [text, List.isPrefixOf_iff_prefix, List.cons_prefix_cons]
        rintro ⟨rfl, -⟩
        exact not_isBlank_of_isQuote hq blank
      rw [List.cons_append, closing?_cons backslash, if_neg opens, if_neg (by simp [newline]),
        ih rest, Option.map_map, List.length_cons]
      congr 1

theorem endsInBackslash_gap (hg : ∀ c ∈ gap, isGap c) (s : Text) :
    endsInBackslash (gap ++ s) = endsInBackslash s := by
  have same (ending : Text) : '\\' :: ending <:+ gap ++ s ↔ '\\' :: ending <:+ s := by
    refine ⟨fun h => ?_, fun h => h.trans (List.suffix_append gap s)⟩
    rcases List.suffix_or_suffix_of_suffix h (List.suffix_append gap s) with sub | ⟨u, eq⟩
    · exact sub
    · cases u with
      | nil => exact eq ▸ List.suffix_rfl
      | cons c u =>
          obtain ⟨v, whole⟩ := h
          rw [← eq, ← List.append_assoc] at whole
          obtain ⟨rfl, -⟩ := List.cons.inj eq
          have := hg '\\' (by simp [← List.append_cancel_right whole])
          exact absurd this (by decide)
  rw [Bool.eq_iff_iff]
  simp only [endsInBackslash, Bool.or_eq_true, List.isSuffixOf_iff_suffix, same]

/-- A gap in front of a row leaves nothing open. -/
theorem Pause.resume?_gap (quoted : p.IsQuoted) (hg : ∀ c ∈ gap, isGap c) (s : Text) :
    p.resume? (gap ++ s) = p.resume? s := by
  unfold resume?
  split
  · next q open_ =>
      rw [closing?_gap (quoted q open_) hg, endsInBackslash_gap hg]
      cases q.closing? s with
      | none => rfl
      | some n =>
          dsimp only [Option.map_some]
          rw [Nat.add_comm, ← List.drop_drop, List.drop_left]
  all_goals exact skim_gap hg _ _

theorem opener_gap (hg : ∀ c ∈ gap, isGap c) (s : Text) : opener (gap ++ s) = opener s := by
  rw [opener, List.dropWhile_append_of_pos hg, opener]

end Gap

section End

variable {x t : Text} {p r : Pause}

theorem endsInBackslash_of_blank_end (h : endsInBackslash (x ++ t))
    (blank : ∀ c ∈ t, Text.isBlank c) (last : x.getLast? ≠ some '\n') :
    endsInBackslash (x ++ ['\n']) := by
  have split {ending : Text} (h : '\\' :: ending <:+ x ++ t) :
      ∃ v u, x = v ++ '\\' :: u ∧ ending = u ++ t := by
    have other : '\\' ∉ t := fun mem => absurd (blank _ mem) (by decide)
    rcases List.suffix_or_suffix_of_suffix h (List.suffix_append x t) with sub | ⟨u, eq⟩
    · exact absurd (sub.subset (List.mem_cons_self ..)) other
    · cases u with
      | nil =>
          rw [List.nil_append] at eq
          exact absurd (eq ▸ List.mem_cons_self ..) other
      | cons c u =>
          obtain ⟨rfl, rest⟩ := List.cons.inj eq
          obtain ⟨v, whole⟩ := h
          rw [← eq, ← List.append_assoc] at whole
          exact ⟨v, u, (List.append_cancel_right whole).symm, rest.symm⟩
  simp only [endsInBackslash, Bool.or_eq_true, List.isSuffixOf_iff_suffix] at h ⊢
  rcases h with h | h
  · obtain ⟨v, u, rfl, eq⟩ := split h
    obtain ⟨rfl, -⟩ | ⟨rfl, -⟩ := List.append_eq_singleton_iff.mp eq.symm
    · exact .inl ⟨v, by simp⟩
    · simp at last
  · obtain ⟨v, u, rfl, eq⟩ := split h
    rcases u with _ | ⟨c, _ | ⟨d, u⟩⟩
    · exact .inl ⟨v, by simp⟩
    · obtain ⟨rfl, -⟩ := List.cons.inj eq
      exact .inr ⟨v, by simp⟩
    · obtain ⟨rfl, rest⟩ := List.cons.inj eq
      obtain ⟨rfl, none⟩ := List.cons.inj rest
      obtain ⟨rfl, -⟩ := List.append_eq_nil_iff.mp none.symm
      simp at last

/-- White space at the end of a row may go if a newline comes. -/
theorem Pause.resume?_of_blank_end (quoted : p.IsQuoted) (h : p.resume? (x ++ t) = some r)
    (blank : ∀ c ∈ t, Text.isBlank c) (last : x.getLast? ≠ some '\n') :
    p.resume? (x ++ ['\n']) = some r := by
  unfold resume? at h ⊢
  split
  · next q open_ =>
      simp only [open_] at h
      cases closes : q.closing? (x ++ t) with
      | some n =>
          obtain ⟨le, same⟩ := closing?_of_blank_end (quoted q open_) blank closes
          rw [closes] at h
          rw [same]
          dsimp only at h ⊢
          rw [List.drop_append_of_le_length le] at h ⊢
          refine skim_of_blank_end h blank fun ends => last ?_
          rw [← List.take_append_drop n x, List.getLast?_append, ends]
          rfl
      | none =>
          rw [closes] at h
          rw [closing?_eq_none_of_blank_end (quoted q open_) isBlank_newline closes]
          dsimp only at h ⊢
          split at h
          · next goes =>
              rw [if_pos, h]
              exact Bool.or_eq_true_iff.mpr ((Bool.or_eq_true_iff.mp goes).imp_right
                fun goes => endsInBackslash_of_blank_end goes blank last)
          · cases h
  all_goals
    next open_ =>
      simp only [open_] at h
      exact skim_of_blank_end h blank last

end End

/-- A row that has come in the place of another has the same part in the outline of the source. -/
structure KeepsOutline (row row' : Text) : Prop where
  filled : row ≠ [] → row' ≠ []
  resumes : ∀ p r : Pause, p.IsQuoted → p.resume? row = some r → p.resume? row' = some r
  first : opener row' = opener row
  only : EndsAtNewline row → EndsAtNewline row'
  ended : row.getLast? = some '\n' → row'.getLast? = some '\n'
  /-- Without tabs the gap in front of what stands on the row stays as it is. -/
  lead : '\t' ∉ indentation row → (opener row).isSome → row'.takeWhile isGap = row.takeWhile isGap

/-- The indentation of a row is in its gap. -/
theorem indentation_takeWhile (row : Text) : indentation (row.takeWhile isGap) = indentation row := by
  rw [indentation, List.takeWhile_takeWhile, indentation]
  congr 1
  funext c
  by_cases h : c = ' ' ∨ c = '\t'
  · rcases h with rfl | rfl <;> decide
  · simp [not_or.mp h]

namespace KeepsOutline

variable {row row' row'' gap gap' x t s : Text}

theorem refl (row : Text) : KeepsOutline row row := ⟨id, fun _ _ _ => id, rfl, id, id, fun _ _ => rfl⟩

theorem trans (h : KeepsOutline row row') (h' : KeepsOutline row' row'') :
    KeepsOutline row row'' where
  filled := h'.filled ∘ h.filled
  resumes p r quoted resumes := h'.resumes p r quoted (h.resumes p r quoted resumes)
  first := h'.first.trans h.first
  only := h'.only ∘ h.only
  ended := h'.ended ∘ h.ended
  lead bare opens := by
    have same := h.lead bare opens
    rw [← same]
    refine h'.lead ?_ (h.first ▸ opens)
    rwa [← indentation_takeWhile, same, indentation_takeWhile]

theorem notMem_newline_of_gap (hg : ∀ c ∈ gap, isGap c) : '\n' ∉ gap :=
  fun mem => absurd (hg _ mem) (by decide)

/-- Another gap at the start of a row. -/
theorem of_gap (hg : ∀ c ∈ gap, isGap c) (hg' : ∀ c ∈ gap', isGap c) (some : gap ≠ [] → gap' ≠ [])
    (bare : '\t' ∉ indentation (gap ++ s) → gap' = gap) : KeepsOutline (gap ++ s) (gap' ++ s) where
  filled := by
    simp only [ne_eq, List.append_eq_nil_iff, not_and]
    intro filled none
    refine filled ?_
    by_contra first
    exact some first none
  resumes p r quoted resumes := by
    rw [Pause.resume?_gap quoted hg] at resumes
    rwa [Pause.resume?_gap quoted hg']
  first := by rw [opener_gap hg, opener_gap hg']
  only only := by
    intro a b eq
    rcases List.append_eq_append_iff.mp eq with ⟨c, rfl, rest⟩ | ⟨c, rfl, rest⟩
    · exact only (gap ++ c) b (by rw [rest, List.append_assoc])
    · cases c with
      | nil => exact only gap b (by rw [rest]; rfl)
      | cons d c =>
          obtain ⟨rfl, -⟩ := List.cons.inj rest
          exact absurd (List.mem_append_right a (List.mem_cons_self ..)) (notMem_newline_of_gap hg')
  ended last := by
    have ne : s ≠ [] := by
      rintro rfl
      rw [List.append_nil] at last
      exact notMem_newline_of_gap hg (List.mem_of_getLast? last)
    rw [List.getLast?_append_of_ne_nil _ ne] at last ⊢
    exact last
  lead none _ := by rw [bare none]

/-- The gap and the terminators at the end of a row do not open it. -/
theorem opener_end (ends : ∀ c ∈ t, isGap c ∨ c = '\r' ∨ c = '\n') (x : Text) :
    opener (x ++ t) = if x.all isGap then none else opener x := by
  rw [opener, opener, List.dropWhile_append]
  by_cases empty : x.all isGap
  · have none : x.dropWhile isGap = [] := List.dropWhile_eq_nil_iff.mpr (List.all_eq_true.mp empty)
    rw [none, if_pos empty, if_pos List.isEmpty_nil, Option.filter_eq_none_iff]
    intro c hc
    have solid := List.head?_dropWhile_not isGap t
    rw [Option.mem_def.mp hc] at solid
    have mem := (List.dropWhile_sublist _).subset (List.mem_of_mem_head? hc)
    rcases (ends c mem).resolve_left (by simpa using solid) with rfl | rfl <;> decide
  · have some : x.dropWhile isGap ≠ [] :=
      mt List.dropWhile_eq_nil_iff.mp (mt List.all_eq_true.mpr empty)
    rw [if_neg empty, if_neg (by simpa using some), List.head?_append_of_ne_nil _ some]

/-- A newline for the spaces and terminators at the end of a row. -/
theorem of_end (ends : ∀ c ∈ t, isGap c ∨ c = '\r' ∨ c = '\n') (last : x.getLast? ≠ some '\n') :
    KeepsOutline (x ++ t) (x ++ ['\n']) where
  filled := by simp
  resumes p r quoted resumes := by
    refine p.resume?_of_blank_end quoted resumes (fun c hc => ?_) last
    rcases ends c hc with gap | rfl | rfl
    · exact isBlank_of_isGap gap
    · decide
    · decide
  first := by
    rw [opener_end ends, opener_end (by simp)]
  only only := by
    intro a b eq
    rcases List.append_eq_append_iff.mp eq with ⟨c, rfl, rest⟩ | ⟨c, rfl, rest⟩
    · cases c with
      | nil => exact (List.cons.inj rest).2.symm
      | cons d c => simp at rest
    · cases c with
      | nil => exact (List.cons.inj rest).2
      | cons d c =>
          -- the row would have had a newline inside
          obtain ⟨rfl, -⟩ := List.cons.inj rest
          have none := only a (c ++ t) (by simp)
          obtain ⟨rfl, -⟩ := List.append_eq_nil_iff.mp none
          simp at last
  ended _ := by simp
  lead _ opens := by
    rw [opener_end ends] at opens
    have some : ¬(x.takeWhile isGap).length = x.length := by
      intro whole
      have same := (List.takeWhile_prefix (p := isGap) (l := x)).eq_of_length whole
      rw [if_pos (List.all_eq_true.mpr (List.takeWhile_eq_self_iff.mp same))] at opens
      cases opens
    rw [List.takeWhile_append, if_neg some, List.takeWhile_append, if_neg some]

end KeepsOutline

section Rules

variable {ctx : RowContext} {rule : RowRule} {finding : Finding} {description : String} {new : Text}

theorem spaced_eq_self {gap : Text} (bare : '\t' ∉ gap) : spaced gap = gap := by
  induction gap with
  | nil => rfl
  | cons c gap ih =>
      rw [List.mem_cons, not_or] at bare
      rw [spaced, List.flatMap_cons, if_neg (by simpa using Ne.symm bare.1)]
      exact congrArg (c :: ·) (ih bare.2)

theorem keepsOutline_untabify (row : Text) : KeepsOutline row (untabify row) := by
  have gap : ∀ c ∈ indentation row, isGap c := by
    intro c hc
    rcases eq_of_mem_indentation hc with rfl | rfl <;> rfl
  have spaces : ∀ c ∈ spaced (indentation row), isGap c := by
    intro c hc
    rw [eq_space_of_mem_spaced hc]
    rfl
  have := KeepsOutline.of_gap (s := row.drop (indentation row).length) gap spaces
    (mt spaced_eq_nil_iff.mp) (by rw [indentation_append]; exact spaced_eq_self)
  rwa [indentation_append, ← untabify_eq] at this

theorem keepsOutline_strip (row : Text) : KeepsOutline row (TrailingWhitespace.strip row) := by
  simp only [TrailingWhitespace.strip]
  split
  · set ending : Char → Bool := fun c => c == ' ' || c == '\n' || c == '\r' || c == '\t'
    have ends : ∀ c ∈ row.rtakeWhile ending, isGap c ∨ c = '\r' ∨ c = '\n' := by
      intro c hc
      have := List.mem_rtakeWhile_imp hc
      simp only [ending, Bool.or_eq_true, beq_iff_eq] at this
      obtain ((rfl | rfl) | rfl) | rfl := this <;> decide
    have whole : Text.dropEndWhile ending row ++ row.rtakeWhile ending = row :=
      List.rdropWhile_append_rtakeWhile
    have kept := KeepsOutline.of_end ends (Text.getLast?_dropEndWhile_ne (p := ending) rfl row)
    rwa [whole] at kept
  · exact .refl row

/-- The rules keep the outline; only a blank row at the end of the source is emptied. -/
theorem RowRule.keepsOutline_of_fix (found : rule.check ctx = some finding)
    (fixed : rule.fix ctx = some ⟨description, .line new⟩)
    (other : ctx.number = ctx.total → ¬Text.isAllBlank ctx.row) : KeepsOutline ctx.row new := by
  cases rule with
  | lineLength => cases fixed
  | missingNewline =>
      cases fixed
      have last : ctx.row.getLast? ≠ some '\n' := by
        simp only [check, MissingNewline.check] at found
        split at found
        · next trimmed =>
            rw [← trimmed]
            exact Text.getLast?_dropEndWhile_ne (by decide) ctx.row
        · cases found
      have ended := KeepsOutline.of_end (x := ctx.row) (t := []) (by simp) last
      rwa [List.append_nil] at ended
  | tabIndentation | mixedIndentation =>
      cases fixed
      exact keepsOutline_untabify _
  | trailingBlankLine =>
      cases fixed
      simp only [check, TrailingBlankLine.check] at found
      split at found
      · next h => exact absurd h.2 (other h.1)
      · cases found
  | trailingWhitespace =>
      cases fixed
      exact keepsOutline_strip _

end Rules

namespace Pass

variable {p : Pass} {s : RowState} {n : Nat}

theorem keepsOutline_applyRowRule (indentChar : Option Char) (number : Nat) (rule : RowRule)
    (other : number = p.rows.size → ¬Text.isAllBlank s.row) :
    KeepsOutline s.row (p.applyRowRule indentChar number s rule).row := by
  rcases row_applyRowRule_cases (p := p) indentChar number s rule with
    same | ⟨finding, description, found, fixed⟩
  · rw [same]
    exact .refl _
  · exact rule.keepsOutline_of_fix found fixed other

theorem keepsOutline_foldl_applyRowRule (indentChar : Option Char) (number : Nat)
    (rules : List RowRule) (other : number = p.rows.size → ¬Text.isAllBlank s.row) :
    KeepsOutline s.row (rules.foldl (p.applyRowRule indentChar number) s).row := by
  induction rules generalizing s with
  | nil => exact .refl _
  | cons rule rules ih =>
      refine (keepsOutline_applyRowRule indentChar number rule other).trans (ih fun last => ?_)
      rw [Text.isAllBlank_iff_trim, trim_applyRowRule, ← Text.isAllBlank_iff_trim]
      exact other last

/-- A mended row is what the rules make of the row. -/
theorem exists_row_mendedRows (pos : 0 < n) (le : n ≤ p.rows.size) :
    ∃ char findings, Rows.row p.mendedRows n =
      (p.registry.rowRules.foldl (p.applyRowRule char n) ⟨p.rows.row n, findings⟩).row := by
  obtain ⟨n, rfl⟩ : ∃ k, n = k + 1 := ⟨n - 1, by omega⟩
  have whole : Rows.row p.mendedRows (n + 1) =
      Rows.row (p.checkedRows (n + 1)).fixedRows (n + 1) := by
    have leads := checkedRows_prefix (p := p) le
    have taken := List.prefix_iff_eq_take.mp leads
    rw [Array.length_toList, size_checkedRows] at taken
    rw [Rows.row, Rows.row, if_neg (Nat.succ_ne_zero n), if_neg (Nat.succ_ne_zero n),
      Nat.add_sub_cancel, ← Array.getElem?_toList, ← Array.getElem?_toList, taken,
      List.getElem?_take_of_lt (Nat.lt_succ_self n)]
    rfl
  have checked (u : CheckState) (size : u.fixedRows.size = n) :
      ∃ char findings, Rows.row (p.checkRow u).fixedRows (n + 1) =
        (p.registry.rowRules.foldl (p.applyRowRule char (n + 1))
          ⟨p.rows.row (n + 1), findings⟩).row := by
    subst size
    rw [Rows.row.eq_def (p.checkRow u).fixedRows, if_neg (Nat.succ_ne_zero _), Nat.add_sub_cancel,
      checkRow, Array.getElem?_push_size]
    exact ⟨_, _, rfl⟩
  rw [whole, checkedRows_succ]
  exact checked _ (size_checkedRows n)

/-- The mended rows keep the outline; only a blank row at the end of the source is emptied. -/
theorem keepsOutline_mendedRows (pos : 0 < n) (le : n ≤ p.rows.size)
    (other : n = p.rows.size → ¬Text.isAllBlank (p.rows.row n)) :
    KeepsOutline (p.rows.row n) (Rows.row p.mendedRows n) := by
  obtain ⟨char, findings, whole⟩ := exists_row_mendedRows pos le
  rw [whole]
  exact keepsOutline_foldl_applyRowRule (s := ⟨_, findings⟩) _ _ _ other

end Pass

section Passes

variable {p : Pass} {a b : Nat} {r : Pause}

/-- The mended rows of a statement leave open what its rows do. -/
theorem Passes.mended (h : Passes p.rows a b r) (pos : 0 < a)
    (other : b = p.rows.size + 1 → ¬Text.isAllBlank (p.rows.row p.rows.size)) :
    Passes p.mendedRows a b r := by
  have row {n : Nat} (le : a ≤ n) (filled : p.rows.row n ≠ [])
      (other : n = p.rows.size → ¬Text.isAllBlank (p.rows.row p.rows.size)) :
      KeepsOutline (p.rows.row n) (Rows.row p.mendedRows n) :=
    p.keepsOutline_mendedRows (by omega) (Rows.le_size_of_row filled) fun last => last ▸ other last
  induction h with
  | first filled resumes =>
      have keeps := row (Nat.le_refl a) filled fun last => other (by omega)
      exact .first (keeps.filled filled) (keeps.resumes _ _ Pause.isQuoted_idle resumes)
  | next before open_ filled resumes ih =>
      have keeps := row (Nat.le_of_lt before.lt) filled fun last => other (by omega)
      have within := Rows.le_size_of_row filled
      exact .next (ih fun last => absurd last (by omega)) open_ (keeps.filled filled)
        (keeps.resumes _ _ before.isQuoted resumes)

end Passes

end StyleGuide
