import StyleGuide.Proofs.LogicalLine.Strands

/-! # The comment behind a statement

The comments behind the last content token of a row are written behind the statement as the row
holds them.
-/

namespace StyleGuide.LogicalLine

variable {rows : Rows} {b t : Token} {ts : List Token} {p q : Position} {x : Text}

theorem commentBehind_append {before : Option Token} {pre : List Token} {s : Text}
    (content : b.isContent) (h : commentBehind rows (some b) ts = some s) :
    commentBehind rows before (pre ++ b :: ts) = some s := by
  induction pre generalizing before with
  | nil => rw [List.nil_append, commentBehind, if_pos content, h]
  | cons t pre ih =>
      rw [List.cons_append, commentBehind]
      split
      · exact ih
      · cases before with
        | none => exact ih
        | some a =>
            simp only [ih]
            split <;> rfl

theorem commentBehind_eq_none (bare : ∀ t ∈ ts, t.isContent = false)
    (other : ∀ t ∈ ts, t.kind = .comment → t.start.row ≠ b.stop.row) :
    commentBehind rows (some b) ts = none := by
  induction ts with
  | nil => rfl
  | cons t ts ih =>
      have later := ih (fun u hu => bare u (List.mem_cons_of_mem _ hu))
        fun u hu => other u (List.mem_cons_of_mem _ hu)
      have elsewhere : ¬(t.kind = .comment ∧ b.stop.row = t.start.row) :=
        fun ⟨kind, row⟩ => other t (List.mem_cons_self ..) kind row.symm
      rw [commentBehind, if_neg (by simp [bare t (List.mem_cons_self ..)])]
      simp only [later, if_neg elsewhere]

/-- The comments on the row of the token `b` reach up to the last of them. -/
theorem exists_last_comment (hb : rows.Holds x b.stop) (before : rows.Before b.stop p)
    (laid : Laid rows p (ts.filter Token.isSolid) q) (bare : ∀ t ∈ ts, t.isContent = false)
    (ht : t ∈ ts) (kind : t.kind = .comment) (row : t.start.row = b.stop.row) :
    ∃ w s, commentBehind rows (some b) ts = some s ∧ rows.Holds (x ++ s) w.stop ∧ w ∈ ts ∧
      w.kind = .comment ∧ w.stop.row = b.stop.row ∧
      ∀ u ∈ ts, u.kind = .comment → u.start.row = b.stop.row → rows.Before u.stop w.stop := by
  induction ts generalizing p t with
  | nil => cases ht
  | cons u us ih =>
      have bare' : ∀ v ∈ us, v.isContent = false := fun v hv => bare v (List.mem_cons_of_mem _ hv)
      have solid (kind : u.kind = .comment) : rows.Before p u.stop ∧ u.IsSet rows ∧
          Laid rows u.stop (us.filter Token.isSolid) q := by
        rw [List.filter_cons_of_pos (Token.isSolid_of_comment kind)] at laid
        cases laid with
        | cons apart set rest => exact ⟨apart.before.trans set.before, set, rest⟩
      rw [commentBehind, if_neg (by simp [bare u (List.mem_cons_self ..)])]
      by_cases more : ∃ v ∈ us, v.kind = .comment ∧ v.start.row = b.stop.row
      · obtain ⟨v, hv, kindv, rowv⟩ := more
        obtain ⟨w, s, later, holds, hw, kindw, roww, all⟩ : ∃ w s,
            commentBehind rows (some b) us = some s ∧ rows.Holds (x ++ s) w.stop ∧ w ∈ us ∧
              w.kind = .comment ∧ w.stop.row = b.stop.row ∧
              ∀ u ∈ us, u.kind = .comment → u.start.row = b.stop.row →
                rows.Before u.stop w.stop := by
          by_cases hu : u.isSolid
          · rw [List.filter_cons_of_pos hu] at laid
            cases laid with
            | cons apart set rest =>
                exact ih (before.trans (apart.before.trans set.before)) rest bare' hv kindv rowv
          · rw [List.filter_cons_of_neg hu] at laid
            exact ih before laid bare' hv kindv rowv
        refine ⟨w, s, ?_, holds, List.mem_cons_of_mem _ hw, kindw, roww, ?_⟩
        · simp only [later]
          split <;> rfl
        · intro v hv kindv rowv
          rcases List.mem_cons.mp hv with rfl | hv
          · obtain ⟨-, -, rest⟩ := solid kindv
            have hw := List.mem_filter.mpr ⟨hw, Token.isSolid_of_comment kindw⟩
            exact (List.filter_true .. ▸ rest.ordered_filter fun _ => true).before_stop hw
          · exact all v hv kindv rowv
      · have none : commentBehind rows (some b) us = none :=
          commentBehind_eq_none bare' fun v hv kind row => more ⟨v, hv, kind, row⟩
        have first : t = u := by
          rcases List.mem_cons.mp ht with rfl | ht
          · rfl
          · exact absurd ⟨t, ht, kind, row⟩ more
        subst first
        obtain ⟨reach, set, -⟩ := solid kind
        have reach := before.trans reach
        have level : t.start.row = t.stop.row := by
          cases set with
          | onRow _ _ row => exact row
          | acrossRows string => rw [kind] at string; cases string
        cases reach with
        | below below => omega
        | behind hp hq level' =>
            obtain rfl := hp.unique hb
            rename_i part
            have slice : Text.slice b.stop.column t.stop.column (rows.row t.start.row) = part := by
              rw [row]
              exact hp.slice_eq hq level'
            refine ⟨t, part, ?_, hq, List.mem_cons_self .., kind, level'.symm, ?_⟩
            · simp only [none, kind, row, and_self, if_true]
              rw [← row, slice]
              rfl
            · intro v hv kindv rowv
              rcases List.mem_cons.mp hv with rfl | hv
              · exact hq.before_self
              · exact absurd ⟨v, hv, kindv, rowv⟩ more

theorem comment_of_ofTokens? {l : LogicalLine} {run : List Token}
    (h : ofTokens? rows run = some l) : l.comment = commentBehind rows none run := by
  simp only [ofTokens?] at h
  split at h
  · cases h
  · obtain rfl := Option.some.inj h
    rfl

theorem exists_last_content {run : List Token} (h : run.filter Token.isContent ≠ []) :
    ∃ pre b post, run = pre ++ b :: post ∧ b.isContent ∧ ∀ t ∈ post, t.isContent = false := by
  induction run with
  | nil => exact absurd rfl h
  | cons t run ih =>
      by_cases more : run.filter Token.isContent = []
      · have bare : ∀ u ∈ run, u.isContent = false := by
          intro u hu
          simpa using List.filter_eq_nil_iff.mp more u hu
        have content : t.isContent := by
          by_contra other
          exact h (by rw [List.filter_cons_of_neg other, more])
        exact ⟨[], t, run, rfl, content, bare⟩
      · obtain ⟨pre, b, post, rfl, content, bare⟩ := ih more
        exact ⟨t :: pre, b, post, rfl, content, bare⟩

/-- A comment on the row of a statement is part of what is written behind the statement, if no
    comment stands in front of content. -/
theorem infix_comment {l : LogicalLine} {run : List Token} (hl : ofTokens? rows run = some l)
    (single : l.isSingleRow) (laid : Laid rows p (run.filter Token.isSolid) q)
    (last : CommentsLast run) (ht : t ∈ run) (kind : t.kind = .comment)
    (row : t.start.row = l.firstRow) : ∃ s, l.comment = some s ∧ t.text <:+: s := by
  obtain ⟨first, rest, content, of⟩ := exists_of_ofTokens? hl
  have some : run.filter Token.isContent ≠ [] := by simp [content]
  obtain ⟨pre, b, post, rfl, hb, bare⟩ := exists_last_content some
  have ordered := content ▸ laid.ordered_content
  have onb := onRow_of_isSingleRow of single ordered b
    (content ▸ List.mem_filter.mpr ⟨by simp, hb⟩)
  have set := laid.isSet_of_mem (List.mem_filter.mpr ⟨ht, Token.isSolid_of_comment kind⟩)
  have level : t.start.row = t.stop.row := by
    cases set with
    | onRow _ _ row => exact row
    | acrossRows string => rw [kind] at string; cases string
  have behind : t ∈ post := by
    rcases List.mem_append.mp ht with ht | ht
    · have := (List.pairwise_append.mp last).2.2 t ht b (List.mem_cons_self ..) kind hb
      omega
    · rcases List.mem_cons.mp ht with rfl | ht
      · simp [Token.isContent, kind] at hb
      · exact ht
  rw [List.filter_append, List.filter_cons_of_pos (Token.isSolid_of_isContent hb)] at laid
  obtain ⟨_, -, laid⟩ := laid.exists_of_append
  cases laid with
  | cons apart setb laid =>
      cases setb with
      | acrossRows _ _ across => omega
      | onRow start stop =>
          obtain ⟨w, s, eq, holds, -, -, roww, all⟩ := exists_last_comment stop
            stop.before_self laid bare behind kind (by omega)
          refine ⟨s, ?_, ?_⟩
          · rw [comment_of_ofTokens? hl]
            exact commentBehind_append hb eq
          · have reach : rows.Before b.stop t.start := by
              have hm := List.mem_filter.mpr ⟨behind, Token.isSolid_of_comment kind⟩
              exact (List.filter_true .. ▸ laid.ordered_filter fun _ => true).before_start hm
            have toEnd := all t behind kind (by omega)
            cases set with
            | acrossRows _ _ across => omega
            | onRow startt stopt =>
                cases reach with
                | below below => omega
                | behind hp hq =>
                    obtain rfl := hp.unique stop
                    obtain rfl := hq.unique startt
                    cases toEnd with
                    | below below => omega
                    | behind hp' hq' =>
                        obtain rfl := hp'.unique stopt
                        have whole := hq'.unique holds
                        simp only [List.append_assoc, List.append_cancel_left_eq] at whole
                        exact ⟨_, _, by rw [List.append_assoc]; exact whole⟩

end StyleGuide.LogicalLine
