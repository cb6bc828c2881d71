import Mathlib.Data.List.Forall2
import StyleGuide.LogicalLine
import StyleGuide.Proofs.TokenStream.Edge

/-! # Sources that are alike outside of literals

Two sources have tokens of the same kinds at the same places, with the same texts but for the bodies
of literals, and the same gaps in front of them. Then they hold the same between two tokens on one
row, unless a literal stands there, and the same in front of the first token of a row.
-/

namespace StyleGuide

/-- The gap directly in front of a position on its row. -/
def Rows.gapBefore (rows : Rows) (p : Position) : Text :=
  (Text.takeBytes p.column (rows.row p.row)).rtakeWhile Lexeme.isGap

namespace Token

/-- Two tokens of one kind at one place that look the same once literals are masked. -/
structure Alike (t u : Token) : Prop where
  kind : t.kind = u.kind
  start : t.start = u.start
  stop : t.stop = u.stop
  shown : t.shown = u.shown

/-- Two tokens that are alike, each on the rows of its own source, behind the same gap. -/
structure Twin (rows rows' : Rows) (t u : Token) : Prop extends Alike t u where
  gap : t.isSolid → rows.gapBefore t.start = rows'.gapBefore u.start
  edged : t.isKnown → t.IsEdged rows
  edged' : u.isKnown → u.IsEdged rows'

variable {t u : Token} {rows rows' : Rows}

namespace Alike

variable (h : t.Alike u)

include h

theorem text_eq (other : t.kind ≠ .string) : t.text = u.text := by
  have shown := h.shown
  rwa [Token.shown, Token.shown, if_neg other, if_neg (h.kind ▸ other)] at shown

theorem isSolid_eq : t.isSolid = u.isSolid := by rw [isSolid, isSolid, h.kind]

theorem isContent_eq : t.isContent = u.isContent := by rw [isContent, isContent, h.kind]

end Alike

theorem Twin.isLiteral (h : t.Twin rows rows' u) (string : t.kind = .string) :
    IsLiteral t.text ∧ IsLiteral u.text :=
  ⟨(h.edged (isKnown_of_string string)).literal string,
    (h.edged' (isKnown_of_string (h.kind ▸ string))).literal (h.kind ▸ string)⟩

end Token

/-! ## The same in both sources -/

theorem Text.rtakeWhile_append {p : Char → Bool} {s g : Text} (h : ∀ c ∈ g, p c) :
    (s ++ g).rtakeWhile p = s.rtakeWhile p ++ g := by
  rw [List.rtakeWhile, List.reverse_append, List.takeWhile_append_of_pos (by simpa using h)]
  simp [List.rtakeWhile]

theorem Lexeme.byteLength_of_isGap {g : Text} (h : ∀ c ∈ g, isGap c) :
    Text.byteLength g = g.length := by
  induction g with
  | nil => rfl
  | cons c g ih =>
      have gap := h c (by simp)
      have one : c.utf8Size = 1 := by
        simp only [isGap, Bool.or_eq_true, beq_iff_eq] at gap
        obtain (rfl | rfl) | rfl := gap <;> rfl
      rw [Text.byteLength_cons, one, ih fun d hd => h d (by simp [hd]), List.length_cons,
        Nat.add_comm]

namespace Rows

variable {rows rows' : Rows} {p q r : Position} {x : Text}

theorem gapBefore_of_holds (h : rows.Holds x p) : rows.gapBefore p = x.rtakeWhile Lexeme.isGap := by
  rw [gapBefore, h.takeBytes_eq]

/-- Two sources hold the same from one position to another on its row, or in front of the second one
    if that is on a later row. -/
inductive Shared (rows rows' : Rows) (p q : Position) : Prop where
  | below {before : Text} (h : p.row < q.row) (hq : rows.Holds before q)
      (hq' : rows'.Holds before q)
  | behind {x x' part : Text} (row : p.row = q.row) (hp : rows.Holds x p)
      (hq : rows.Holds (x ++ part) q) (hp' : rows'.Holds x' p) (hq' : rows'.Holds (x' ++ part) q)

theorem Shared.trans (h : Shared rows rows' p q) (h' : Shared rows rows' q r) :
    Shared rows rows' p r := by
  cases h with
  | below lt hq hq' =>
      cases h' with
      | below lt' hr hr' => exact .below (Nat.lt_trans lt lt') hr hr'
      | behind row hx hr hx' hr' =>
          obtain rfl := hx.unique hq
          obtain rfl := hx'.unique hq'
          exact .below (row ▸ lt) hr hr'
  | behind row hp hq hp' hq' =>
      cases h' with
      | below lt hr hr' => exact .below (row ▸ lt) hr hr'
      | behind row' hx hr hx' hr' =>
          obtain rfl := hx.unique hq
          obtain rfl := hx'.unique hq'
          rw [List.append_assoc] at hr hr'
          exact .behind (row.trans row') hp hr hp' hr'

/-- Gaps between the same positions are the same if they end in the same. -/
theorem Shared.of_apart (h : rows.Apart p q) (h' : rows'.Apart p q)
    (gap : rows.gapBefore q = rows'.gapBefore q) : Shared rows rows' p q := by
  cases h with
  | below lt opens =>
      cases h' with
      | below _ opens' =>
          obtain ⟨g, held, hg⟩ := opens
          obtain ⟨g', held', hg'⟩ := opens'
          have eq : g = g' := by
            rw [gapBefore_of_holds held, gapBefore_of_holds held'] at gap
            rwa [List.rtakeWhile_eq_self_iff.mpr hg, List.rtakeWhile_eq_self_iff.mpr hg'] at gap
          exact .below lt held (eq ▸ held')
      | behind _ _ row _ => omega
  | behind hp hq row hg =>
      cases h' with
      | below lt _ => omega
      | behind hp' hq' row' hg' =>
          rename_i x g x' g'
          have length : g.length = g'.length := by
            have := hq.2.trans hq'.2.symm
            have := hp.2.trans hp'.2.symm
            simp only [Text.byteLength_append, Lexeme.byteLength_of_isGap hg,
              Lexeme.byteLength_of_isGap hg'] at *
            omega
          rw [gapBefore_of_holds hq, gapBefore_of_holds hq', Text.rtakeWhile_append hg,
            Text.rtakeWhile_append hg'] at gap
          obtain rfl := (List.append_inj' gap length).2
          exact .behind row hp hq hp' hq'

/-- In front of a position both rows hold nothing but white space, or neither does. -/
def SameBlank (rows rows' : Rows) (p : Position) : Prop :=
  ∃ x x', rows.Holds x p ∧ rows'.Holds x' p ∧ Text.isAllBlank x = Text.isAllBlank x'

theorem SameBlank.of_shared (h : SameBlank rows rows' p) (shared : Shared rows rows' p q) :
    SameBlank rows rows' q := by
  cases shared with
  | below _ hq hq' => exact ⟨_, _, hq, hq', rfl⟩
  | behind _ hp hq hp' hq' =>
      obtain ⟨y, y', held, held', same⟩ := h
      obtain rfl := hp.unique held
      obtain rfl := hp'.unique held'
      refine ⟨_, _, hq, hq', ?_⟩
      simp only [Text.isAllBlank, List.all_append] at same ⊢
      rw [same]

end Rows

namespace Token.Twin

variable {rows rows' : Rows} {t u : Token}

/-- Two tokens that are no literals have the same text. -/
theorem shared (h : t.Twin rows rows' u) (set : t.IsSet rows) (set' : u.IsSet rows')
    (other : t.kind ≠ .string) : Rows.Shared rows rows' t.start t.stop := by
  cases set with
  | acrossRows string => exact absurd string other
  | onRow start stop row =>
      cases set' with
      | acrossRows string => exact absurd (h.kind.trans string) other
      | onRow start' stop' =>
          rw [← h.start] at start'
          rw [← h.stop, ← h.text_eq other] at stop'
          exact .behind row start stop start' stop'

theorem sameBlank (h : t.Twin rows rows' u) (set : t.IsSet rows) (set' : u.IsSet rows')
    (start : Rows.SameBlank rows rows' t.start) : Rows.SameBlank rows rows' t.stop := by
  by_cases string : t.kind = .string
  · -- a literal ends in a quote mark
    have last {v : Token} {rows : Rows} (edged : v.IsEdged rows) (literal : IsLiteral v.text) :
        ∃ x, rows.Holds x v.stop ∧ Text.isAllBlank x = false := by
      obtain ⟨x, c, hc, held⟩ := edged.last
      obtain ⟨-, s, d, text, hd⟩ := literal.edges
      rw [text, List.getLast?_concat] at hc
      obtain rfl := Option.some.inj hc
      have solid : Text.isBlank d = false := by
        simp only [Lexeme.isQuote, Bool.or_eq_true, beq_iff_eq] at hd
        obtain rfl | rfl := hd <;> rfl
      exact ⟨_, held, by simp [Text.isAllBlank, solid]⟩
    obtain ⟨literal, literal'⟩ := h.isLiteral string
    obtain ⟨x, held, blank⟩ := last (h.edged (isKnown_of_string string)) literal
    obtain ⟨x', held', blank'⟩ := last (h.edged' (isKnown_of_string (h.kind ▸ string))) literal'
    exact ⟨x, x', held, h.stop ▸ held', blank.trans blank'.symm⟩
  · exact start.of_shared (h.shared set set' string)

end Token.Twin

/-- Tokens in pairs behind a position, with the same in both sources in front of each. -/
inductive Aligned (rows rows' : Rows) : Position → List Token → List Token → Prop where
  | nil {p : Position} : Aligned rows rows' p [] []
  | cons {p : Position} {t u : Token} {ts us : List Token} (shared : rows.Shared rows' p t.start)
      (twin : t.Twin rows rows' u) (set : t.IsSet rows) (set' : u.IsSet rows')
      (rest : Aligned rows rows' t.stop ts us) : Aligned rows rows' p (t :: ts) (u :: us)

section Aligned

variable {rows rows' : Rows} {p p' q q' : Position} {ts us : List Token}

theorem aligned_of_laid (h : Laid rows p ts q) (h' : Laid rows' p us q')
    (pairs : List.Forall₂ (Token.Twin rows rows') ts us) (solid : ∀ t ∈ ts, t.isSolid) :
    Aligned rows rows' p ts us := by
  induction pairs generalizing p with
  | nil => exact .nil
  | cons twin _ ih =>
      rename_i t u ts us _
      cases h with
      | cons apart set rest =>
          cases h' with
          | cons apart' set' rest' =>
              have gap := twin.gap (solid t (by simp))
              rw [← twin.start] at apart' gap
              rw [← twin.stop] at rest'
              exact .cons (.of_apart apart apart' gap) twin set set'
                (ih rest rest' fun v hv => solid v (by simp [hv]))

/-- Comments may be left out. -/
theorem Aligned.filter_isContent (h : Aligned rows rows' p ts us) (solid : ∀ t ∈ ts, t.isSolid)
    (start : ∀ q, rows.Shared rows' p q → rows.Shared rows' p' q) :
    Aligned rows rows' p' (ts.filter Token.isContent) (us.filter Token.isContent) := by
  induction h generalizing p' with
  | nil => exact .nil
  | cons shared twin set set' _ ih =>
      rename_i p t u ts us _
      have solid' : ∀ v ∈ ts, v.isSolid := fun v hv => solid v (by simp [hv])
      by_cases content : t.isContent
      · rw [List.filter_cons_of_pos content, List.filter_cons_of_pos (twin.isContent_eq ▸ content)]
        exact .cons (start _ shared) twin set set' (ih solid' fun _ => id)
      · have content' : ¬u.isContent := twin.isContent_eq ▸ content
        rw [List.filter_cons_of_neg content, List.filter_cons_of_neg content']
        have other : t.kind ≠ .string := by
          intro string
          simp [Token.isContent, string, Token.Kind.isLayout] at content
        have through := (start _ shared).trans (twin.shared set set' other)
        exact ih solid' fun q hq => through.trans hq

end Aligned

end StyleGuide
