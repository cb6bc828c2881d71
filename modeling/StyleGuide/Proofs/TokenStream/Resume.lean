import StyleGuide.Proofs.Lexeme.Skim
import StyleGuide.Proofs.TokenStream.Feed

/-! # Reading on from row to row

Whether a row can be read does not depend on the tokens in front of it: it is enough to know what
is open, and how wide the open blocks are. So the statements of a source, with the widths at which
they start, are found by skimming its rows, and the source can be read if these widths nest.
-/

namespace StyleGuide

open Lexeme

/-- Whether a row starts a statement, where nothing is open in front of it. -/
def opensStatement (row : Text) : Bool :=
  (row.dropWhile isGap).head?.any fun c => c != '#' && c != '\r' && c != '\n'

/-- Whether a row begins with a backslash. -/
def startsInBackslash (row : Text) : Bool := (row.dropWhile isGap).head? == some '\\'

/-- The width at which a row starts. -/
def startWidth (row : Text) : Nat := indentWidth (row.takeWhile isGap)

/-- The widths of the open blocks behind the first row of a statement that starts at this width;
    `none` where it is less wide than the innermost block and as wide as none. -/
def enter? (width : Nat) (indents : List Nat) : Option (List Nat) :=
  if indents.headD 0 < width then some (width :: indents)
  else
    let kept := indents.dropWhile (width < ·)
    if kept.headD 0 = width then some kept else none

/-- The number of open blocks at each of the statements that start at these widths, where blocks
    of the widths `indents` are open in front of them. -/
def nesting? (indents : List Nat) : List Nat → Option (List Nat)
  | [] => some []
  | width :: widths =>
    (enter? width indents).bind fun kept => (nesting? kept widths).map (kept.length :: ·)

namespace Pause

/-- What is open behind a row that goes on where this is open. -/
def resume? (p : Pause) (row : Text) : Option Pause :=
  match p.ending with
  | .inLiteral q =>
    match q.closing? row with
    | some n => skim p.depth (row.drop n)
    | none => if q.isTriple || endsInBackslash row then some p else none
  | .plain | .joined => skim p.depth row

/-- The widths at which the statements on some rows start; `none` where a row cannot be read, where
    something is open behind the last row and where a statement begins with a backslash. -/
def outline? (p : Pause) : List Text → Option (List Nat)
  | [] => if p = idle then some [] else none
  | row :: rows =>
    if p = idle then
      if opensStatement row then
        if startsInBackslash row then none
        else (p.resume? row).bind fun q => (q.outline? rows).map (startWidth row :: ·)
      else p.outline? rows
    else (p.resume? row).bind fun q => q.outline? rows

/-- A literal that is open has been opened by a quote mark. -/
def IsQuoted (p : Pause) : Prop := ∀ q, p.ending = .inLiteral q → isQuote q.mark

theorem isQuoted_idle : idle.IsQuoted := nofun

variable {p r : Pause} {row : Text}

theorem isQuoted_of_resume? (h : p.resume? row = some r) (quoted : p.IsQuoted) : r.IsQuoted := by
  intro q open_
  unfold resume? at h
  split at h
  · split at h
    · exact isQuote_of_skim h open_
    · split at h
      · obtain rfl := Option.some.inj h
        exact quoted q open_
      · cases h
  · exact isQuote_of_skim h open_
  · exact isQuote_of_skim h open_

/-- A first row stands between statements, begins one or goes on with one. -/
theorem outline?_cons_cases {rows : List Text} {widths : List Nat}
    (h : p.outline? (row :: rows) = some widths) :
    p = idle ∧ ¬opensStatement row ∧ p.outline? rows = some widths ∨
      p = idle ∧ opensStatement row ∧ (∃ q rest, p.resume? row = some q ∧
        q.outline? rows = some rest ∧ widths = startWidth row :: rest) ∨
      p ≠ idle ∧ ∃ q, p.resume? row = some q ∧ q.outline? rows = some widths := by
  rw [outline?] at h
  split at h
  · next closed =>
      split at h
      · next opens =>
          obtain ⟨-, h⟩ := Option.ite_none_left_eq_some.mp h
          obtain ⟨q, resumes, h⟩ := Option.bind_eq_some_iff.mp h
          obtain ⟨rest, outlined, rfl⟩ := Option.map_eq_some_iff.mp h
          exact .inr (.inl ⟨closed, opens, q, rest, resumes, outlined, rfl⟩)
      · next between => exact .inl ⟨closed, between, h⟩
  · next goes => exact .inr (.inr ⟨goes, Option.bind_eq_some_iff.mp h⟩)

/-- Rows behind which nothing is open can be outlined by themselves. -/
theorem outline?_append {rows : List Text} {widths : List Nat}
    (h : p.outline? rows = some widths) (more : List Text) :
    p.outline? (rows ++ more) = (idle.outline? more).map (widths ++ ·) := by
  induction rows generalizing p widths with
  | nil =>
      simp only [outline?, Option.ite_none_right_eq_some, Option.some.injEq] at h
      obtain ⟨rfl, rfl⟩ := h
      simp
  | cons row rows ih =>
      simp only [List.cons_append, outline?] at h ⊢
      by_cases closed : p = idle
      · simp only [closed, if_true] at h ⊢
        by_cases opens : opensStatement row
        · simp only [opens, if_true, Option.ite_none_left_eq_some, Option.bind_eq_some_iff,
            Option.map_eq_some_iff] at h ⊢
          obtain ⟨other, q, resumes, behind, outlined, rfl⟩ := h
          rw [if_neg other, resumes, Option.bind_some, ih outlined, Option.map_map]
          rfl
        · simp only [opens] at h ⊢
          exact ih h
      · simp only [closed, if_false, Option.bind_eq_some_iff] at h ⊢
        obtain ⟨q, resumes, outlined⟩ := h
        rw [resumes, Option.bind_some, ih outlined]

end Pause

namespace ScanState

variable {s t : ScanState} {line : Text} {p : Pause}

/-- What is open in front of the next row. -/
def pause (s : ScanState) : Pause := ⟨s.depth, s.rowEnd.ending⟩

theorem pause_eq_idle_iff : s.pause = .idle ↔ s.rowEnd = .plain ∧ s.depth = 0 := by
  simp only [pause, Pause.idle, Pause.mk.injEq]
  cases s.rowEnd <;> simp [RowEnd.ending]

theorem betweenStatements?_eq_none_iff_opensStatement :
    s.betweenStatements? line = none ↔ opensStatement line := by
  rw [betweenStatements?_eq_none_iff, opensStatement, Option.any_eq_true]
  simp [and_assoc]

/-- Behind its gap a row is skimmed as it is read. -/
theorem skim_dropWhile (depth : Nat) (line : Text) :
    skim depth (line.dropWhile isGap) = skim depth line := by
  conv_rhs => rw [← List.takeWhile_append_dropWhile (p := isGap) (l := line)]
  exact (skim_gap (fun c hc => List.mem_takeWhile_imp hc) depth _).symm

theorem enter?_deeper {width : Nat} {indents : List Nat} (deeper : indents.headD 0 < width) :
    enter? width indents = some (width :: indents) := if_pos deeper

/-- A statement that is no deeper closes the blocks that are wider. -/
theorem enter?_aligned {width : Nat} {closed kept : List Nat}
    (inner : ∀ w ∈ closed, width < w) (aligned : kept.headD 0 = width) :
    enter? width (closed ++ kept) = some kept := by
  have shallow : ¬(closed ++ kept).headD 0 < width := by
    cases closed with
    | nil => exact fun lt => Nat.lt_irrefl _ (aligned ▸ lt)
    | cons w closed => exact Nat.lt_asymm (inner w (List.mem_cons_self ..))
  have rest : (closed ++ kept).dropWhile (width < ·) = kept := by
    rw [List.dropWhile_append_of_pos (by simpa using inner)]
    cases kept with
    | nil => rfl
    | cons w kept =>
        obtain rfl : w = width := aligned
        exact List.dropWhile_cons_of_neg (by simp)
  rw [enter?, if_neg shallow, rest]
  exact if_pos aligned

/-- A row that opens a statement opens and closes the blocks that its width asks for. -/
theorem enter?_of_feeds (h : Feeds s line t) (idle : s.pause = .idle) (opens : opensStatement line) :
    enter? (startWidth line) s.indents = some t.indents := by
  obtain ⟨plain, closed⟩ := pause_eq_idle_iff.mp idle
  have starts := betweenStatements?_eq_none_iff_opensStatement (s := s) |>.mpr opens
  cases h with
  | literalEnd he | literalMore he =>
      rw [plain] at he
      cases he
  | continued he =>
      rcases he with he | ⟨-, open_⟩
      · rw [plain] at he
        cases he
      · exact absurd closed open_
  | nothing _ _ between | between _ _ between =>
      rw [starts] at between
      cases between
  | indented _ _ _ deeper => exact enter?_deeper deeper
  | aligned _ _ _ indents inner width =>
      rw [indents]
      exact enter?_aligned inner width

/-- Other rows leave the blocks as they are. -/
theorem indents_of_feeds (h : Feeds s line t) (goes : s.pause ≠ .idle ∨ ¬opensStatement line) :
    t.indents = s.indents := by
  cases h with
  | literalEnd | literalMore | continued | nothing | between => rfl
  | indented he hd between | aligned he hd between =>
      have opens := betweenStatements?_eq_none_iff_opensStatement.mp between
      exact absurd opens (goes.resolve_left (not_not_intro (pause_eq_idle_iff.mpr ⟨he, hd⟩)))

/-- A row between statements leaves nothing open. -/
theorem pause_of_between (h : Feeds s line t) (idle : s.pause = .idle)
    (between : ¬opensStatement line) : t.pause = .idle := by
  obtain ⟨plain, closed⟩ := pause_eq_idle_iff.mp idle
  cases h with
  | literalEnd he | literalMore he =>
      rw [plain] at he
      cases he
  | continued he =>
      rcases he with he | ⟨-, open_⟩
      · rw [plain] at he
        cases he
      · exact absurd closed open_
  | nothing => exact idle
  | between _ _ found =>
      cases isBetween_of_betweenStatements? found with
      | comment | blank => exact pause_eq_idle_iff.mpr ⟨rfl, closed⟩
  | indented _ _ starts | aligned _ _ starts =>
      exact absurd (betweenStatements?_eq_none_iff_opensStatement.mp starts) between

/-- What a row of a statement leaves open is what skimming finds, where no backslash stands
    alone. -/
theorem resume?_of_feeds (h : Feeds s line t) (goes : s.pause ≠ .idle ∨ opensStatement line)
    (joins : ∀ u ∈ t.tokens.toList, ¬u.isLoneBackslash) : s.pause.resume? line = some t.pause := by
  have skimmed {marks : List Token} {indents : List Nat} {r : RowTokens} {column : Nat}
      {rest : Text} (scan : scanRow s.row line s.depth column rest = .ok r)
      (joins : ∀ u ∈ ({ s with indents := indents }.advance marks r).tokens.toList,
        ¬u.isLoneBackslash) : skim s.depth rest = some r.pause := by
    refine skim_of_scanRow scan fun u hu => joins u ?_
    rw [toList_tokens_advance]
    exact List.mem_append_right _ hu
  have between (he : s.rowEnd = .plain) (hd : s.depth = 0) :
      s.betweenStatements? line = none := by
    refine betweenStatements?_eq_none_iff_opensStatement.mpr (goes.resolve_left ?_)
    exact not_not_intro (pause_eq_idle_iff.mpr ⟨he, hd⟩)
  have plain (he : s.rowEnd = .plain) : s.pause.resume? line = skim s.depth line := by
    simp [Pause.resume?, pause, he, RowEnd.ending]
  cases h with
  | literalEnd he hn scan =>
      simp only [Pause.resume?, pause, he, RowEnd.ending, hn]
      exact skimmed scan joins
  | literalMore he hn more =>
      simp only [Pause.resume?, pause, he, RowEnd.ending, hn]
      exact if_pos more
  | continued he scan =>
      have same : s.pause.resume? line = skim s.depth line := by
        rcases he with he | ⟨he, -⟩ <;> simp [Pause.resume?, pause, he, RowEnd.ending]
      rw [same]
      exact skimmed scan joins
  | nothing he hd found | between he hd found =>
      rw [between he hd] at found
      cases found
  | indented he _ _ _ scan | aligned he _ _ _ _ _ scan =>
      rw [plain he, ← skim_dropWhile]
      exact skimmed scan joins

/-- Where a row can be skimmed, no backslash on it stands alone. -/
theorem joins_of_feeds (h : Feeds s line t)
    (goes : s.pause = .idle ∧ ¬opensStatement line ∨ ∃ p, s.pause.resume? line = some p)
    (joins : ∀ u ∈ s.tokens.toList, ¬u.isLoneBackslash) :
    ∀ u ∈ t.tokens.toList, ¬u.isLoneBackslash := by
  have advance {marks : List Token} {indents : List Nat} {r : RowTokens}
      (hm : ∀ m ∈ marks, ¬m.isLoneBackslash) (hr : ∀ u ∈ r.tokens, ¬u.isLoneBackslash) :
      ∀ u ∈ ({ s with indents := indents }.advance marks r).tokens.toList,
        ¬u.isLoneBackslash := by
    intro u hu
    rw [toList_tokens_advance] at hu
    rcases List.mem_append.mp hu with hu | hu
    · exact (List.mem_append.mp hu).elim (joins u) (hm u)
    · exact hr u hu
  have scanned {rest : Text} {column : Nat} {r : RowTokens} {p : Pause}
      (skimmed : skim s.depth rest = some p)
      (scan : scanRow s.row line s.depth column rest = .ok r) :
      ∀ u ∈ r.tokens, ¬u.isLoneBackslash := by
    obtain ⟨r', scan', -, joins'⟩ := exists_scanRow_of_skim skimmed s.row line column
    obtain rfl := Except.ok.inj (scan.symm.trans scan')
    exact joins'
  have resumes (other : s.pause ≠ .idle ∨ opensStatement line) :
      ∃ p, s.pause.resume? line = some p := by
    refine goes.resolve_left fun between => ?_
    exact other.elim (absurd between.1) fun opens => between.2 opens
  cases h with
  | nothing => exact joins
  | between _ _ between =>
      refine advance (List.forall_mem_nil _) ?_
      cases isBetween_of_betweenStatements? between with
      | comment | blank => simp [Token.isLoneBackslash]
  | literalMore => exact advance (List.forall_mem_nil _) (List.forall_mem_nil _)
  | literalEnd he hn scan =>
      obtain ⟨p, resumes⟩ := resumes (.inl fun idle => by simp [pause_eq_idle_iff, he] at idle)
      simp only [Pause.resume?, pause, he, RowEnd.ending, hn] at resumes
      exact advance (by simp [closingToken, Token.isLoneBackslash]) (scanned resumes scan)
  | continued he scan =>
      obtain ⟨p, resumes⟩ := resumes (.inl fun idle => by
        rw [pause_eq_idle_iff] at idle
        rcases he with he | ⟨-, open_⟩
        · simp [he] at idle
        · exact open_ idle.2)
      have skimmed : skim s.depth line = some p := by
        rcases he with he | ⟨he, -⟩ <;>
          simpa [Pause.resume?, pause, he, RowEnd.ending] using resumes
      exact advance (List.forall_mem_nil _) (scanned skimmed scan)
  | indented he _ starts _ scan | aligned he _ starts _ _ _ scan =>
      obtain ⟨p, resumes⟩ :=
        resumes (.inr (betweenStatements?_eq_none_iff_opensStatement.mp starts))
      have skimmed : skim s.depth (line.dropWhile isGap) = some p := by
        rw [skim_dropWhile]
        simpa [Pause.resume?, pause, he, RowEnd.ending] using resumes
      refine advance ?_ (scanned skimmed scan)
      simp [indentToken, dedentToken, Token.isLoneBackslash]

/-- A row that goes on with a statement can be read if it can be skimmed. -/
theorem exists_feed_of_goes (goes : s.pause ≠ .idle) (h : s.pause.resume? line = some p) :
    ∃ t, s.feed line = .ok t := by
  cases he : s.rowEnd with
  | inLiteral l =>
      simp only [Pause.resume?, pause, he, RowEnd.ending] at h
      simp only [feed, he]
      cases hn : l.delimiter.closing? line with
      | some n =>
          rw [hn] at h
          obtain ⟨r, scan, -⟩ :=
            exists_scanRow_of_skim h s.row line (Text.byteLength (line.take n))
          dsimp only
          exact ⟨_, by rw [scan]; rfl⟩
      | none =>
          rw [hn] at h
          dsimp only at h ⊢
          split at h
          · next more => exact ⟨_, if_pos more⟩
          · cases h
  | joined =>
      simp only [Pause.resume?, pause, he, RowEnd.ending] at h
      obtain ⟨r, scan, -⟩ := exists_scanRow_of_skim h s.row line 0
      simp only [feed, he]
      exact ⟨_, by rw [scan]; rfl⟩
  | plain =>
      have open_ : s.depth ≠ 0 := fun closed => goes (pause_eq_idle_iff.mpr ⟨he, closed⟩)
      simp only [Pause.resume?, pause, he, RowEnd.ending] at h
      obtain ⟨r, scan, -⟩ := exists_scanRow_of_skim h s.row line 0
      simp only [feed, he, if_neg open_]
      exact ⟨_, by rw [scan]; rfl⟩

/-- A row that starts a statement can be read if it can be skimmed and its width is that of a
    block, or of a new one. -/
theorem exists_feed_of_opens {indents : List Nat} (idle : s.pause = .idle)
    (opens : opensStatement line) (h : s.pause.resume? line = some p)
    (enters : enter? (startWidth line) s.indents = some indents) : ∃ t, s.feed line = .ok t := by
  obtain ⟨plain, closed⟩ := pause_eq_idle_iff.mp idle
  simp only [Pause.resume?, pause, plain, RowEnd.ending] at h
  rw [← skim_dropWhile] at h
  obtain ⟨r, scan, -⟩ :=
    exists_scanRow_of_skim h s.row line (Text.byteLength (line.takeWhile isGap))
  have starts := betweenStatements?_eq_none_iff_opensStatement (s := s) |>.mpr opens
  have fed : s.feed line = s.openStatement line := by simp [feed, plain, closed, starts]
  simp only [fed, openStatement, indent, scan]
  by_cases deeper : s.indents.headD 0 < startWidth line
  · exact ⟨_, if_pos deeper⟩
  · have aligned : (s.indents.dropWhile (startWidth line < ·)).headD 0 = startWidth line := by
      by_contra other
      simp only [enter?, if_neg deeper, if_neg other] at enters
      cases enters
    exact ⟨_, (if_neg deeper).trans (if_pos aligned)⟩

theorem exists_feed_of_between (idle : s.pause = .idle) (between : ¬opensStatement line) :
    ∃ t, s.feed line = .ok t := by
  obtain ⟨plain, closed⟩ := pause_eq_idle_iff.mp idle
  simp only [feed, plain, closed, if_true]
  cases found : s.betweenStatements? line with
  | none => exact absurd (betweenStatements?_eq_none_iff_opensStatement.mp found) between
  | some r => cases r <;> exact ⟨_, rfl⟩

/-- Rows whose outline nests can be read, and nothing is open behind them. -/
theorem exists_foldlM_of_outline? {rows : List Text} {widths depths : List Nat}
    (outlined : s.pause.outline? rows = some widths) (nests : nesting? s.indents widths = some depths)
    (joins : ∀ u ∈ s.tokens.toList, ¬u.isLoneBackslash) :
    ∃ t, rows.foldlM feed s = .ok t ∧ t.pause = .idle := by
  induction rows generalizing s widths depths with
  | nil =>
      simp only [Pause.outline?, Option.ite_none_right_eq_some] at outlined
      exact ⟨s, rfl, outlined.1⟩
  | cons row rows ih =>
      have step {t : ScanState} (fed : s.feed row = .ok t)
          (behind : ∃ u, rows.foldlM feed t = .ok u ∧ u.pause = .idle) :
          ∃ u, (row :: rows).foldlM feed s = .ok u ∧ u.pause = .idle := by
        rw [List.foldlM_cons, fed]
        exact behind
      rcases Pause.outline?_cons_cases outlined with ⟨idle, between, outlined⟩ |
        ⟨idle, opens, p, widths, resumes, outlined, rfl⟩ | ⟨goes, p, resumes, outlined⟩
      · obtain ⟨t, fed⟩ := exists_feed_of_between idle between
        have feeds := feeds_of_feed fed
        have joins' := joins_of_feeds feeds (.inl ⟨idle, between⟩) joins
        rw [idle, ← pause_of_between feeds idle between] at outlined
        rw [← indents_of_feeds feeds (.inr between)] at nests
        exact step fed (ih outlined nests joins')
      · simp only [nesting?, Option.bind_eq_some_iff, Option.map_eq_some_iff] at nests
        obtain ⟨indents, enters, depths, nests, -⟩ := nests
        obtain ⟨t, fed⟩ := exists_feed_of_opens idle opens resumes enters
        have feeds := feeds_of_feed fed
        have joins' := joins_of_feeds feeds (.inr ⟨p, resumes⟩) joins
        have pause := resume?_of_feeds feeds (.inr opens) joins'
        obtain rfl := Option.some.inj (resumes.symm.trans pause)
        obtain rfl := Option.some.inj (enters.symm.trans (enter?_of_feeds feeds idle opens))
        exact step fed (ih outlined nests joins')
      · obtain ⟨t, fed⟩ := exists_feed_of_goes goes resumes
        have feeds := feeds_of_feed fed
        have joins' := joins_of_feeds feeds (.inr ⟨p, resumes⟩) joins
        have pause := resume?_of_feeds feeds (.inl goes) joins'
        obtain rfl := Option.some.inj (resumes.symm.trans pause)
        rw [← indents_of_feeds feeds (.inl goes)] at nests
        exact step fed (ih outlined nests joins')

/-- Rows that can be outlined hold no backslash that stands alone. -/
theorem joins_of_outline? {rows : List Text} {widths : List Nat} (h : rows.foldlM feed s = .ok t)
    (outlined : s.pause.outline? rows = some widths)
    (joins : ∀ u ∈ s.tokens.toList, ¬u.isLoneBackslash) :
    ∀ u ∈ t.tokens.toList, ¬u.isLoneBackslash := by
  induction rows generalizing s widths with
  | nil =>
      obtain rfl := Except.ok.inj h
      exact joins
  | cons row rows ih =>
      rw [List.foldlM_cons] at h
      obtain ⟨u, fed, rest⟩ := exists_of_bind_eq_ok h
      have feeds := feeds_of_feed fed
      rcases Pause.outline?_cons_cases outlined with ⟨idle, between, outlined⟩ |
        ⟨idle, opens, p, widths, resumes, outlined, -⟩ | ⟨goes, p, resumes, outlined⟩
      · have joins' := joins_of_feeds feeds (.inl ⟨idle, between⟩) joins
        rw [idle, ← pause_of_between feeds idle between] at outlined
        exact ih rest outlined joins'
      · have joins' := joins_of_feeds feeds (.inr ⟨p, resumes⟩) joins
        have pause := resume?_of_feeds feeds (.inr opens) joins'
        obtain rfl := Option.some.inj (resumes.symm.trans pause)
        exact ih rest outlined joins'
      · have joins' := joins_of_feeds feeds (.inr ⟨p, resumes⟩) joins
        have pause := resume?_of_feeds feeds (.inl goes) joins'
        obtain rfl := Option.some.inj (resumes.symm.trans pause)
        exact ih rest outlined joins'

end ScanState

end StyleGuide
