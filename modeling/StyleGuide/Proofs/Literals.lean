import StyleGuide.Proofs.Checker.Mend
import StyleGuide.Proofs.Checker.Run
import StyleGuide.Proofs.LogicalLine.Strands
import StyleGuide.Proofs.Rule.Respacing

/-! # String literals in a mended statement

A statement on one row is mended with masks in the place of its string literals, and then the
literals are put back. Each comes back in the place of its own mask, whatever rules were at work,
exactly if no mask occurs in front of its place in the logical line. The text in front of a
literal can hold a mask only in a comment, and only a carriage return can end a comment before
the row ends.
-/

namespace StyleGuide

section Statement

variable {c : Checker} {source : Text} {seen ahead : List Token} {t : Token} {line : LogicalLine}

/-- The rules keep the literals of a weave and the text between them apart from its spaces. -/
theorem exists_weave_mend {p : Pass} {s : CheckState} {w : Weave}
    (h : ∀ l ∈ w.literals, IsLiteral l) (masked : w.masked = line.text) :
    ∃ w' : Weave, w'.masked = (p.mend s line).text ∧ w'.literals = w.literals ∧
      w'.quotes = w.quotes ∧ w.StaysApart w' ∧ (w'.IsClear ↔ w.IsClear) := by
  refine Pass.mend_induction (P := fun text => ∃ w' : Weave, w'.masked = text ∧
    w'.literals = w.literals ∧ w'.quotes = w.quotes ∧ w.StaysApart w' ∧
    (w'.IsClear ↔ w.IsClear))
    ⟨w, masked, rfl, rfl, fun _ => id, Iff.rfl⟩ ?_
  rintro rule - ctx description new fixed ⟨v, hv, hl, hq, apart, hc⟩
  have reworked : Reworked v.masked new := hv ▸ StatementRule.reworked_of_fix fixed
  obtain ⟨w', hm, hl', hq', apart', hc'⟩ := v.exists_of_reworked (hl ▸ h) reworked
  exact ⟨w', hm, hl'.trans hl, hq'.trans hq, fun i h => apart i (apart' i h), hc'.trans hc⟩

/-- On reaching the end of a statement on one row, the pass mends the masked form of the statement
    and then restores its literals. Each comes back in its own place exactly if no mask occurs in
    front of its place in the logical line, which only a comment in front of content can bring
    about. -/
theorem literals_inPlace_iff (read : tokenize source = .ok (seen ++ t :: ahead))
    (hl : LogicalLine.ofTokens? (c.pass source).rows
      ((c.pass source).reach seen t).run.toList = some line)
    (single : line.isSingleRow) :
    let p := c.pass source
    let s := p.reach seen t
    let content := s.run.toList.filter Token.isContent
    let mended := (p.mend s line).text
    ∃ w w' : Weave,
      (∃ first last, content.head? = some first ∧ content.getLast? = some last ∧
        w.written = Text.trimEnd
          (Text.slice first.start.column last.stop.column (p.rows.row line.firstRow))) ∧
      w.literals = line.literals ∧ w.masked = line.text ∧
      w'.literals = line.literals ∧ w'.quotes = w.quotes ∧ w'.masked = mended ∧
      (mended = line.text → w' = w) ∧
      (∃ r, restore? mended line.literals = some r) ∧
      (w'.InPlace → restore? mended line.literals = some w'.written) ∧
      (w'.InPlace ↔ w.IsClear) ∧
      (CommentsLast s.run.toList → w.IsClear) := by
  intro p s content mended
  obtain ⟨_, laid⟩ := laid_of_tokenize read
  obtain ⟨_, _, laid⟩ := laid.exists_of_infix ((p.run_reach_infix seen ahead t).filter _)
  obtain ⟨w, literals, masked, written, isLiteral, clear⟩ :=
    LogicalLine.exists_weave hl single laid
  obtain ⟨w', masked', literals', quotes', -, clear'⟩ :=
    exists_weave_mend (p := p) (s := s) isLiteral masked
  have isLiteral' : ∀ l ∈ w'.literals, IsLiteral l := literals' ▸ isLiteral
  have restored : (w'.InPlace → restore? mended line.literals = some w'.written) := fun h => by
    rw [← literals, ← literals', show mended = w'.masked from masked'.symm]
    exact Weave.restore?_masked h
  have found : ∃ r, restore? mended line.literals = some r := by
    rw [← literals, ← literals', show mended = w'.masked from masked'.symm]
    exact Weave.exists_restore? []
  refine ⟨w, w', written, literals, masked, literals'.trans literals, quotes', masked',
    fun same => ?_, found, restored, (Weave.inPlace_iff_isClear isLiteral').trans clear', clear⟩
  exact Weave.eq_of_masked_eq isLiteral' (masked'.trans (same.trans masked.symm)) literals' quotes'

end Statement

/-- Spaces come in between two literals with the same mask, and each goes back to its place. -/
theorem literals_inPlace_of_twins :
    let source := "x=='a','b'\n".toList
    let p := Checker.pass ⟨⟨RowRule.all, StatementRule.all⟩, { fix := true }⟩ source
    ∃ seen t ahead line, tokenize source = .ok (seen ++ t :: ahead) ∧
      LogicalLine.ofTokens? p.rows (p.reach seen t).run.toList = some line ∧ line.isSingleRow ∧
      ∃ w : Weave, w.masked = (p.mend (p.reach seen t) line).text ∧ w.InPlace ∧
        w.masked = "x == 'x', 'x'".toList ∧
        restore? w.masked line.literals = some w.written ∧
        restore? w.masked line.literals = some "x == 'a', 'b'".toList := by
  intro source p
  let seen : List Token :=
    [⟨.name, ['x'], ⟨1, 0⟩, ⟨1, 1⟩, source⟩, ⟨.operator, "==".toList, ⟨1, 1⟩, ⟨1, 3⟩, source⟩,
      ⟨.string, "'a'".toList, ⟨1, 3⟩, ⟨1, 6⟩, source⟩, ⟨.operator, [','], ⟨1, 6⟩, ⟨1, 7⟩, source⟩,
      ⟨.string, "'b'".toList, ⟨1, 7⟩, ⟨1, 10⟩, source⟩]
  let t : Token := ⟨.newline, ['\n'], ⟨1, 10⟩, ⟨1, 11⟩, source⟩
  let line : LogicalLine :=
    ⟨"x=='x','x'".toList, [⟨0, ⟨1, 0⟩⟩, ⟨1, ⟨1, 1⟩⟩, ⟨3, ⟨1, 3⟩⟩, ⟨6, ⟨1, 6⟩⟩, ⟨7, ⟨1, 7⟩⟩],
      ["'a'".toList, "'b'".toList], none, 1, 1⟩
  have read : tokenize source = .ok (seen ++ t :: [⟨.endMarker, [], ⟨2, 0⟩, ⟨2, 0⟩, []⟩]) :=
    eq_ok_of_toOption (by decide +kernel)
  have hl : LogicalLine.ofTokens? p.rows (p.reach seen t).run.toList = some line := by
    decide +kernel
  have mended : (p.mend (p.reach seen t) line).text = "x == 'x', 'x'".toList := by
    decide +kernel
  have last : CommentsLast (p.reach seen t).run.toList := by
    unfold CommentsLast
    decide +kernel
  obtain ⟨w, w', -, -, -, -, -, masked, -, -, restored, iff, clear⟩ :=
    literals_inPlace_iff read hl rfl
  have inPlace := iff.mpr (clear last)
  refine ⟨seen, t, _, line, read, hl, rfl, w', masked, inPlace, masked.trans mended, ?_, ?_⟩
  · rw [masked]
    exact restored inPlace
  · rw [masked, mended]
    decide +kernel

/-- A carriage return ends a comment and not the row, and so the mask of the literal behind it is
    found in the comment. -/
theorem literal_restored_into_comment :
    let source := "x = 1  # 'x'\r'a'\n".toList
    let p := Checker.pass ⟨⟨RowRule.all, StatementRule.all⟩, { fix := true }⟩ source
    ∃ seen t ahead line, tokenize source = .ok (seen ++ t :: ahead) ∧
      LogicalLine.ofTokens? p.rows (p.reach seen t).run.toList = some line ∧
      line.isSingleRow ∧ (p.mend (p.reach seen t) line).text = line.text ∧
      restore? line.text line.literals = some "x = 1  # 'a'\r'x'".toList := by
  intro source p
  refine ⟨[⟨.name, ['x'], ⟨1, 0⟩, ⟨1, 1⟩, source⟩, ⟨.operator, ['='], ⟨1, 2⟩, ⟨1, 3⟩, source⟩,
    ⟨.number, ['1'], ⟨1, 4⟩, ⟨1, 5⟩, source⟩,
    ⟨.comment, "# 'x'".toList, ⟨1, 7⟩, ⟨1, 12⟩, source⟩,
    ⟨.stray, ['\r'], ⟨1, 12⟩, ⟨1, 13⟩, source⟩,
    ⟨.string, "'a'".toList, ⟨1, 13⟩, ⟨1, 16⟩, source⟩],
    ⟨.newline, ['\n'], ⟨1, 16⟩, ⟨1, 17⟩, source⟩, [⟨.endMarker, [], ⟨2, 0⟩, ⟨2, 0⟩, []⟩],
    ⟨"x = 1  # 'x'\r'x'".toList, [⟨0, ⟨1, 0⟩⟩, ⟨2, ⟨1, 2⟩⟩, ⟨4, ⟨1, 4⟩⟩, ⟨12, ⟨1, 12⟩⟩,
      ⟨13, ⟨1, 13⟩⟩], ["'a'".toList], some "  # 'x'".toList, 1, 1⟩,
    eq_ok_of_toOption ?_, ?_, ?_, ?_, ?_⟩
  all_goals decide +kernel

end StyleGuide
