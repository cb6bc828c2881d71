import StyleGuide.Proofs.Rule.Backticks
import StyleGuide.Proofs.Rule.Raise
import StyleGuide.Proofs.Spacing

/-! # Calls in the place of removed constructs

Two removed constructs become calls: an expression in backticks, and an exception that is raised
with an argument behind a comma. Both fixes look at characters only. The tokens are those of the
calls, unless the name of the call meets a word in front of it or another statement follows on the
row.
-/

namespace StyleGuide

open Lexeme

namespace Backticks

variable {isOpen : Bool} {s : Text} {tokens : List Token}

theorem mem_call {c : Char} (h : c ∈ call isOpen s) : c ∈ s ∨ c ∈ "repr()".toList := by
  fun_induction call isOpen s with
  | case1 => cases h
  | case2 d rest old ih =>
      rcases List.mem_cons.mp h with rfl | h
      · exact .inr (by decide)
      · exact (ih h).imp_left (List.mem_cons_of_mem d)
  | case3 isOpen d rest old closed ih =>
      rcases List.mem_append.mp h with h | h
      · have sub : "repr(".toList ⊆ "repr()".toList := by decide
        exact .inr (sub h)
      · exact (ih h).imp_left (List.mem_cons_of_mem d)
  | case4 isOpen d rest other ih =>
      rcases List.mem_cons.mp h with rfl | h
      · exact .inl (List.mem_cons_self ..)
      · exact (ih h).imp_left (List.mem_cons_of_mem d)

theorem call_concat {c : Char} (other : c ≠ backtick) (isOpen : Bool) (s : Text) :
    call isOpen (s ++ [c]) = call isOpen s ++ [c] := by
  fun_induction call isOpen s with
  | case1 isOpen =>
      have step : ¬(c == backtick) := fun same => other (beq_iff_eq.mp same)
      rw [List.nil_append, call, if_neg step]
      rfl
  | case2 d rest old ih => rw [List.cons_append, call, if_pos old, if_pos rfl, ih]; rfl
  | case3 isOpen d rest old closed ih =>
      rw [List.cons_append, call, if_pos old, if_neg closed, ih, List.append_assoc]
  | case4 isOpen d rest new ih => rw [List.cons_append, call, if_neg new, ih]; rfl

theorem takeWhile_call (isOpen : Bool) (s : Text) :
    (call isOpen s).takeWhile isGap = s.takeWhile isGap := by
  fun_induction call isOpen s with
  | case1 => rfl
  | case2 c rest old =>
      obtain rfl := beq_iff_eq.mp old
      rfl
  | case3 isOpen c rest old =>
      obtain rfl := beq_iff_eq.mp old
      rfl
  | case4 isOpen c rest other ih =>
      by_cases gap : isGap c
      · rw [List.takeWhile_cons_of_pos gap, List.takeWhile_cons_of_pos gap, ih]
      · rw [List.takeWhile_cons_of_neg gap, List.takeWhile_cons_of_neg gap]

/-- A call begins with no mark and no end of a row. -/
theorem exists_head?_call {p : Char → Prop} (bracket : p ')') (letter : p 'r')
    (h : ∃ c ∈ (s.dropWhile isGap).head?, p c) :
    ∃ c ∈ ((call isOpen s).dropWhile isGap).head?, p c := by
  fun_induction call isOpen s with
  | case1 => exact h
  | case2 => exact ⟨')', rfl, bracket⟩
  | case3 => exact ⟨'r', rfl, letter⟩
  | case4 isOpen c rest other ih =>
      by_cases gap : isGap c
      · rw [List.dropWhile_cons_of_pos gap] at h ⊢
        exact ih h
      · rw [List.dropWhile_cons_of_neg gap] at h ⊢
        exact h

/-- Layout marks and comments are neither words nor backticks. -/
theorem plain_of_not_isContent {t : Token} (h : t.isContent = false) :
    ¬t.isWord ∧ t.content ≠ mark := by
  have name : t.kind ≠ .name := by
    intro kind
    simp [Token.isContent, kind, Token.Kind.isLayout] at h
  have operator : t.kind ≠ .operator := by
    intro kind
    simp [Token.isContent, kind, Token.Kind.isLayout] at h
  refine ⟨?_, fun same => operator (Prod.mk.inj same).1⟩
  simp [Token.isWord, name, operator]

/-- The marks around a row stay. -/
theorem calls_firstTokens {line line' : Text} {r r' : RowTokens} {n : Nat}
    (gap : line'.takeWhile isGap = line.takeWhile isGap)
    (ending : ScanState.lacksNewline line' = ScanState.lacksNewline line)
    (calls : Calls false n r.tokens r'.tokens) :
    Calls false n (ScanState.firstTokens line r) (ScanState.firstTokens line' r') := by
  have plain : ∀ t ∈ ScanState.firstMarks line, ¬t.isWord ∧ t.content ≠ mark := by
    rw [ScanState.firstMarks, List.forall_mem_map]
    exact fun _ _ => plain_of_not_isContent rfl
  simp only [ScanState.firstTokens, ScanState.firstState, ScanState.toList_tokens_advance]
  exact (calls.prepend (ScanState.map_content_firstMarks gap) plain).append
    (ScanState.map_content_endMarks_firstState gap ending)
    fun t ht => plain_of_not_isContent (ScanState.not_isContent_of_mem_endMarks ht)

/-- A row between statements has no backtick where each backtick is a token of its own. -/
theorem notMem_of_isBetween {line : Text} {r : RowTokens}
    (between : ScanState.initial.IsBetween line r) (ending : line.getLast? = some '\n')
    (own : ∀ t ∈ r.tokens, backtick ∈ t.text → t.text = [backtick]) : backtick ∉ line := by
  intro mem
  cases between with
  | @comment gap rest comment behind hg hl hc he =>
      obtain ⟨whole, last⟩ : (backtick ∈ comment → comment = [backtick]) ∧
          (backtick ∈ behind → behind = [backtick]) := by
        simpa using own
      have inside : backtick ∈ comment ∨ backtick ∈ behind := by
        rw [hl, List.append_assoc, List.mem_append, List.mem_append] at mem
        exact mem.resolve_left (notMem_of_isGap hg)
      rcases inside with mem | mem
      · rw [whole mem] at he
        cases he
      · rw [hl, last mem, List.getLast?_concat] at ending
        cases ending
  | @blank gap rest c hg hl hc =>
      have whole : backtick ∈ c :: rest → c :: rest = [backtick] := by simpa using own
      rw [hl] at mem
      obtain ⟨rfl, -⟩ := List.cons.inj
        (whole ((List.mem_append.mp mem).resolve_left (notMem_of_isGap hg)))
      exact absurd hc (by decide)

theorem plain_of_isBetween {line : Text} {r : RowTokens} {t : Token}
    (between : ScanState.initial.IsBetween line r) (h : t ∈ r.tokens) :
    ¬t.isWord ∧ t.content ≠ mark := by
  cases between with
  | comment =>
      rcases h with _ | ⟨_, _ | ⟨_, ⟨⟩⟩⟩
      · exact plain_of_not_isContent rfl
      · exact plain_of_not_isContent rfl
  | blank =>
      rcases h with _ | ⟨_, ⟨⟩⟩
      exact plain_of_not_isContent rfl

/-- A text with calls for the backticks is read. -/
theorem exists_calls (one : '\n' ∉ s) (read : tokenize (s ++ ['\n']) = .ok tokens)
    (own : ∀ t ∈ tokens, backtick ∈ t.text → t.text = [backtick])
    (even : s.count backtick % 2 = 0) :
    ∃ tokens' n, tokenize (call false s ++ ['\n']) = .ok tokens' ∧ Calls false n tokens tokens' := by
  obtain ⟨state, fed, plain, closed, rfl⟩ :=
    exists_feedsFirst_of_tokenize (Text.rows_append one []) read
  cases fed with
  | nothing gaps => exact absurd (gaps '\n' (by simp)) (by decide)
  | @between r between =>
      have tokens : (ScanState.initial.advance [] r).tokens.toList = r.tokens := by
        rw [ScanState.toList_tokens_advance]
        rfl
      rw [tokens] at read own ⊢
      have free := notMem_of_isBetween between List.getLast?_concat
        fun t ht => own t (List.mem_append_left _ ht)
      have same : call false s = s := call_eq_self fun mem => free (List.mem_append_left _ mem)
      have still := Calls.nil.prepend rfl fun t
          (ht : t ∈ r.tokens ++ (ScanState.initial.advance [] r).endMarks [s ++ ['\n']]) =>
        (List.mem_append.mp ht).elim (plain_of_isBetween between)
          fun ht => plain_of_not_isContent (ScanState.not_isContent_of_mem_endMarks ht)
      rw [List.append_nil] at still
      rw [same]
      exact ⟨_, 0, read, still⟩
  | @opened r opens scan =>
      have whole : call false (s ++ ['\n']) = call false s ++ ['\n'] := call_concat (by decide) ..
      have newline : EndsAtNewline (s ++ ['\n']) := by
        have shape := Text.areRows_rows (s ++ ['\n'])
        rw [Text.rows_append one []] at shape
        exact ScanState.endsAtNewline_of_areRows shape
      have parity : (s ++ ['\n']).count backtick % 2 = false.toNat := by
        rw [List.count_append]
        exact even
      have inside : ∀ t ∈ r.tokens, backtick ∈ t.text → t.text = [backtick] := by
        intro t ht
        refine own t (List.mem_append_left _ ?_)
        rw [ScanState.firstState, ScanState.toList_tokens_advance]
        exact List.mem_append_right _ ht
      have called : ReadsCalls 1 (call false s ++ ['\n']) false 0 r.depth (s ++ ['\n']) r.tokens :=
        readsCalls_of_readsRow (ReadsRow.of_scanRow scan plain) newline inside parity
      obtain ⟨items, r', n, reads, closed', calls⟩ := called 0
      rw [whole] at reads
      have one' : '\n' ∉ call false s := fun mem => (mem_call mem).elim one (by decide)
      have opens' : ScanState.initial.betweenStatements? (call false s ++ ['\n']) = none := by
        rw [ScanState.betweenStatements?_eq_none_iff] at opens ⊢
        rw [← whole]
        exact exists_head?_call (p := fun c => c ≠ '#' ∧ c ≠ '\r' ∧ c ≠ '\n') (by decide)
          (by decide) opens
      have gap : (call false s ++ ['\n']).takeWhile isGap = (s ++ ['\n']).takeWhile isGap := by
        rw [← whole, takeWhile_call]
      have ending : ScanState.lacksNewline (call false s ++ ['\n']) =
          ScanState.lacksNewline (s ++ ['\n']) := by
        rw [ScanState.lacksNewline_concat, ScanState.lacksNewline_concat]
      exact ⟨_, n, tokenize_of_scanRow (Text.rows_append one' []) opens' reads.scanRow_eq
        reads.rowEnd_eq (closed'.trans closed), calls_firstTokens gap ending calls⟩

/-- Where each backtick is a token of its own, as in a text with masked literals, the text with calls
    for the pairs of backticks has the tokens of these calls in their place exactly if no opening
    backtick stands directly behind a word. -/
theorem tokens_call_iff (one : '\n' ∉ s) (read : tokenize (s ++ ['\n']) = .ok tokens)
    (own : ∀ t ∈ tokens, backtick ∈ t.text → t.text = [backtick])
    (even : s.count backtick % 2 = 0) :
    ∃ tokens', tokenize (call false s ++ ['\n']) = .ok tokens' ∧
      (tokens'.map Token.content = withCalls false (tokens.map Token.content) ↔
        ¬Calls.Meets false tokens) := by
  obtain ⟨tokens', n, read', calls⟩ := exists_calls one read own even
  exact ⟨tokens', read', calls.map_content_iff.trans calls.eq_zero_iff⟩

end Backticks

namespace RaiseComma

variable {ctx : StatementContext} {text name rest : Text} {depth : Nat}

/-- The number of open brackets behind a character. -/
def depthBehind (depth : Nat) (c : Char) : Nat :=
  if isOpening c then depth + 1 else if isClosing c then depth - 1 else depth

/-- What stands in front of the first semicolon outside brackets. -/
def statement (depth : Nat) : Text → Text
  | [] => []
  | c :: rest => if c = ';' ∧ depth = 0 then [] else c :: statement (depthBehind depth c) rest

/-- The statements that follow from the first semicolon outside brackets on. -/
def following (depth : Nat) : Text → Text
  | [] => []
  | c :: rest => if c = ';' ∧ depth = 0 then c :: rest else following (depthBehind depth c) rest

theorem statement_append_following (depth : Nat) (s : Text) :
    statement depth s ++ following depth s = s := by
  fun_induction statement depth s with
  | case1 => rfl
  | case2 depth c rest ends => rw [following, if_pos ends, List.nil_append]
  | case3 depth c rest inside ih => rw [following, if_neg inside, List.cons_append, ih]

theorem head?_following (depth : Nat) (s : Text) : ∀ c ∈ (following depth s).head?, c = ';' := by
  fun_induction following depth s with
  | case1 => exact nofun
  | case2 depth c rest ends => exact fun d hd => (Option.some.inj hd).symm.trans ends.1
  | case3 depth c rest inside ih => exact ih

/-- The text raises the exception `name` with `rest` behind a comma. -/
def Raises (text name rest : Text) : Prop :=
  ∃ gap before behind, text = "raise".toList ++ (gap ++ (name ++ (before ++ ',' :: (behind ++ rest)))) ∧
    gap ≠ [] ∧ (gap ++ before ++ behind).all Text.isBlank ∧
    name ≠ [] ∧ name.all Text.isWord ∧ ¬rest.head?.any Text.isBlank

/-- All that stands behind the comma becomes the argument. -/
theorem fix_of_raises (h : Raises ctx.text name rest) (one : '\n' ∉ ctx.text) :
    fix ctx = ⟨"exception raised with a call.",
      .line ("raise ".toList ++ name ++ ['('] ++ rest ++ [')'])⟩ := by
  obtain ⟨gap, before, behind, text, some, blank, named, word, solid⟩ := h
  simp only [List.all_eq_true, List.forall_mem_append] at blank word
  obtain ⟨⟨hg, hb⟩, loose⟩ := blank
  have row : ∀ c ∈ rest, c ≠ '\n' := by
    rintro c hc rfl
    refine one ?_
    rw [text]
    simp [hc]
  have trimmed : Text.trimStart (behind ++ rest) = rest := by
    rw [Text.trimStart, List.dropWhile_append_of_pos loose]
    cases rest with
    | nil => rfl
    | cons c rest => exact List.dropWhile_cons_of_neg solid
  have parts := parse?_of_comma some hg named word hb (behind ++ rest)
  have argument : rest.takeWhile (· != '\n') = rest :=
    List.takeWhile_eq_self_iff.mpr fun c hc => bne_iff_ne.mpr (row c hc)
  have none : rest.dropWhile (· != '\n') = [] :=
    List.dropWhile_eq_nil_iff.mpr fun c hc => bne_iff_ne.mpr (row c hc)
  unfold fix
  rw [text, parts, trimmed, argument, none]
  unfold Raise.call
  generalize "raise ".toList = start
  exact congrArg (fun s => Fix.mk _ (.line s)) (List.append_nil _)

/-- Only the statement becomes the call, exactly if no other follows on the row. -/
theorem fix_eq_call_iff (h : Raises ctx.text name rest) (one : '\n' ∉ ctx.text) :
    fix ctx = ⟨"exception raised with a call.",
      .line ("raise ".toList ++ name ++ ['('] ++ statement 0 rest ++ [')'] ++ following 0 rest)⟩ ↔
        following 0 rest = [] := by
  have whole := statement_append_following 0 rest
  have first := head?_following 0 rest
  rw [fix_of_raises h one]
  generalize "raise ".toList ++ name ++ ['('] = front
  generalize statement 0 rest = argument at whole
  generalize following 0 rest = more at whole first
  subst whole
  constructor
  · intro same
    have lines : front ++ (argument ++ more) ++ [')'] = front ++ argument ++ [')'] ++ more := by
      simpa using same
    have ends : more ++ [')'] = [')'] ++ more := by simpa using lines
    cases more with
    | nil => rfl
    | cons c more =>
        obtain ⟨rfl, -⟩ := List.cons.inj ends
        exact absurd (first _ rfl) (by decide)
  · rintro rfl
    simp

end RaiseComma

open Backticks RaiseComma

/-- In a statement with masked literals, the backticks in pairs become the tokens of calls exactly if
    no opening backtick stands directly behind a word, and an exception that is raised with an
    argument behind a comma is called on that argument alone exactly if no other statement follows. -/
theorem removed_fixed_iff {ctx : StatementContext} {tokens : List Token} (one : '\n' ∉ ctx.text)
    (read : tokenize (ctx.text ++ ['\n']) = .ok tokens)
    (own : ∀ t ∈ tokens, backtick ∈ t.text → t.text = [backtick]) :
    (ctx.text.count backtick % 2 ≠ 0 → Backticks.fix ctx = none) ∧
    (ctx.text.count backtick % 2 = 0 → ∃ new tokens',
      Backticks.fix ctx = some ⟨"backticks replaced with repr().", .line new⟩ ∧
      tokenize (new ++ ['\n']) = .ok tokens' ∧
      (tokens'.map Token.content = withCalls false (tokens.map Token.content) ↔
        ¬Calls.Meets false tokens)) ∧
    ∀ name rest, Raises ctx.text name rest →
      (RaiseComma.fix ctx = ⟨"exception raised with a call.",
        .line ("raise ".toList ++ name ++ ['('] ++ statement 0 rest ++ [')'] ++ following 0 rest)⟩ ↔
          following 0 rest = []) := by
  refine ⟨fun odd => if_neg odd, fun even => ?_, fun name rest h => fix_eq_call_iff h one⟩
  obtain ⟨tokens', read', same⟩ := tokens_call_iff one read own even
  exact ⟨_, tokens', if_pos even, read', same⟩

/-- The semicolon in brackets ends no statement; the other one does. -/
theorem removed_fixed_iff_of_two_statements :
    let ctx : StatementContext := ⟨"raise E, `a` + b[c;d]; e".toList, [], none, 1, 0, 0, [], 0, 0⟩
    let new := "raise E, repr(a) + b[c;d]; e".toList
    let called := "raise E(`a` + b[c;d]); e".toList
    ∃ tokens tokens', '\n' ∉ ctx.text ∧ tokenize (ctx.text ++ ['\n']) = .ok tokens ∧
      (∀ t ∈ tokens, backtick ∈ t.text → t.text = [backtick]) ∧
      ctx.text.count backtick % 2 = 0 ∧ ¬Calls.Meets false tokens ∧
      Backticks.fix ctx = some ⟨"backticks replaced with repr().", .line new⟩ ∧
      tokenize (new ++ ['\n']) = .ok tokens' ∧
      tokens'.map Token.content = withCalls false (tokens.map Token.content) ∧
      RaiseComma.fix ctx ≠ ⟨"exception raised with a call.", .line called⟩ := by
  intro ctx new called
  obtain ⟨tokens, found⟩ : ∃ tokens, (tokenize (ctx.text ++ ['\n'])).toOption = some tokens :=
    Option.isSome_iff_exists.mp (by decide +kernel)
  have apart : (tokenize (ctx.text ++ ['\n'])).toOption.all fun tokens =>
      decide ((∀ t ∈ tokens, backtick ∈ t.text → t.text = [backtick]) ∧
        ¬Calls.Meets false tokens) := by
    decide +kernel
  rw [found] at apart
  obtain ⟨own, clear⟩ := of_decide_eq_true apart
  have one : '\n' ∉ ctx.text := by decide
  have even : ctx.text.count backtick % 2 = 0 := by decide +kernel
  have read := eq_ok_of_toOption found
  have raises : Raises ctx.text ['E'] "`a` + b[c;d]; e".toList :=
    ⟨[' '], [], [' '], by decide +kernel⟩
  obtain ⟨-, replaced, single⟩ := removed_fixed_iff one read own
  obtain ⟨_, tokens', fixed, read', same⟩ := replaced even
  have filled : Backticks.fix ctx = some ⟨"backticks replaced with repr().", .line new⟩ := by
    decide +kernel
  cases filled.symm.trans fixed
  refine ⟨tokens, tokens', one, read, own, even, clear, filled, read', same.mpr clear, fun alone => ?_⟩
  exact absurd ((single _ _ raises).mp alone) (by decide +kernel)

/-- A word in front of the backticks takes in the name of the call, and the brackets of a call take
    in the statement behind the semicolon. -/
theorem calls_take_in_neighbours :
    (let ctx : StatementContext := ⟨"print`x`".toList, [], none, 1, 0, 0, [], 0, 0⟩
      ∃ tokens tokens', tokenize (ctx.text ++ ['\n']) = .ok tokens ∧
        (∀ t ∈ tokens, backtick ∈ t.text → t.text = [backtick]) ∧
        Backticks.fix ctx =
          some ⟨"backticks replaced with repr().", .line "printrepr(x)".toList⟩ ∧
        tokenize ("printrepr(x)".toList ++ ['\n']) = .ok tokens' ∧
        tokens'.map Token.content ≠ withCalls false (tokens.map Token.content)) ∧
    let ctx : StatementContext := ⟨"raise A, b; c".toList, [], none, 1, 0, 0, [], 0, 0⟩
    Raises ctx.text ['A'] "b; c".toList ∧
      statement 0 "b; c".toList = ['b'] ∧ following 0 "b; c".toList = "; c".toList ∧
      RaiseComma.fix ctx = ⟨"exception raised with a call.", .line "raise A(b; c)".toList⟩ := by
  constructor
  · intro ctx
    obtain ⟨tokens, found⟩ : ∃ tokens, (tokenize (ctx.text ++ ['\n'])).toOption = some tokens :=
      Option.isSome_iff_exists.mp (by decide +kernel)
    obtain ⟨tokens', found'⟩ :
        ∃ tokens', (tokenize ("printrepr(x)".toList ++ ['\n'])).toOption = some tokens' :=
      Option.isSome_iff_exists.mp (by decide +kernel)
    have apart : (tokenize (ctx.text ++ ['\n'])).toOption.all fun tokens =>
        (tokenize ("printrepr(x)".toList ++ ['\n'])).toOption.all fun tokens' =>
          decide ((∀ t ∈ tokens, backtick ∈ t.text → t.text = [backtick]) ∧
            tokens'.map Token.content ≠ withCalls false (tokens.map Token.content)) := by
      decide +kernel
    rw [found, found'] at apart
    obtain ⟨own, other⟩ := of_decide_eq_true apart
    exact ⟨tokens, tokens', eq_ok_of_toOption found, own, by decide +kernel,
      eq_ok_of_toOption found', other⟩
  · exact ⟨⟨[' '], [], [' '], by decide +kernel⟩, by decide +kernel, by decide +kernel,
      by decide +kernel⟩

end StyleGuide
