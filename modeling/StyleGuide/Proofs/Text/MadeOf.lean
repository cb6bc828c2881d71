import StyleGuide.Proofs.Text.Trim
import StyleGuide.Rows

/-! # Texts made of other texts

A text is made of another if it brings no characters of its own but ASCII. Cutting, trimming and
joining texts never adds a character, and what the program writes itself is ASCII.
-/

namespace StyleGuide.Text

variable {s t u part : Text} {texts : List Text} {n m : Nat}

/-- Each character of the text `t` is a character of `s` or ASCII. -/
def MadeOf (s t : Text) : Prop := ∀ c ∈ t, c ∈ s ∨ c.toNat < 128

/-- Whether a text is ASCII, as all is that the program writes itself. -/
def isAscii (t : Text) : Bool := t.all fun c => c.toNat < 128

namespace MadeOf

theorem of_subset (h : t ⊆ s) : MadeOf s t := fun _ hc => .inl (h hc)

theorem refl (s : Text) : MadeOf s s := of_subset fun _ h => h

theorem of_ascii (h : isAscii t) : MadeOf s t := by
  intro c hc
  exact .inr (by simpa using List.all_eq_true.mp h c hc)

theorem nil : MadeOf s [] := nofun

theorem trans (h : MadeOf s t) (h' : MadeOf t u) : MadeOf s u := by
  intro c hc
  rcases h' c hc with there | ascii
  · exact h c there
  · exact .inr ascii

/-- A part of a text is made of what the text is made of. -/
theorem subset (h : MadeOf s t) (sub : u ⊆ t) : MadeOf s u := h.trans (of_subset sub)

/-- What is made of a part of a text is made of the text. -/
theorem mono (h : MadeOf s u) (sub : s ⊆ t) : MadeOf t u := (of_subset sub).trans h

theorem append (h : MadeOf s t) (h' : MadeOf s u) : MadeOf s (t ++ u) := by
  intro c hc
  rcases List.mem_append.mp hc with hc | hc
  · exact h c hc
  · exact h' c hc

theorem cons {c : Char} (hc : c ∈ s ∨ c.toNat < 128) (h : MadeOf s t) : MadeOf s (c :: t) := by
  intro d hd
  rcases List.mem_cons.mp hd with rfl | hd
  · exact hc
  · exact h d hd

theorem cons_cons {c : Char} (h : MadeOf s t) : MadeOf (c :: s) (c :: t) :=
  cons (.inl List.mem_cons_self) (h.mono (List.subset_cons_self c s))

theorem replicate {c : Char} (hc : c.toNat < 128) (n : Nat) : MadeOf s (List.replicate n c) := by
  intro d hd
  rw [List.eq_of_mem_replicate hd]
  exact .inr hc

theorem flatten (h : ∀ t ∈ texts, MadeOf s t) : MadeOf s texts.flatten := by
  intro c hc
  obtain ⟨t, ht, hc⟩ := List.mem_flatten.mp hc
  exact h t ht c hc

end MadeOf

/-! ## Parts of texts -/

theorem takeBytes_subset (n : Nat) (s : Text) : takeBytes n s ⊆ s := by
  intro c hc
  rw [← takeBytes_append_dropBytes n s]
  exact List.mem_append_left _ hc

theorem dropBytes_subset (n : Nat) (s : Text) : dropBytes n s ⊆ s := by
  intro c hc
  rw [← takeBytes_append_dropBytes n s]
  exact List.mem_append_right _ hc

theorem slice_subset (n m : Nat) (s : Text) : slice n m s ⊆ s :=
  List.Subset.trans (takeBytes_subset _ _) (dropBytes_subset _ _)

theorem dropEndWhile_subset (p : Char → Bool) (s : Text) : dropEndWhile p s ⊆ s := by
  apply List.IsPrefix.subset
  exact dropEndWhile_prefix p s

theorem trimEnd_subset (s : Text) : trimEnd s ⊆ s := dropEndWhile_subset _ _

theorem trimStart_subset (s : Text) : trimStart s ⊆ s := (List.dropWhile_suffix _).subset

theorem trim_subset (s : Text) : trim s ⊆ s := by
  apply List.IsInfix.subset
  exact trim_infix s

theorem subset_of_mem_rows {row : Text} (h : row ∈ rows s) : row ⊆ s := by
  intro c hc
  rw [← flatten_rows s]
  exact List.mem_flatten_of_mem h hc

/-- What stands around a part of a text is in the text. -/
theorem subset_of_cut? {before after : Text} (h : cut? part s = some (before, after)) :
    before ⊆ s ∧ after ⊆ s := by
  have whole := append_of_cut? h
  constructor
  · rw [← whole, List.append_assoc]
    exact List.subset_append_left _ _
  · rw [← whole]
    exact List.subset_append_right _ _

theorem MadeOf.getD {rows : Array Text} {row : Text} (all : ∀ row ∈ rows.toList, MadeOf s row)
    (other : MadeOf s row) (n : Nat) : MadeOf s (rows[n]?.getD row) := by
  cases found : rows[n]? with
  | none => exact other
  | some row => exact all row (Array.mem_toList_iff.mpr (Array.mem_of_getElem? found))

theorem madeOf_replace {by' : Text} (ascii : isAscii by') (s : Text) :
    MadeOf s (replace part by' s) := by
  fun_induction replace part by' s with
  | case1 => exact .refl _
  | case2 => exact .refl _
  | case3 s hp before after h _ ih =>
      obtain ⟨front, back⟩ := subset_of_cut? h
      exact ((MadeOf.of_subset front).append (.of_ascii ascii)).append (ih.mono back)

end StyleGuide.Text

namespace StyleGuide.Rows

theorem row_subset (source : Text) (n : Nat) : (ofSource source).row n ⊆ source := by
  rw [row]
  split
  · exact List.nil_subset _
  · cases h : (ofSource source)[n - 1]? with
    | none => exact List.nil_subset _
    | some row =>
        have mem : row ∈ Text.rows source := by
          have := Array.mem_of_getElem? h
          simpa [ofSource] using this
        exact Text.subset_of_mem_rows mem

end StyleGuide.Rows
