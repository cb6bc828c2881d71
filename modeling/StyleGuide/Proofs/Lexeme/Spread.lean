import StyleGuide.Proofs.Lexeme.Barred

/-! # Lexemes in front of spaces that come in

Where spaces come in behind a lexeme, it is read as before: a space is a bar, and a text that begins
with no new space begins as it did.
-/

namespace StyleGuide

/-- The second text is the first with spaces put in. -/
inductive Spread : Text → Text → Prop where
  | nil : Spread [] []
  | keep {s s' : Text} (c : Char) (rest : Spread s s') : Spread (c :: s) (c :: s')
  | space {s s' : Text} (rest : Spread s s') : Spread s (' ' :: s')

namespace Spread

variable {s s' : Text} {c : Char}

theorem eq_or_mem (h : Spread s s') (hc : c ∈ s') : c = ' ' ∨ c ∈ s := by
  induction h with
  | nil => cases hc
  | keep d rest ih =>
      rcases List.mem_cons.mp hc with rfl | hc
      · exact .inr (List.mem_cons_self ..)
      · exact (ih hc).imp_right (List.mem_cons_of_mem d)
  | space rest ih =>
      rcases List.mem_cons.mp hc with rfl | hc
      · exact .inl rfl
      · exact ih hc

/-- A space is a bar. -/
theorem barred (h : Spread s s') : Barred s s' := by
  induction h with
  | nil => exact .nil
  | keep c _ ih => exact .keep c ih
  | space => exact .bar (by decide) ..

end Spread

/-- A lexeme that ends on its row is taken in front of spaces as well. -/
theorem Lexeme.Takes.spread {k : Lexeme} {text behind behind' : Text} (h : k.Takes text behind)
    (he : k.endsRow = false) (other : Spread behind behind')
    (comment : k = .comment → behind'.head? = behind.head?)
    (stray : k = .stray → ∀ c ∈ text.head?, isQuote c = false)
    (literals : ∀ d ∈ behind.head?, isQuote d → ∃ m, literal? behind = some (.closed m)) :
    k.Takes text behind' := by
  refine h.barred he other.barred comment stray literals fun _ d hd word => ?_
  cases other with
  | nil => exact hd
  | keep c _ => exact hd
  | space =>
      obtain rfl := Option.some.inj hd
      cases word

end StyleGuide
