/-! # Positions in a source -/

namespace StyleGuide

/-- A place in a source: the row counts from one, the column counts bytes from zero. -/
structure Position where
  row : Nat
  column : Nat
  deriving Repr, DecidableEq, BEq, ReflBEq, LawfulBEq

namespace Position

/-- Positions are ordered by row, then by column. -/
instance : LE Position where
  le a b := a.row < b.row ∨ (a.row = b.row ∧ a.column ≤ b.column)

instance : LT Position where
  lt a b := a.row < b.row ∨ (a.row = b.row ∧ a.column < b.column)

instance (a b : Position) : Decidable (a ≤ b) :=
  inferInstanceAs (Decidable (a.row < b.row ∨ (a.row = b.row ∧ a.column ≤ b.column)))

instance (a b : Position) : Decidable (a < b) :=
  inferInstanceAs (Decidable (a.row < b.row ∨ (a.row = b.row ∧ a.column < b.column)))

/-- The form for a reader, whose columns count from one. -/
def shown (p : Position) : String := s!"{p.row}:{p.column + 1}"

end Position

end StyleGuide
