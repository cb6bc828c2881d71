/-! # Self tests -/

namespace StyleGuide

/-- The outcome of a self test. -/
structure TestSummary where
  passed : Nat := 0
  failed : Nat := 0
  deriving Repr, DecidableEq

namespace TestSummary

/-- One more test that passed or failed. -/
def add (s : TestSummary) (hasPassed : Bool) : TestSummary :=
  if hasPassed then { s with passed := s.passed + 1 } else { s with failed := s.failed + 1 }

/-- Whether no test failed. -/
def isSuccess (s : TestSummary) : Bool := s.failed == 0

end TestSummary

end StyleGuide
