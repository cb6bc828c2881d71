import StyleGuide.FileReport

/-! # Counting violations by code -/

namespace StyleGuide

/-- How often a code was reported, and with which message first. -/
structure Tally where
  code : Code
  count : Nat
  firstMessage : String
  deriving Repr, DecidableEq

namespace Tally

/-- Count one more violation. Tallies are kept in the order of their codes, one for each code that
    was reported. -/
def add (v : Violation) : List Tally → List Tally
  | [] => [⟨v.code, 1, v.message⟩]
  | t :: rest =>
    if t.code = v.code then { t with count := t.count + 1 } :: rest
    else if v.code.rank < t.code.rank then ⟨v.code, 1, v.message⟩ :: t :: rest
    else t :: add v rest

/-- Count violations in their order. -/
def addAll (tallies : List Tally) (violations : List Violation) : List Tally :=
  violations.foldl (fun ts v => add v ts) tallies

/-- Whether a code was reported. -/
def has (tallies : List Tally) (code : String) : Bool :=
  tallies.any fun t => t.code.text == code

/-- The tallies of the codes that start with a text. -/
def startingWith (start : String) (tallies : List Tally) : List Tally :=
  tallies.filter fun t => start.toList.isPrefixOf t.code.text.toList

/-- The number of violations whose codes start with a text. -/
def total (start : String) (tallies : List Tally) : Nat :=
  (startingWith start tallies).foldl (fun n t => n + t.count) 0

end Tally

end StyleGuide
