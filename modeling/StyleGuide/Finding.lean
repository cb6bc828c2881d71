import StyleGuide.Code
import StyleGuide.Position
import StyleGuide.Text

/-! # Findings and fixes

A rule answers with a finding, and where it can mend what it found, with a fix.
-/

namespace StyleGuide

/-- Where a finding points. -/
inductive Place where
  /-- A byte offset in the text that the rule was given. -/
  | offset (bytes : Nat)
  /-- A place in the source. -/
  | position (position : Position)
  deriving Repr, DecidableEq

namespace Place

/-- The byte column of a place on its row or in its text. -/
def column : Place → Nat
  | .offset bytes => bytes
  | .position p => p.column

end Place

/-- A violation found by a rule. -/
structure Finding where
  place : Place
  code : Code
  message : String
  deriving Repr, DecidableEq

namespace Finding

/-- A finding at a byte offset in the text that the rule was given. -/
def atOffset (offset : Nat) (code : Code) (message : String) : Finding :=
  ⟨.offset offset, code, message⟩

/-- A finding at a place in the source. -/
def atPosition (position : Position) (code : Code) (message : String) : Finding :=
  ⟨.position position, code, message⟩

end Finding

/-- What a fix changes. -/
inductive Edit where
  /-- The text that the rule was given. -/
  | line (text : Text)
  /-- The number of blank lines in front of the statement. -/
  | blankLines (count : Nat)
  deriving Repr, DecidableEq

/-- A change that mends a finding, and its announcement. -/
structure Fix where
  description : String
  edit : Edit
  deriving Repr, DecidableEq

end StyleGuide
