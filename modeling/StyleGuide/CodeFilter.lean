import StyleGuide.Code

/-! # Selecting codes

Codes are selected and ignored by the text they start with: `E2` stands for all codes of its
topic.
-/

namespace StyleGuide

/-- Which codes are reported. -/
structure CodeFilter where
  select : List String
  ignore : List String
  deriving Repr, DecidableEq, BEq

namespace CodeFilter

/-- The filter that reports every code. -/
def allowAll : CodeFilter := ⟨[], []⟩

/-- Whether the code starts with one of the texts. -/
def startsWithAny (starts : List String) (code : String) : Bool :=
  starts.any fun start => start.toList.isPrefixOf code.toList

/-- Whether a code is kept out of the report. Once anything is selected, all that is not selected
    is suppressed; otherwise the ignored codes are. -/
def suppresses (f : CodeFilter) (code : String) : Bool :=
  !startsWithAny f.select code && (!f.select.isEmpty || startsWithAny f.ignore code)

/-- Whether there are codes and all of them are suppressed. -/
def suppressesAll (f : CodeFilter) (codes : List String) : Bool :=
  !codes.isEmpty && codes.all f.suppresses

end CodeFilter

end StyleGuide
