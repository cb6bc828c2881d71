import StyleGuide.CodeFilter
import StyleGuide.Guidance
import StyleGuide.Text.Quoted

/-! # The rules in force -/

namespace StyleGuide

/-- The rules that are applied to a file, each kind in the order of application. -/
structure Registry where
  rowRules : List RowRule
  statementRules : List StatementRule
  deriving Repr, DecidableEq, BEq

namespace Registry

/-- The rules that can still report something under a filter, in the order of their names. -/
def ofFilter (f : CodeFilter) : Registry where
  rowRules := RowRule.all.filter fun r => !f.suppressesAll (r.codes.map Code.text)
  statementRules := StatementRule.all.filter fun r => !f.suppressesAll (r.codes.map Code.text)

/-- The name and the examples of each rule. -/
def examples (r : Registry) : List (String × List String) :=
  r.rowRules.map (fun rule => (rule.name, rule.examples))
    ++ r.statementRules.map (fun rule => (rule.name, rule.examples))

/-- The guidance of the rule that reports a code. -/
def guidanceOn? (r : Registry) (code : String) : Option String :=
  ((r.rowRules.find? fun rule => (rule.codes.map Code.text).contains code).map RowRule.guidance)
    <|> ((r.statementRules.find? fun rule => (rule.codes.map Code.text).contains code).map
      StatementRule.guidance)

/-- The names of the rules on one line. -/
def listing (r : Registry) : String :=
  let list (names : List String) : String :=
    "[" ++ ", ".intercalate (names.map fun name => Text.quoted name.toList) ++ "]"
  "Registry \x7b physical: " ++ list (r.rowRules.map RowRule.name) ++ ", logical: "
    ++ list (r.statementRules.map StatementRule.name) ++ " \x7d"

end Registry

end StyleGuide
