import StyleGuide.Rule.ArgumentEquals
import StyleGuide.Rule.BlankLines
import StyleGuide.Rule.BracketSpace
import StyleGuide.Rule.Compound
import StyleGuide.Rule.Indentation
import StyleGuide.Rule.InlineComment
import StyleGuide.Rule.OperatorSpace
import StyleGuide.Rule.Removed
import StyleGuide.Rule.SeparatorSpace

/-! # Rules for statements

A rule for statements looks at one statement at a time, as a logical line and as tokens.
-/

namespace StyleGuide

/-- A rule for statements. -/
inductive StatementRule where
  /-- Blank lines set definitions apart. -/
  | blankLines
  /-- A line holds one statement. -/
  | compoundStatement
  /-- No space inside brackets and in front of separators. -/
  | innerSpace
  /-- A line imports one module. -/
  | separateImports
  /-- Blocks are indented by multiples of four. -/
  | blockIndentation
  /-- A space behind each separator. -/
  | missingSeparatorSpace
  /-- Spaces around operators with two operands. -/
  | missingOperatorSpace
  /-- No backticks. -/
  | backticks
  /-- No removed method of dictionaries. -/
  | hasKey
  /-- No obsolete inequality operator. -/
  | notEqual
  /-- Exceptions are raised with a call. -/
  | raiseComma
  /-- At most one space behind a separator. -/
  | wideSeparatorSpace
  /-- No space beside the equals sign of a keyword argument. -/
  | argumentEquals
  /-- At most one space beside an operator. -/
  | wideOperatorSpace
  /-- Inline comments are set apart. -/
  | inlineComment
  /-- No space in front of an argument list. -/
  | argumentSpace
  deriving Repr, DecidableEq, BEq

namespace StatementRule

/-- The rules in the order of their names. -/
def all : List StatementRule :=
  [.blankLines, .compoundStatement, .innerSpace, .separateImports, .blockIndentation,
    .missingSeparatorSpace, .missingOperatorSpace, .backticks, .hasKey, .notEqual, .raiseComma,
    .wideSeparatorSpace, .argumentEquals, .wideOperatorSpace, .inlineComment, .argumentSpace]

/-- The name of a rule. -/
def name : StatementRule → String
  | .blankLines => "blank_lines"
  | .compoundStatement => "compound_statements"
  | .innerSpace => "extraneous_whitespace"
  | .separateImports => "imports_on_separate_lines"
  | .blockIndentation => "indentation"
  | .missingSeparatorSpace => "missing_whitespace"
  | .missingOperatorSpace => "missing_whitespace_around_operator"
  | .backticks => "python_3000_backticks"
  | .hasKey => "python_3000_has_key"
  | .notEqual => "python_3000_not_equal"
  | .raiseComma => "python_3000_raise_comma"
  | .wideSeparatorSpace => "whitespace_around_comma"
  | .argumentEquals => "whitespace_around_named_parameter_equals"
  | .wideOperatorSpace => "whitespace_around_operator"
  | .inlineComment => "whitespace_before_inline_comment"
  | .argumentSpace => "whitespace_before_parameters"

/-- The codes that a rule can report. -/
def codes : StatementRule → List Code
  | .blankLines => [.e301, .e302, .e303, .e304]
  | .compoundStatement => [.e701, .e702]
  | .innerSpace => [.e201, .e202, .e203]
  | .separateImports => [.e401]
  | .blockIndentation => [.e111, .e112, .e113]
  | .missingSeparatorSpace => [.e231]
  | .missingOperatorSpace => [.e225]
  | .backticks => [.w604]
  | .hasKey => [.w601]
  | .notEqual => [.w603]
  | .raiseComma => [.w602]
  | .wideSeparatorSpace => [.e241, .e242]
  | .argumentEquals => [.e251]
  | .wideOperatorSpace => [.e221, .e222, .e223, .e224]
  | .inlineComment => [.e261, .e262]
  | .argumentSpace => [.e211]

/-- What a rule finds; it reports at most one finding at a time. -/
def check (ctx : StatementContext) : StatementRule → Option Finding
  | .blankLines => BlankLines.check ctx
  | .compoundStatement => CompoundStatement.check ctx
  | .innerSpace => InnerSpace.check ctx
  | .separateImports => SeparateImports.check ctx
  | .blockIndentation => BlockIndentation.check ctx
  | .missingSeparatorSpace => MissingSeparatorSpace.check ctx
  | .missingOperatorSpace => MissingOperatorSpace.check ctx
  | .backticks => Backticks.check ctx
  | .hasKey => HasKey.check ctx
  | .notEqual => NotEqual.check ctx
  | .raiseComma => RaiseComma.check ctx
  | .wideSeparatorSpace => WideSeparatorSpace.check ctx
  | .argumentEquals => ArgumentEquals.check ctx
  | .wideOperatorSpace => WideOperatorSpace.check ctx
  | .inlineComment => InlineComment.check ctx
  | .argumentSpace => ArgumentSpace.check ctx

/-- How a rule mends its finding, if it can. -/
def fix (ctx : StatementContext) : StatementRule → Option Fix
  | .blankLines => BlankLines.fix ctx
  | .compoundStatement => none
  | .innerSpace => some (InnerSpace.fix ctx)
  | .separateImports => none
  | .blockIndentation => none
  | .missingSeparatorSpace => some (MissingSeparatorSpace.fix ctx)
  | .missingOperatorSpace => MissingOperatorSpace.fix ctx
  | .backticks => Backticks.fix ctx
  | .hasKey => none
  | .notEqual => some (NotEqual.fix ctx)
  | .raiseComma => some (RaiseComma.fix ctx)
  | .wideSeparatorSpace => some (WideSeparatorSpace.fix ctx)
  | .argumentEquals => some (ArgumentEquals.fix ctx)
  | .wideOperatorSpace => some (WideOperatorSpace.fix ctx)
  | .inlineComment => none
  | .argumentSpace => none

end StatementRule

end StyleGuide
