import StyleGuide.RowRule
import StyleGuide.StatementRule

/-! # Guidance

What the style guide says about each rule, and examples of what a rule accepts and rejects. An
example is an expected code, or `Okay`, a colon, and source text in which `\n`, `\t` and `\s` stand
for a newline, a tab and a space.
-/

namespace StyleGuide

/-- Lines of guidance as one text. -/
def paragraphs (lines : List String) : String := "\n".intercalate lines

namespace RowRule

/-- What the style guide says about a rule. -/
def guidance : RowRule → String
  | .lineLength => paragraphs [
      "Limit all lines to a maximum of 79 characters.",
      "",
      "There are still many devices around that are limited to 80",
      "character lines; plus, limiting windows to 80 characters makes it",
      "possible to have several windows side-by-side. For flowing long",
      "blocks of text (docstrings or comments), limiting the length to 72",
      "characters is recommended."]
  | .missingNewline => "The last line should have a newline."
  | .tabIndentation => paragraphs [
      "For new projects, spaces-only are strongly recommended over tabs.",
      "Most editors have features that make this easy to do."]
  | .mixedIndentation => paragraphs [
      "Never mix tabs and spaces.",
      "",
      "The most popular way of indenting Python is with spaces only. The",
      "second-most popular way is with tabs only. Code indented with a",
      "mixture of tabs and spaces should be converted to using spaces",
      "exclusively."]
  | .trailingBlankLine => "Trailing blank lines are superfluous."
  | .trailingWhitespace => paragraphs [
      "Trailing whitespace is superfluous.",
      "",
      "The warning differs when the line itself is blank, for easier",
      "filtering by those who want to indent their blank lines."]

/-- Examples of what a rule accepts and rejects. -/
def examples : RowRule → List String
  | .lineLength => []
  | .missingNewline => []
  | .tabIndentation => [
      "Okay: if True:\\n    return",
      "W191: if True:\\n\\treturn"]
  | .mixedIndentation => [
      "Okay: if a == 0:\\n        a = 1\\n        b = 1",
      "E101: if a == 0:\\n        a = 1\\n\\tb = 1"]
  | .trailingBlankLine => [
      "Okay: spam(1)",
      "W391: spam(1)\\n"]
  | .trailingWhitespace => [
      "Okay: spam(1)",
      "W291: spam(1)\\s",
      "W293: class Foo(object):\\n    \\n    bang = 12"]

end RowRule

namespace StatementRule

/-- What the style guide says about a rule. -/
def guidance : StatementRule → String
  | .blankLines => paragraphs [
      "Separate top-level function and class definitions with two blank",
      "lines.",
      "",
      "Method definitions inside a class are separated by a single blank",
      "line.",
      "",
      "Extra blank lines may be used (sparingly) to separate groups of",
      "related functions. Blank lines may be omitted between a bunch of",
      "related one-liners (e.g. a set of dummy implementations).",
      "",
      "Use blank lines in functions, sparingly, to indicate logical",
      "sections."]
  | .compoundStatement => paragraphs [
      "Compound statements (multiple statements on the same line) are",
      "generally discouraged.",
      "",
      "While sometimes it's okay to put an if/for/while with a small body",
      "on the same line, never do this for multi-clause statements. Also",
      "avoid folding such long lines!"]
  | .innerSpace => paragraphs [
      "Avoid extraneous whitespace in the following situations:",
      "",
      "- Immediately inside parentheses, brackets or braces.",
      "",
      "- Immediately before a comma, semicolon, or colon."]
  | .separateImports => "Imports should usually be on separate lines."
  | .blockIndentation => paragraphs [
      "Use 4 spaces per indentation level.",
      "",
      "For really old code that you don't want to mess up, you can",
      "continue to use 8-space tabs."]
  | .missingSeparatorSpace => "Each comma, semicolon or colon should be followed by whitespace."
  | .missingOperatorSpace => paragraphs [
      "- Always surround these binary operators with a single space on",
      "  either side: assignment (=), augmented assignment (+=, -= etc.),",
      "  comparisons (==, <, >, !=, <>, <=, >=, in, not in, is, is not),",
      "  Booleans (and, or, not).",
      "",
      "- Use spaces around arithmetic operators."]
  | .backticks => paragraphs [
      "Backticks are removed in Python 3000.",
      "Use repr() instead."]
  | .hasKey => paragraphs [
      "The \x7b\x7d.has_key() method will be removed in the future version of",
      "Python. Use the 'in' operation instead, like:",
      "d = \x7b\"a\": 1, \"b\": 2\x7d",
      "if \"b\" in d:",
      "    print d[\"b\"]"]
  | .notEqual => paragraphs [
      "!= can also be written <>, but this is an obsolete usage kept for",
      "backwards compatibility only. New code should always use !=.",
      "The older syntax is removed in Python 3000."]
  | .raiseComma => paragraphs [
      "When raising an exception, use \"raise ValueError('message')\"",
      "instead of the older form \"raise ValueError, 'message'\".",
      "",
      "The paren-using form is preferred because when the exception",
      "arguments are long or include string formatting, you don't need to",
      "use line continuation characters thanks to the containing",
      "parentheses. The older form will be removed in Python 3000."]
  | .wideSeparatorSpace => paragraphs [
      "Avoid extraneous whitespace in the following situations:",
      "",
      "- More than one space around an assignment (or other) operator to",
      "  align it with another.",
      "",
      "This also applies around commas, semicolons and colons. These",
      "checks are disabled by default."]
  | .argumentEquals => paragraphs [
      "Don't use spaces around the '=' sign when used to indicate a",
      "keyword argument or a default parameter value."]
  | .wideOperatorSpace => paragraphs [
      "Avoid extraneous whitespace in the following situations:",
      "",
      "- More than one space around an assignment (or other) operator to",
      "  align it with another."]
  | .inlineComment => paragraphs [
      "Separate inline comments by at least two spaces.",
      "",
      "An inline comment is a comment on the same line as a statement.",
      "Inline comments should be separated by at least two spaces from the",
      "statement. They should start with a # and a single space."]
  | .argumentSpace => paragraphs [
      "Avoid extraneous whitespace in the following situations:",
      "",
      "- Immediately before the open parenthesis that starts the argument",
      "  list of a function call.",
      "",
      "- Immediately before the open parenthesis that starts an indexing",
      "  or slicing."]

/-- Examples of what a rule accepts and rejects. -/
def examples : StatementRule → List String
  | .blankLines => [
      "Okay: def a():\\n    pass\\n\\n\\ndef b():\\n    pass",
      "Okay: def a():\\n    pass\\n\\n\\n# Foo\\n# Bar\\n\\ndef b():\\n    pass",
      "E301: class Foo:\\n    b = 0\\n    def bar():\\n        pass",
      "E302: def a():\\n    pass\\n\\ndef b(n):\\n    pass",
      "E303: def a():\\n    pass\\n\\n\\n\\ndef b(n):\\n    pass",
      "E303: def a():\\n\\n\\n\\n    pass",
      "E304: @decorator\\n\\ndef a():\\n    pass"]
  | .compoundStatement => [
      "Okay: if foo == 'blah':\\n    do_blah_thing()",
      "Okay: do_one()",
      "Okay: do_two()",
      "Okay: do_three()",
      "E701: if foo == 'blah': do_blah_thing()",
      "E701: for x in lst: total += x",
      "E701: while t < 10: t = delay()",
      "E701: else: do_non_blah_thing()",
      "E701: try: something()",
      "E701: finally: cleanup()",
      "E701: if foo == 'blah': one(); two(); three()",
      "E702: do_one(); do_two(); do_three()"]
  | .innerSpace => [
      "Okay: spam(ham[1], \x7beggs: 2\x7d)",
      "E201: spam( ham[1], \x7beggs: 2\x7d)",
      "E201: spam(ham[ 1], \x7beggs: 2\x7d)",
      "E201: spam(ham[1], \x7b eggs: 2\x7d)",
      "E202: spam(ham[1], \x7beggs: 2\x7d )",
      "E202: spam(ham[1 ], \x7beggs: 2\x7d)",
      "E202: spam(ham[1], \x7beggs: 2 \x7d)",
      "E203: if x == 4: print x, y; x, y = y , x",
      "E203: if x == 4: print x, y ; x, y = y, x",
      "E203: if x == 4 : print x, y; x, y = y, x"]
  | .separateImports => [
      "Okay: import os\\nimport sys",
      "E401: import sys, os",
      "Okay: from subprocess import Popen, PIPE",
      "Okay: from myclas import MyClass",
      "Okay: from foo.bar.yourclass import YourClass",
      "Okay: import myclass",
      "Okay: import foo.bar.yourclass"]
  | .blockIndentation => [
      "Okay: a = 1",
      "Okay: if a == 0:\\n    a = 1",
      "E111:   a = 1",
      "Okay: for item in items:\\n    pass",
      "E112: for item in items:\\npass",
      "Okay: a = 1\\nb = 2",
      "E113: a = 1\\n    b = 2"]
  | .missingSeparatorSpace => [
      "Okay: [a, b]",
      "Okay: (3,)",
      "Okay: a[1:4]",
      "Okay: a[:4]",
      "Okay: a[1:]",
      "Okay: a[1:4:2]",
      "E231: ['a','b']",
      "E231: foo(bar,baz)"]
  | .missingOperatorSpace => [
      "Okay: i = i + 1",
      "Okay: submitted += 1",
      "Okay: x = x * 2 - 1",
      "Okay: hypot2 = x * x + y * y",
      "Okay: c = (a + b) * (a - b)",
      "Okay: foo(bar, key='word', *args, **kwargs)",
      "Okay: baz(**kwargs)",
      "Okay: negative = -1",
      "Okay: spam(-1)",
      "Okay: alpha[:-i]",
      "Okay: if not -5 < x < +5:\\n    pass",
      "Okay: lambda *args, **kw: (args, kw)",
      "E225: i=i+1",
      "E225: submitted +=1",
      "E225: x = x*2 - 1",
      "E225: hypot2 = x*x + y*y",
      "E225: c = (a+b) * (a-b)",
      "E225: c = alpha -4",
      "E225: z = x **y"]
  | .backticks => [
      "Okay: val = repr(1 + 2)",
      "W604: val = `1 + 2`"]
  | .hasKey => [
      "Okay: if key in d:\\n    pass",
      "W601: if d.has_key(key):\\n    pass"]
  | .notEqual => [
      "Okay: if a != 'b':\\n    pass",
      "W603: if a <> 'b':\\n    pass"]
  | .raiseComma => [
      "Okay: raise DummyError('Message')",
      "W602: raise DummyError, 'Message'"]
  | .wideSeparatorSpace => [
      "Okay: a = (1, 2)",
      "E241: a = (1,  2)",
      "E242: a = (1,\\t2)"]
  | .argumentEquals => [
      "Okay: def complex(real, imag=0.0):",
      "Okay: return magic(r=real, i=imag)",
      "Okay: boolean(a == b)",
      "Okay: boolean(a != b)",
      "Okay: boolean(a <= b)",
      "Okay: boolean(a >= b)",
      "E251: def complex(real, imag = 0.0):",
      "E251: return magic(r = real, i = imag)"]
  | .wideOperatorSpace => [
      "Okay: a = 12 + 3",
      "E221: a = 4  + 5",
      "E222: a = 4 +  5",
      "E223: a = 4\\t+ 5",
      "E224: a = 4 +\\t5"]
  | .inlineComment => [
      "Okay: x = x + 1  # Increment x",
      "Okay: x = x + 1    # Increment x",
      "E261: x = x + 1 # Increment x",
      "E262: x = x + 1  #Increment x",
      "E262: x = x + 1  #  Increment x"]
  | .argumentSpace => [
      "Okay: spam(1)",
      "E211: spam (1)",
      "Okay: dict['key'] = list[index]",
      "E211: dict ['key'] = list[index]",
      "E211: dict['key'] = list [index]"]

end StatementRule

end StyleGuide
