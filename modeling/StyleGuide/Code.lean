/-! # Codes

Each kind of violation has a code: a letter for its weight, error or warning, and a number whose
first digit gives the topic.
-/

namespace StyleGuide

/-- The code of a kind of violation. -/
inductive Code where
  /-- Indentation mixes tabs and spaces. -/
  | e101
  /-- The indentation is no multiple of four. -/
  | e111
  /-- A block is not indented. -/
  | e112
  /-- An indented row starts no block. -/
  | e113
  /-- A space behind an opening bracket. -/
  | e201
  /-- A space in front of a closing bracket. -/
  | e202
  /-- A space in front of a separator. -/
  | e203
  /-- A space in front of an argument list or an index. -/
  | e211
  /-- Several spaces in front of an operator. -/
  | e221
  /-- Several spaces behind an operator. -/
  | e222
  /-- A tab in front of an operator. -/
  | e223
  /-- A tab behind an operator. -/
  | e224
  /-- No space around an operator. -/
  | e225
  /-- No space behind a separator. -/
  | e231
  /-- Several spaces behind a separator. -/
  | e241
  /-- A tab behind a separator. -/
  | e242
  /-- Spaces around the equals sign of a keyword argument. -/
  | e251
  /-- Fewer than two spaces in front of an inline comment. -/
  | e261
  /-- An inline comment does not start with a number sign and one space. -/
  | e262
  /-- No blank line in front of a method. -/
  | e301
  /-- Not two blank lines in front of a definition. -/
  | e302
  /-- Too many blank lines. -/
  | e303
  /-- Blank lines behind a decorator. -/
  | e304
  /-- Several imports on one line. -/
  | e401
  /-- A line is too long. -/
  | e501
  /-- A statement behind a colon. -/
  | e701
  /-- A statement behind a semicolon. -/
  | e702
  /-- Indentation holds tabs. -/
  | w191
  /-- White space at the end of a line. -/
  | w291
  /-- No newline at the end of the file. -/
  | w292
  /-- White space on a blank line. -/
  | w293
  /-- A blank line at the end of the file. -/
  | w391
  /-- A removed method of dictionaries. -/
  | w601
  /-- A removed form of raising an exception. -/
  | w602
  /-- A removed inequality operator. -/
  | w603
  /-- Removed backticks. -/
  | w604
  deriving Repr, DecidableEq, BEq

namespace Code

/-- The code as it is written in reports and settings. -/
def text : Code → String
  | .e101 => "E101" | .e111 => "E111" | .e112 => "E112" | .e113 => "E113"
  | .e201 => "E201" | .e202 => "E202" | .e203 => "E203" | .e211 => "E211"
  | .e221 => "E221" | .e222 => "E222" | .e223 => "E223" | .e224 => "E224"
  | .e225 => "E225" | .e231 => "E231" | .e241 => "E241" | .e242 => "E242"
  | .e251 => "E251" | .e261 => "E261" | .e262 => "E262"
  | .e301 => "E301" | .e302 => "E302" | .e303 => "E303" | .e304 => "E304"
  | .e401 => "E401" | .e501 => "E501" | .e701 => "E701" | .e702 => "E702"
  | .w191 => "W191" | .w291 => "W291" | .w292 => "W292" | .w293 => "W293"
  | .w391 => "W391"
  | .w601 => "W601" | .w602 => "W602" | .w603 => "W603" | .w604 => "W604"

/-- The place of a code in the order of the texts. -/
def rank (c : Code) : Nat := c.ctorIdx

end Code

end StyleGuide
