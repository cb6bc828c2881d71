import StyleGuide.Token

/-! # Keywords

The reserved words of the language in all its versions, and what depends on them.
-/

namespace StyleGuide

/-- The reserved words. -/
def keywords : List String :=
  ["False", "None", "True", "and", "as", "assert", "async", "await", "break", "class",
    "continue", "def", "del", "elif", "else", "except", "exec", "finally", "for", "from",
    "global", "if", "import", "in", "is", "lambda", "nonlocal", "not", "or", "pass", "print",
    "raise", "return", "try", "while", "with", "yield"]

/-- Whether the text is a reserved word. -/
def isKeyword (text : Text) : Bool := keywords.any fun word => word.toList == text

/-- Whether the text is a reserved word that stands for a value. -/
def isConstant (text : Text) : Bool :=
  ["False", "None", "True"].any fun word => word.toList == text

/-- The content tokens that spacing rules look at. -/
def isSpaced (t : Token) : Bool := t.isContent && t.kind != .stray

end StyleGuide
