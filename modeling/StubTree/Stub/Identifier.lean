/-! # Identifiers of stubs

A name that the language of the stubs keeps for itself gets an underscore behind it.
-/

namespace StubTree.Stub

/-- The words that no declaration may use as a name. -/
def keywords : List String :=
  ["False", "None", "True", "and", "as", "assert", "async", "await", "break", "class",
    "continue", "def", "del", "elif", "else", "except", "finally", "for", "from", "global",
    "if", "import", "in", "is", "lambda", "nonlocal", "not", "or", "pass", "raise", "return",
    "try", "while", "with", "yield"]

/-- A name that can stand in a declaration. -/
def identifier (name : String) : String :=
  if name ∈ keywords then name ++ "_" else name

end StubTree.Stub
