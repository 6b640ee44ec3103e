/-! # Characters of YAML

Which characters a stream may hold, and which of them end lines and separate tokens. The end
of the stream separates tokens as well, so the tests take an optional character.
-/

namespace StubTree.Yaml

/-- A character that a stream may hold. -/
def isAllowed (c : Char) : Bool :=
  let n := c.toNat
  n == 0x09 || n == 0x0A || n == 0x0D || (0x20 ≤ n && n ≤ 0x7E) || n == 0x85 ||
    (0xA0 ≤ n && n ≤ 0xFFFD) || 0x10000 ≤ n

def isBreak (c : Char) : Bool :=
  c == '\n' || c.toNat == 0x85 || c.toNat == 0x2028 || c.toNat == 0x2029

def isSpace (c : Char) : Bool :=
  c == ' ' || c == '\t'

/-- The end of a line or of the stream. -/
def endsLine : Option Char → Bool
  | none => true
  | some c => isBreak c

/-- The end of a line or a space, but no tab. -/
def endsWord : Option Char → Bool
  | none => true
  | some c => isBreak c || c == ' '

/-- The end of a line, a space or a tab. -/
def isGap : Option Char → Bool
  | none => true
  | some c => isBreak c || isSpace c

/-- A character of the name of an anchor, a directive or a tag handle. -/
def isWordChar (c : Char) : Bool :=
  c.isAlphanum || c == '-' || c == '_'

/-- The text that a line break stands for in a scalar. -/
def breakText (c : Char) : Char :=
  if c.toNat == 0x85 then '\n' else c

/-- A byte order mark. It takes no room on its line. -/
def isByteOrderMark (c : Char) : Bool :=
  c.toNat == 0xFEFF

end StubTree.Yaml
