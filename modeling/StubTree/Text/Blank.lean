/-! # Blank characters

The blanks are the characters that separate or surround words: the white space of
Unicode and the four information separators. Names and type references are kept
without the blanks around them.
-/

namespace StubTree.Text

/-- White space, or one of the information separators U+001C to U+001F. -/
def isBlank (c : Char) : Bool :=
  let n := c.toNat
  (0x09 ≤ n && n ≤ 0x0D) || (0x1C ≤ n && n ≤ 0x20) || n == 0x85 || n == 0xA0 || n == 0x1680 ||
    (0x2000 ≤ n && n ≤ 0x200A) || n == 0x2028 || n == 0x2029 || n == 0x202F || n == 0x205F ||
    n == 0x3000

/-- The characters that are left once the blanks at the end are gone. -/
def trimEnd (cs : List Char) : List Char :=
  (cs.reverse.dropWhile isBlank).reverse

/-- The characters that are left once the blanks at both ends are gone. -/
def trim (cs : List Char) : List Char :=
  trimEnd (cs.dropWhile isBlank)

def strip (s : String) : String :=
  String.ofList (trim s.toList)

end StubTree.Text
