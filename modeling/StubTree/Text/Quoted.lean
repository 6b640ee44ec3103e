import StubTree.Text.Printable

/-! # Quoted text

A quoted text stands between quotes on one line and shows every character: line breaks, tabs,
the quote in use and everything unprintable are written as escapes.
-/

namespace StubTree.Text

/-- The digits of `n` in base sixteen, with zeros in front up to a width. -/
def hex (width n : Nat) : List Char :=
  let ds := Nat.toDigits 16 n
  List.replicate (width - ds.length) '0' ++ ds

/-- An escape that gives the number of a character in two, four or eight digits. -/
def numericEscape (n : Nat) : List Char :=
  if n < 0x100 then '\\' :: 'x' :: hex 2 n
  else if n < 0x10000 then '\\' :: 'u' :: hex 4 n
  else '\\' :: 'U' :: hex 8 n

/-- One character between quotes of the given kind. -/
def quotedChar (mark c : Char) : List Char :=
  if c == mark || c == '\\' then ['\\', c]
  else if c == '\t' then ['\\', 't']
  else if c == '\n' then ['\\', 'n']
  else if c == '\r' then ['\\', 'r']
  else if isPrintable c then [c]
  else numericEscape c.toNat

/-- Double quotes are used for a text with single quotes and no double ones. -/
def quoteMark (cs : List Char) : Char :=
  if cs.contains '\'' && !cs.contains '"' then '"' else '\''

/-- A text between quotes. -/
def quoted (s : String) : String :=
  let mark := quoteMark s.toList
  String.ofList (mark :: s.toList.flatMap (quotedChar mark) ++ [mark])

/-- Bytes between quotes, with a `b` in front; only plain ASCII is shown as itself. -/
def quotedBytes (bytes : List UInt8) : String :=
  let cs := bytes.map fun b => Char.ofNat b.toNat
  let mark := quoteMark cs
  let escaped := cs.flatMap fun c =>
    if c.toNat < 0x80 then quotedChar mark c else numericEscape c.toNat
  String.ofList ('b' :: mark :: escaped ++ [mark])

end StubTree.Text
