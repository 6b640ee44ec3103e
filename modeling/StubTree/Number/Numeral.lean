import StubTree.Text.Blank

/-! # Numerals of all scripts

A numeral may be written with the decimal digits of any script. Each of them stands for the
ASCII digit of its value, and blanks outside ASCII stand for spaces.
-/

namespace StubTree.Number

/-- The zeros of the scripts outside ASCII. -/
def foreignZeros : List Nat :=
  [0x660, 0x6F0, 0x7C0, 0x966, 0x9E6, 0xA66, 0xAE6, 0xB66, 0xBE6, 0xC66, 0xCE6, 0xD66,
   0xDE6, 0xE50, 0xED0, 0xF20, 0x1040, 0x1090, 0x17E0, 0x1810, 0x1946, 0x19D0, 0x1A80, 0x1A90,
   0x1B50, 0x1BB0, 0x1C40, 0x1C50, 0xA620, 0xA8D0, 0xA900, 0xA9D0, 0xA9F0, 0xAA50, 0xABF0,
   0xFF10, 0x104A0, 0x10D30, 0x11066, 0x110F0, 0x11136, 0x111D0, 0x112F0, 0x11450, 0x114D0,
   0x11650, 0x116C0, 0x11730, 0x118E0, 0x11950, 0x11C50, 0x11D50, 0x11DA0, 0x16A60, 0x16AC0,
   0x16B50, 0x1D7CE, 0x1D7D8, 0x1D7E2, 0x1D7EC, 0x1D7F6, 0x1E140, 0x1E2F0, 0x1E950, 0x1FBF0]

/-- The zeros of all scripts. The other digits of a script follow its zero. -/
def scriptZeros : List Nat := 0x30 :: foreignZeros

/-- The value of a decimal digit. -/
def decimalValue? (c : Char) : Option Nat :=
  (scriptZeros.find? fun z => z ≤ c.toNat && c.toNat < z + 10).map (c.toNat - ·)

/-- The ASCII character that stands for a character of a numeral. A question mark stands for
what no numeral holds. -/
def asciiOf (c : Char) : Char :=
  if c.toNat < 0x7F then c
  else if Text.isBlank c then ' '
  else match decimalValue? c with
    | some n => Char.ofNat ('0'.toNat + n)
    | none => '?'

def isAsciiBlank (c : Char) : Bool :=
  c == ' ' || (0x09 ≤ c.toNat && c.toNat ≤ 0x0D)

/-- A numeral in ASCII, without the blanks around it. -/
def asciiNumeral (cs : List Char) : List Char :=
  (((cs.map asciiOf).dropWhile isAsciiBlank).reverse.dropWhile isAsciiBlank).reverse

end StubTree.Number
