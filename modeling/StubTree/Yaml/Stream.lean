import StubTree.Text.Lines
import StubTree.Text.Utf8
import StubTree.Yaml.Character
import StubTree.Yaml.Fault

/-! # Streams

A stream is the part of a text that can be read, and what keeps the rest from being read. A
text in memory is checked as a whole. A file is read in pieces of 4096 characters, two for a
start, so that what is wrong with a later piece counts only once the pieces before it are used
up.
-/

namespace StubTree.Yaml

/-- The characters that can be read, and the fault that is met behind them, if any is. -/
structure Stream where
  text : List Char
  stop : Option YamlFault := none

namespace Stream

/-- The stream of a text in memory. -/
def ofText (s : String) : Stream :=
  let text := Text.unifyNewlines s.toList
  if text.all isAllowed then ⟨text, none⟩ else ⟨[], some .malformed⟩

/-- The number of characters in a piece. -/
def pieceSize : Nat := 4096

/-- The number of characters that are read before the `n`-th one is looked at: whole pieces, and
no less than two. -/
def readBefore (n : Nat) : Nat :=
  if n < 2 * pieceSize then 0 else n / pieceSize * pieceSize

/-- The stream of characters of which one may not be allowed. The piece that holds it is not
read. -/
def checked (text : List Char) (stop : Option YamlFault) : Stream :=
  match text.findIdx? (!isAllowed ·) with
  | none => ⟨text, stop⟩
  | some n => ⟨text.take (readBefore n), some .malformed⟩

/-- What has been taken from a file: bytes, the characters they gave, and both for the last step
alone. -/
structure Intake where
  taken : Nat := 0
  got : Nat := 0
  lastTaken : Nat := 0
  lastGot : Nat := 0

/-- The least number of bytes that are asked for at once. -/
def gulpSize : Nat := 8192

/-- The number of bytes that are asked for to get so many characters. The last step tells how
many bytes a character takes. -/
def Intake.gulp (i : Intake) (wanted : Nat) : Nat :=
  max gulpSize (if i.lastGot == 0 then wanted else max wanted (i.lastTaken * wanted / i.lastGot))

/-- The number of pieces that are read before the byte `wrong` of a file of `size` bytes shows.
`ends` gives for each character the number of bytes up to its end. -/
def piecesBefore (ends : List Nat) (size wrong : Nat) : Nat → Nat → Intake → Nat
  | 0, pieces, _ => pieces
  | fuel + 1, pieces, i =>
    let goal := (pieces + 1) * pieceSize
    if goal ≤ i.got then piecesBefore ends size wrong fuel (pieces + 1) i
    else
      let taken := min size (i.taken + i.gulp (goal - i.got))
      if wrong < taken || taken == i.taken then pieces
      else
        let got := (ends.takeWhile (· ≤ taken)).length
        piecesBefore ends size wrong fuel pieces ⟨taken, got, taken - i.taken, got - i.got⟩

/-- The stream of a file. -/
def ofBytes (bytes : ByteArray) : Stream :=
  match String.fromUTF8? bytes with
  | some s => checked (Text.unifyNewlines s.toList) none
  | none =>
    let (chars, wrong) := Text.spelled (bytes.size + 1) 0 bytes.toList
    let chars := Text.unifySpelled chars
    let pieces := piecesBefore (chars.map (·.stop)) bytes.size (wrong.getD 0) (bytes.size + 1) 0 {}
    let readable := if pieces < 2 then 0 else pieces * pieceSize
    checked ((chars.map (·.char)).take readable) (some .notUnicode)

end Stream

end StubTree.Yaml
