import StubTree.Text.Blank

/-! # Lines

A text is cut into lines after every line boundary. Indenting puts a margin before every
line that shows something; blank lines stay as they are.
-/

namespace StubTree.Text

/-- The characters that end a line. -/
def isLineBoundary (c : Char) : Bool :=
  let n := c.toNat
  (0x0A ≤ n && n ≤ 0x0D) || (0x1C ≤ n && n ≤ 0x1E) || n == 0x85 || n == 0x2028 || n == 0x2029

/-- The lines of a text, each with its boundary; a carriage return and the line feed after
it are one boundary. -/
def linesWithEnds : List Char → List (List Char)
  | [] => []
  | [c] => [[c]]
  | c :: d :: rest =>
    let later := linesWithEnds (d :: rest)
    if isLineBoundary c && !(c == '\r' && d == '\n') then [c] :: later
    else match later with
      | [] => [[c]]
      | line :: lines => (c :: line) :: lines

/-- Puts `margin` before every line that holds more than blanks. -/
def indent (margin : String) (s : String) : String :=
  String.ofList <| (linesWithEnds s.toList).flatMap fun line =>
    if line.all isBlank then line else margin.toList ++ line

/-- Every line ending is written as one line feed. -/
def unifyNewlines : List Char → List Char
  | [] => []
  | '\r' :: '\n' :: rest => '\n' :: unifyNewlines rest
  | c :: rest => (if c == '\r' then '\n' else c) :: unifyNewlines rest

end StubTree.Text
