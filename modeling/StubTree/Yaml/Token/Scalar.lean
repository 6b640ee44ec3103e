import StubTree.Number.Reading
import StubTree.Yaml.Token

/-! # Scalars of YAML

The four ways to write a scalar: plain, between single or double quotes, and as a block that
keeps or folds its lines. Lines are folded by one rule: a single break becomes a space, and of
several breaks the first is dropped. The functions that go over several lines take the number
of steps they may make; the number of characters ahead is always enough.
-/

namespace StubTree.Yaml

/-- What a break and the breaks after it become when lines are folded. -/
def fold (first : List Char) (later : List Char) : List Char :=
  if first != ['\n'] then first ++ later
  else if later.isEmpty then [' '] else later

namespace Quoted

/-- The breaks of empty lines between the lines of a quoted scalar. No document may start or
end inside it. -/
def breaks : Nat → Cursor → Except YamlFault (List Char × Cursor)
  | 0, c => .ok ([], c)
  | fuel + 1, c =>
    if c.atAnyMark then .error .malformed
    else
      let c := c.skip isSpace
      match c.lineBreak with
      | ([], c) => .ok ([], c)
      | (first, c) => do
        let (later, c) ← breaks fuel c
        return (first ++ later, c)

/-- Spaces and line breaks inside a quoted scalar. Spaces around a break are dropped. -/
def gap (fuel : Nat) (c : Cursor) : Except YamlFault (List Char × Cursor) := do
  let (spaces, c) := c.span isSpace
  match c.lineBreak with
  | ([], c) => if c.rest.isEmpty then .error .unfinished else return (spaces, c)
  | (first, c) =>
    let (later, c) ← breaks fuel c
    return (fold first later, c)

/-- The escapes that name a character by a letter. -/
def namedEscape? : Char → Option Nat
  | '0' => some 0x00
  | 'a' => some 0x07
  | 'b' => some 0x08
  | 't' => some 0x09
  | '\t' => some 0x09
  | 'n' => some 0x0A
  | 'v' => some 0x0B
  | 'f' => some 0x0C
  | 'r' => some 0x0D
  | 'e' => some 0x1B
  | ' ' => some 0x20
  | '"' => some 0x22
  | '\\' => some 0x5C
  | '/' => some 0x2F
  | 'N' => some 0x85
  | '_' => some 0xA0
  | 'L' => some 0x2028
  | 'P' => some 0x2029
  | _ => none

/-- The escapes that name a character by its number, and how many digits that has. -/
def digitsAfter? : Char → Option Nat
  | 'x' => some 2
  | 'u' => some 4
  | 'U' => some 8
  | _ => none

/-- The character with a number. The numbers that are kept for pairs have no character of their own,
and the replacement character stands for them, for want of texts that hold half a pair. -/
def charOf (n : Nat) : Except YamlFault Char :=
  if 0x80000000 ≤ n then .error .hugeCharacter
  else if 0x110000 ≤ n then .error .badCharacter
  else if 0xD800 ≤ n && n ≤ 0xDFFF then .ok (Char.ofNat 0xFFFD)
  else .ok (Char.ofNat n)

/-- The escape whose backslash has just been read. -/
def escape (fuel : Nat) (c : Cursor) : Except YamlFault (List Char × Cursor) :=
  match c.peek 0 with
  | none => .error .unfinished
  | some x =>
    match namedEscape? x, digitsAfter? x with
    | some n, _ => .ok ([Char.ofNat n], c.next)
    | none, some width =>
      let digits := c.next.rest.take width
      match Number.readDigits? 16 digits with
      | some n =>
        if digits.length < width then .error .unfinished
        else do return ([← charOf n], c.next.advance width)
      | none => .error (if digits.isEmpty then .unfinished else .malformed)
    | none, none =>
      if isBreak x then breaks fuel c.next else .error .malformed

/-- The rest of a quoted scalar, up to and including the closing quote. -/
def body (mark : Char) : Nat → Cursor → Except YamlFault (List Char × Cursor)
  | 0, _ => .error .malformed
  | fuel + 1, c =>
    match c.peek 0 with
    | none => .error .unfinished
    | some x =>
      if x == mark then
        -- Two single quotes stand for one.
        if mark == '\'' && c.peek 1 == some '\'' then do
          let (later, c) ← body mark fuel (c.advance 2)
          return ('\'' :: later, c)
        else .ok ([], c.next)
      else do
        let (first, c) ←
          if mark == '"' && x == '\\' then escape fuel c.next
          else if isGap (some x) then gap fuel c
          else pure ([x], c.next)
        let (later, c) ← body mark fuel c
        return (first ++ later, c)

end Quoted

/-- A quoted scalar, from its opening quote on. -/
def quotedScalar (fuel : Nat) (mark : Char) (c : Cursor) : Except YamlFault (Token × Cursor) := do
  let (text, c) ← Quoted.body mark fuel c.next
  return (.scalar (String.ofList text) false, c)

namespace Plain

/-- Whether a plain scalar ends before a character, given the character after it. -/
def stops (inFlow : Bool) (x : Char) (after : Option Char) : Bool :=
  isGap (some x)
    || (x == ':' && (isGap after || (inFlow && after.any ",[]\x7b\x7d".toList.contains)))
    || (inFlow && ",?[]\x7b\x7d".toList.contains x)

/-- The length of the part of a plain scalar on one line without spaces. -/
def runLength (inFlow : Bool) : List Char → Nat
  | [] => 0
  | x :: rest => if stops inFlow x rest.head? then 0 else runLength inFlow rest + 1

/-- The empty lines after a break, and whether a document's mark follows. -/
def emptyLines : Nat → Cursor → List Char × Bool × Cursor
  | 0, c => ([], false, c)
  | fuel + 1, c =>
    if c.atAnyMark then ([], true, c)
    else
      let c := c.skipSpaces
      match c.lineBreak with
      | ([], c) => ([], false, c)
      | (first, c) =>
        let (later, atMark, c) := emptyLines fuel c
        (first ++ later, atMark, c)

/-- The spaces or folded breaks after a part of a plain scalar, and whether a break was among
them. Nothing is given where the scalar cannot go on. -/
def gap (fuel : Nat) (c : Cursor) : List Char × Bool × Cursor :=
  let (spaces, c) := c.span (· == ' ')
  match c.lineBreak with
  | ([], c) => (spaces, false, c)
  | (first, c) =>
    let (later, atMark, c) := emptyLines fuel c
    (if atMark then [] else fold first later, true, c)

/-- The parts of a plain scalar after some `space`, whether it went over a line break after its
last part, and the place where it was given up. -/
def body (inFlow : Bool) (indent : Int) : Nat → List Char → Bool → Cursor →
    List Char × Bool × Cursor
  | 0, _, broke, c => ([], broke, c)
  | fuel + 1, space, broke, c =>
    let length := if c.peek 0 == some '#' then 0 else runLength inFlow c.rest
    if length == 0 then ([], broke, c)
    else
      let part := space ++ c.rest.take length
      let (later, broke, c) := gap fuel (c.advance length)
      -- The scalar ends here; the break that was crossed still counts for what follows.
      if later.isEmpty || c.peek 0 == some '#' || (!inFlow && c.column < indent) then
        (part, broke, c)
      else
        let (others, broke, c) := body inFlow indent fuel later broke c
        (part ++ others, broke, c)

end Plain

/-- A plain scalar whose later lines have to be indented by `indent`, and whether a line break
was crossed after its last part. -/
def plainScalar (fuel : Nat) (inFlow : Bool) (indent : Int) (c : Cursor) :
    (Token × Bool) × Cursor :=
  let (text, broke, c) := Plain.body inFlow indent fuel [] false c
  ((.scalar (String.ofList text) true, broke), c)

namespace Block

/-- What happens to the breaks after the last line of a block. -/
inductive Ending where
  | strip
  | clip
  | keep
  deriving DecidableEq

def ending? : Option Char → Option Ending
  | some '+' => some .keep
  | some '-' => some .strip
  | _ => none

/-- A digit in the header of a block; zero is not allowed. -/
def depth? (c : Cursor) : Except YamlFault (Option Nat) :=
  match (c.peek 0).bind fun x => Number.digitValue? 10 x with
  | none => .ok none
  | some 0 => .error .malformed
  | some n => .ok (some n)

/-- The ending and the indentation that the header of a block gives, in either order. -/
def header (c : Cursor) : Except YamlFault ((Ending × Option Nat) × Cursor) := do
  let (first, c) := match ending? (c.peek 0) with
    | some e => (some e, c.next)
    | none => (none, c)
  let depth ← depth? c
  let c := if depth.isSome then c.next else c
  let (second, c) := match if first.isNone && depth.isSome then ending? (c.peek 0) else none with
    | some e => (some e, c.next)
    | none => (none, c)
  if endsWord (c.peek 0) then return (((first <|> second).getD .clip, depth), c)
  else throw .malformed

/-- The end of a line that may hold spaces and a comment, and nothing else. -/
def restOfLine (c : Cursor) : Except YamlFault Cursor :=
  let c := c.skipSpaces
  let c := if c.peek 0 == some '#' then c.skipLine else c
  if endsLine (c.peek 0) then .ok c.lineBreak.2 else .error .malformed

/-- Spaces up to a column. -/
def margin (indent : Nat) : Nat → Cursor → Cursor
  | 0, c => c
  | fuel + 1, c =>
    if c.column < indent && c.peek 0 == some ' ' then margin indent fuel c.next else c

/-- The empty lines before a line of the block, up to its indentation. -/
def emptyLines (indent : Nat) : Nat → Cursor → List Char × Cursor
  | 0, c => ([], c)
  | fuel + 1, c =>
    let c := margin indent indent c
    match c.lineBreak with
    | ([], c) => ([], c)
    | (first, c) =>
      let (later, c) := emptyLines indent fuel c
      (first ++ later, c)

/-- The empty lines at the start of a block that does not give its indentation, and the
greatest column reached in them. -/
def leadingLines : Nat → Nat → Cursor → List Char × Nat × Cursor
  | 0, deepest, c => ([], deepest, c)
  | fuel + 1, deepest, c =>
    let c := c.skipSpaces
    let deepest := max deepest c.column
    match c.lineBreak with
    | ([], c) => ([], deepest, c)
    | (first, c) =>
      let (later, deepest, c) := leadingLines fuel deepest c
      (first ++ later, deepest, c)

/-- The lines of a block after the breaks `before`: their text, the break after the last line
and the breaks after that. -/
def lines (folded : Bool) (indent : Nat) : Nat → List Char → List Char → Cursor →
    (List Char × List Char × List Char) × Cursor
  | 0, pending, before, c => (([], pending, before), c)
  | fuel + 1, pending, before, c =>
    if c.column != indent || c.rest.isEmpty then (([], pending, before), c)
    else
      -- Lines that start with a space keep their breaks.
      let flush := !(c.peek 0).any isSpace
      let (text, c) := c.span (!isBreak ·)
      let (newline, c) := c.lineBreak
      let (after, c) := emptyLines indent fuel c
      if c.column != indent || c.rest.isEmpty then ((before ++ text, newline, after), c)
      else
        let joint :=
          if folded && newline == ['\n'] && flush && !(c.peek 0).any isSpace then
            if after.isEmpty then [' '] else []
          else newline
        let ((later, last, trailing), c) := lines folded indent fuel newline after c
        ((before ++ text ++ joint ++ later, last, trailing), c)

end Block

/-- A block scalar inside a collection indented by `outer`, from its indicator on. -/
def blockScalar (fuel : Nat) (folded : Bool) (outer : Int) (c : Cursor) :
    Except YamlFault (Token × Cursor) := do
  let ((ending, depth), c) ← Block.header c.next
  let c ← Block.restOfLine c
  let least := (max (outer + 1) 1).toNat
  let (indent, before, c) := match depth with
    | some n =>
      let (before, c) := Block.emptyLines (least + n - 1) fuel c
      (least + n - 1, before, c)
    | none =>
      let (before, deepest, c) := Block.leadingLines fuel 0 c
      (max least deepest, before, c)
  let ((text, last, trailing), c) := Block.lines folded indent fuel [] before c
  let text := match ending with
    | .strip => text
    | .clip => text ++ last
    | .keep => text ++ last ++ trailing
  return (.scalar (String.ofList text) false, c)

end StubTree.Yaml
