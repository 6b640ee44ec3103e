import StubTree.Yaml.Character
import StubTree.Yaml.Fault

/-! # Tokens of YAML

A stream is a row of tokens. The nesting that indentation expresses has tokens of its own,
and so have the keys of mappings.
-/

namespace StubTree.Yaml

/-- A tag as it is written: a handle that stands for a longer text, and what follows it. A
tag without a handle is given in full. -/
structure WrittenTag where
  handle : Option String
  rest : String
  deriving DecidableEq, Repr

/-- A token. A `slot` holds the place of a key that may or may not start there, and `broken` is
the place where a stream cannot be read on. -/
inductive Token where
  | slot (id : Nat)
  | version (major : Nat)
  | handle (name meaning : String)
  | directive
  | documentStart
  | documentEnd
  | blockSequenceStart
  | blockMappingStart
  | blockEnd
  | flowSequenceStart
  | flowSequenceEnd
  | flowMappingStart
  | flowMappingEnd
  | blockEntry
  | flowEntry
  | key
  | value
  | alias (name : String)
  | anchor (name : String)
  | tag (written : WrittenTag)
  | scalar (text : String) (isPlain : Bool)
  | broken (cause : YamlFault)
  deriving DecidableEq, Repr

/-- A place in a stream: what is still to be read, and how far it is from the start of the
stream and of the line. -/
structure Cursor where
  rest : List Char
  index : Nat := 0
  line : Nat := 0
  column : Nat := 0

namespace Cursor

def peek (c : Cursor) (k : Nat) : Option Char := c.rest[k]?

def next (c : Cursor) : Cursor :=
  match c.rest with
  | [] => c
  | x :: rest =>
    if isBreak x then ⟨rest, c.index + 1, c.line + 1, 0⟩
    else if isByteOrderMark x then ⟨rest, c.index + 1, c.line, c.column⟩
    else ⟨rest, c.index + 1, c.line, c.column + 1⟩

/-- The place `k` characters ahead. -/
def advance (c : Cursor) : Nat → Cursor
  | 0 => c
  | k + 1 => c.next.advance k

/-- The characters ahead that pass a test, and the place after them. -/
def span (c : Cursor) (p : Char → Bool) : List Char × Cursor :=
  let run := c.rest.takeWhile p
  (run, c.advance run.length)

def skip (c : Cursor) (p : Char → Bool) : Cursor := (c.span p).2

def skipSpaces (c : Cursor) : Cursor := c.skip (· == ' ')

def skipLine (c : Cursor) : Cursor := c.skip (!isBreak ·)

/-- Three dashes or three dots that stand alone: the mark of a document's start or end. -/
def atMark (c : Cursor) (x : Char) : Bool :=
  c.peek 0 == some x && c.peek 1 == some x && c.peek 2 == some x && isGap (c.peek 3)

def atAnyMark (c : Cursor) : Bool := c.atMark '-' || c.atMark '.'

/-- What the line break ahead stands for, if one is there, and the place after it. -/
def lineBreak (c : Cursor) : List Char × Cursor :=
  match c.peek 0 with
  | some x => if isBreak x then ([breakText x], c.next) else ([], c)
  | none => ([], c)

end Cursor

end StubTree.Yaml
