import StubTree.Document.Text

/-! # Documents as JSON

A document is written over several lines, four columns deeper at each level, in ASCII.
Scalar keys are written as texts; no other key can be written.
-/

namespace StubTree.Document.Json

def escapedChar (c : Char) : List Char :=
  let n := c.toNat
  if c == '"' || c == '\\' then ['\\', c]
  else if c == '\n' then ['\\', 'n']
  else if c == '\r' then ['\\', 'r']
  else if c == '\t' then ['\\', 't']
  else if n == 0x08 then ['\\', 'b']
  else if n == 0x0C then ['\\', 'f']
  else if 0x20 ≤ n && n ≤ 0x7E then [c]
  else if n < 0x10000 then '\\' :: 'u' :: Text.hex 4 n
  else
    let m := n - 0x10000
    '\\' :: 'u' :: Text.hex 4 (0xD800 + m / 0x400) ++ '\\' :: 'u' :: Text.hex 4 (0xDC00 + m % 0x400)

def textToken (s : String) : String :=
  String.ofList ('"' :: s.toList.flatMap escapedChar ++ ['"'])

/-- A number, or the word for what is none. -/
def floatToken : Number.Binary64 → String
  | .infinite negative => if negative then "-Infinity" else "Infinity"
  | .nan => "NaN"
  | x => x.text

/-- The token of a scalar. A date has none of its own and is written as text. -/
def scalarToken? : Document → Option String
  | null => some "null"
  | bool b => some (if b then "true" else "false")
  | int i => some (Number.intText i)
  | float x => some (floatToken x)
  | text s => some (textToken s)
  | date d => some (textToken d.text)
  | _ => none

/-- The text of a key, if it can be one. -/
def keyText? : Document → Option String
  | text s => some s
  | date _ => none
  | d => scalarToken? d

def newline (level : Nat) : String :=
  String.ofList ('\n' :: List.replicate (4 * level) ' ')

/-- Items between brackets, one to a line. -/
def block (opening closing : String) (level : Nat) (items : List String) : String :=
  if items.isEmpty then opening ++ closing
  else opening ++ newline (level + 1) ++ ("," ++ newline (level + 1)).intercalate items
    ++ newline level ++ closing

mutual

/-- The text of a document at a level, unless a key in it cannot be written. -/
def write? (level : Nat) : Document → Option String
  | list items => return block "[" "]" level (← writeItems? (level + 1) items)
  | mapping entries => return block "\x7b" "\x7d" level (← writeEntries? (level + 1) entries)
  | d => scalarToken? d

def writeItems? (level : Nat) : List Document → Option (List String)
  | [] => some []
  | d :: rest => return (← write? level d) :: (← writeItems? level rest)

def writeEntries? (level : Nat) : List (Document × Document) → Option (List String)
  | [] => some []
  | (k, v) :: rest => do
    let key ← keyText? k
    return (textToken key ++ ": " ++ (← write? level v)) :: (← writeEntries? level rest)

end

end StubTree.Document.Json
