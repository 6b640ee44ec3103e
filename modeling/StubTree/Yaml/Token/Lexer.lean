import StubTree.Keyed
import StubTree.Yaml.Stream
import StubTree.Yaml.Token.Property
import StubTree.Yaml.Token.Scalar

/-! # From characters to tokens

Outside brackets, indentation opens and closes collections. A mapping whose key stands before
its colon is noticed at the colon only, so every place where such a key may start keeps a
slot in the row of tokens, which the colon fills. A key and its colon stand on one line and
not more than 1024 characters apart.

A fault that is not one of form counts only if the tokens before it make sense. It becomes a
token of its own, at the first place that waits for a colon.
-/

namespace StubTree.Yaml

/-- A place where a key may have started. -/
structure PossibleKey where
  slot : Nat
  required : Bool
  index : Nat
  line : Nat
  column : Nat

/-- The state of the lexer. `indent` is the column of the innermost collection outside
brackets, `outer` the columns of those around it. Tokens are kept last first. -/
structure Lexer where
  cursor : Cursor
  depth : Nat := 0
  indent : Int := -1
  outer : List Int := []
  keyAllowed : Bool := true
  keys : Keyed Nat PossibleKey := []
  slots : Nat := 0
  filled : Keyed Nat (List Token) := []
  tokens : List Token := []

namespace Lexer

def inFlow (s : Lexer) : Bool := s.depth != 0

def emit (s : Lexer) (t : Token) : Lexer := { s with tokens := t :: s.tokens }

def moveTo (s : Lexer) (c : Cursor) : Lexer := { s with cursor := c }

def allowKey (s : Lexer) (allowed : Bool) : Lexer := { s with keyAllowed := allowed }

/-- Skips spaces, comments and line breaks. Outside brackets a key may start a line. -/
def skipToToken : Nat → Lexer → Lexer
  | 0, s => s
  | fuel + 1, s =>
    let c := s.cursor.skipSpaces
    let c := if c.peek 0 == some '#' then c.skipLine else c
    match c.lineBreak with
    | ([], c) => s.moveTo c
    | (_, c) => skipToToken fuel ((s.moveTo c).allowKey (s.keyAllowed || !s.inFlow))

/-- A key that cannot have its colon any more: the line is over, or too long. -/
def isStale (c : Cursor) (k : PossibleKey) : Bool :=
  k.line != c.line || c.index > k.index + 1024

/-- Forgets the keys that cannot have their colon any more. -/
def dropStaleKeys (s : Lexer) : Except YamlFault Lexer :=
  if s.keys.any fun (_, k) => isStale s.cursor k && k.required then .error .malformed
  else .ok { s with keys := s.keys.filter fun (_, k) => !isStale s.cursor k }

def dropKey (s : Lexer) : Except YamlFault Lexer :=
  match s.keys.get? s.depth with
  | none => .ok s
  | some k => if k.required then .error .malformed else .ok { s with keys := s.keys.erase s.depth }

def noteKey (s : Lexer) : Except YamlFault Lexer := do
  if !s.keyAllowed then return s
  -- At the column of a block mapping nothing but a key can stand.
  let required := !s.inFlow && s.indent == s.cursor.column
  let s ← s.dropKey
  let key : PossibleKey := ⟨s.slots, required, s.cursor.index, s.cursor.line, s.cursor.column⟩
  return { s with
    keys := s.keys.set s.depth key
    slots := s.slots + 1
    tokens := .slot s.slots :: s.tokens }

/-- Closes the collections that are indented deeper than a column. -/
def closeTo (column : Int) : List Int → Lexer → Lexer
  | [], s => s
  | below :: rest, s =>
    if column < s.indent then
      closeTo column rest { s with indent := below, outer := rest, tokens := .blockEnd :: s.tokens }
    else s

/-- Closes the collections that the next token, by its column, does not belong to. -/
def unwind (s : Lexer) (column : Int) : Lexer :=
  if s.inFlow then s else closeTo column s.outer s

/-- Opens a collection at a column unless one is open there. -/
def openAt (s : Lexer) (column : Nat) : Bool × Lexer :=
  if s.indent < column then (true, { s with indent := column, outer := s.indent :: s.outer })
  else (false, s)

/-- Opens a collection where the cursor is, with a token for its start. -/
def openHere (s : Lexer) (start : Token) : Lexer :=
  match s.openAt s.cursor.column with
  | (true, s) => s.emit start
  | (false, s) => s

def finish (s : Lexer) : Except YamlFault Lexer := (s.unwind (-1)).dropKey

/-- A directive. It ends every open collection. -/
def readDirective (s : Lexer) : Except YamlFault Lexer := do
  let s ← (s.unwind (-1)).dropKey
  let (token, c) ← directive s.cursor
  return ((s.moveTo c).allowKey false).emit token

def readMark (s : Lexer) (token : Token) : Except YamlFault Lexer := do
  let s ← (s.unwind (-1)).dropKey
  return ((s.moveTo (s.cursor.advance 3)).allowKey false).emit token

def openFlow (s : Lexer) (token : Token) : Except YamlFault Lexer := do
  let s ← s.noteKey
  return (({ s with depth := s.depth + 1 }.moveTo s.cursor.next).allowKey true).emit token

def closeFlow (s : Lexer) (token : Token) : Except YamlFault Lexer := do
  let s ← s.dropKey
  if s.depth == 0 then throw .malformed
  return (({ s with depth := s.depth - 1 }.moveTo s.cursor.next).allowKey false).emit token

def readComma (s : Lexer) : Except YamlFault Lexer := do
  let s ← s.dropKey
  return ((s.moveTo s.cursor.next).allowKey true).emit .flowEntry

/-- The dash before an item. -/
def readDash (s : Lexer) : Except YamlFault Lexer := do
  if !s.inFlow && !s.keyAllowed then throw .malformed
  let s := if s.inFlow then s else s.openHere .blockSequenceStart
  let s ← (s.allowKey true).dropKey
  return (s.moveTo s.cursor.next).emit .blockEntry

/-- The question mark before a key. -/
def readQuestion (s : Lexer) : Except YamlFault Lexer := do
  if !s.inFlow && !s.keyAllowed then throw .malformed
  let s := if s.inFlow then s else s.openHere .blockMappingStart
  let s ← (s.allowKey !s.inFlow).dropKey
  return (s.moveTo s.cursor.next).emit .key

/-- The colon before a value. It fills the slot of its key, if there is one. -/
def readColon (s : Lexer) : Except YamlFault Lexer := do
  match s.keys.get? s.depth with
  | some k =>
    let s := { s with keys := s.keys.erase s.depth }
    let (opened, s) := if s.inFlow then (false, s) else s.openAt k.column
    -- Only now it shows that a mapping begins here: it starts in front of the key.
    let filling := if opened then [Token.blockMappingStart, .key] else [.key]
    let s := { s with filled := (k.slot, filling) :: s.filled }
    return ((s.moveTo s.cursor.next).allowKey false).emit .value
  | none =>
    if !s.inFlow && !s.keyAllowed then throw .malformed
    let s := if s.inFlow then s else s.openHere .blockMappingStart
    let s ← (s.allowKey !s.inFlow).dropKey
    return (s.moveTo s.cursor.next).emit .value

def readName (s : Lexer) (token : String → Token) : Except YamlFault Lexer := do
  let s ← s.noteKey
  let (name, c) ← anchorName s.cursor
  return ((s.moveTo c).allowKey false).emit (token name)

def readTag (s : Lexer) : Except YamlFault Lexer := do
  let s ← s.noteKey
  let (tag, c) ← writtenTag s.cursor
  return ((s.moveTo c).allowKey false).emit (.tag tag)

def readBlock (fuel : Nat) (s : Lexer) (folded : Bool) : Except YamlFault Lexer := do
  let s ← (s.allowKey true).dropKey
  let (token, c) ← blockScalar fuel folded s.indent s.cursor
  return (s.moveTo c).emit token

def readQuoted (fuel : Nat) (s : Lexer) (mark : Char) : Except YamlFault Lexer := do
  let s ← s.noteKey
  let (token, c) ← quotedScalar fuel mark s.cursor
  return ((s.moveTo c).allowKey false).emit token

/-- A plain scalar. After a line break a key may start again. -/
def readPlain (fuel : Nat) (s : Lexer) : Except YamlFault Lexer := do
  let s ← s.noteKey
  let ((token, broke), c) := plainScalar fuel s.inFlow (s.indent + 1) s.cursor
  return ((s.moveTo c).allowKey broke).emit token

/-- The characters that no plain scalar starts with. -/
def indicators : List Char := "-?:,[]\x7b\x7d#&*!|>'\"%@`".toList

/-- Whether a plain scalar can start with `x`, given the character after it. -/
def startsPlain (inFlow : Bool) (x : Char) (after : Option Char) : Bool :=
  !(isGap (some x) || indicators.contains x)
    || (!isGap after && (x == '-' || (!inFlow && (x == '?' || x == ':'))))

/-- Reads the token that starts with `x` at the cursor. -/
def readToken (fuel : Nat) (s : Lexer) (x : Char) : Except YamlFault Lexer :=
  let c := s.cursor
  let stands := isGap (c.peek 1)
  if x == '%' && c.column == 0 then s.readDirective
  -- Marks come before dashes and plain scalars, which start with the same characters.
  else if c.column == 0 && c.atMark '-' then s.readMark .documentStart
  else if c.column == 0 && c.atMark '.' then s.readMark .documentEnd
  else if x == '[' then s.openFlow .flowSequenceStart
  else if x == '\x7b' then s.openFlow .flowMappingStart
  else if x == ']' then s.closeFlow .flowSequenceEnd
  else if x == '\x7d' then s.closeFlow .flowMappingEnd
  else if x == ',' then s.readComma
  else if x == '-' && stands then s.readDash
  else if x == '?' && (s.inFlow || stands) then s.readQuestion
  else if x == ':' && (s.inFlow || stands) then s.readColon
  else if x == '*' then s.readName .alias
  else if x == '&' then s.readName .anchor
  else if x == '!' then s.readTag
  else if x == '|' && !s.inFlow then readBlock fuel s false
  else if x == '>' && !s.inFlow then readBlock fuel s true
  else if x == '\'' || x == '"' then readQuoted fuel s x
  else if startsPlain s.inFlow x (c.peek 1) then readPlain fuel s
  else .error .malformed

/-- Reads the next token, and tells whether there was one. -/
def step (stop : Option YamlFault) (fuel : Nat) (s : Lexer) : Except YamlFault (Lexer × Bool) := do
  let s ← (skipToToken fuel s).dropStaleKeys
  let s := s.unwind s.cursor.column
  match s.cursor.peek 0, stop with
  | none, none => return (← s.finish, false)
  | none, some cause => .error cause
  | some x, none => return (← readToken fuel s x, true)
  | some x, some cause =>
    match readToken fuel s x with
    | .error .unfinished => .error cause
    | .error other => .error other
    -- A token up to the end of what can be read may go on behind it.
    | .ok s => if s.cursor.rest.isEmpty then .error cause else return (s, true)

/-- The tokens in order, with every slot replaced by what filled it. -/
def row (s : Lexer) : List Token :=
  s.tokens.reverse.flatMap fun t =>
    match t with
    | .slot id => (s.filled.get? id).getD []
    | t => [t]

/-- The tokens in front of the first place that still waits for a colon. -/
def settled (s : Lexer) : Lexer :=
  match (s.keys.map fun (_, k) => k.slot).min? with
  | none => s
  | some slot => { s with tokens := (s.tokens.dropWhile (· != .slot slot)).drop 1 }

/-- Reads tokens to the end of the stream or to a fault that is not one of form. Every token
takes at least one character, so the length of the stream is fuel enough. -/
def readAll (stop : Option YamlFault) : Nat → Lexer → Except YamlFault (List Token)
  | 0, s => .ok s.row
  | fuel + 1, s => do
    let s ← s.dropStaleKeys
    match s.step stop (fuel + 1) with
    | .ok (s, true) => readAll stop fuel s
    | .ok (s, false) => return s.row
    | .error cause =>
      if cause.isOfForm then throw .malformed else return s.settled.row ++ [.broken cause]

end Lexer

/-- The tokens of a stream. A byte order mark at its front is skipped. -/
def tokensOf (stream : Stream) : Except YamlFault (List Token) :=
  let start : Cursor := ⟨stream.text, 0, 0, 0⟩
  let start := if start.peek 0 |>.any isByteOrderMark then start.next else start
  Lexer.readAll stream.stop (stream.text.length + 1) { cursor := start }

end StubTree.Yaml
