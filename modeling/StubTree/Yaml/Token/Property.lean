import StubTree.Number.Decimal
import StubTree.Number.Reading
import StubTree.Yaml.Token

/-! # Anchors, tags and directives of YAML

The tokens that say something about a node or about a document rather than being part of it.
-/

namespace StubTree.Yaml

/-- A character that may follow the name of an anchor or an alias. -/
def endsName : Option Char → Bool
  | none => true
  | some c => isGap (some c) || "?:,]\x7d%@`".toList.contains c

/-- The name of an anchor or an alias, from its indicator on. -/
def anchorName (c : Cursor) : Except YamlFault (String × Cursor) :=
  let (name, c) := c.next.span isWordChar
  if name.isEmpty || !endsName (c.peek 0) then .error .malformed
  else .ok (String.ofList name, c)

/-- A character of a tag, escapes included. -/
def isTagChar (c : Char) : Bool :=
  c.isAlphanum || "-;/?:@&=+$,_.!~*'()[]%".toList.contains c

/-- The bytes of the escapes ahead. -/
def escapedBytes : Nat → Cursor → Except YamlFault (List UInt8 × Cursor)
  | 0, c => .ok ([], c)
  | fuel + 1, c =>
    if c.peek 0 != some '%' then .ok ([], c)
    else
      let digits := c.next.rest.take 2
      match if digits.length < 2 then none else Number.readDigits? 16 digits with
      | none => .error .malformed
      | some n => do
        let (later, c) ← escapedBytes fuel (c.advance 3)
        return (n.toUInt8 :: later, c)

/-- The characters of a tag. Escaped bytes have to be UTF-8. -/
def tagText : Nat → Cursor → Except YamlFault (List Char × Cursor)
  | 0, c => .ok ([], c)
  | fuel + 1, c =>
    match c.peek 0 with
    | none => .ok ([], c)
    | some x =>
      if x == '%' then do
        let (bytes, c) ← escapedBytes (fuel + 1) c
        match String.fromUTF8? (ByteArray.mk bytes.toArray) with
        | none => .error .malformed
        | some s =>
          let (later, c) ← tagText fuel c
          return (s.toList ++ later, c)
      else if isTagChar x then do
        let (later, c) ← tagText fuel c.next
        return (x :: later, c)
      else .ok ([], c)

/-- The characters of a tag, at least one. -/
def tagRest (c : Cursor) : Except YamlFault (String × Cursor) := do
  let (text, c) ← tagText (c.rest.length + 1) c
  if text.isEmpty then throw .malformed else return (String.ofList text, c)

/-- The handle of a tag: an exclamation mark, or a name between two of them. -/
def tagHandle (c : Cursor) : Except YamlFault (String × Cursor) :=
  if c.peek 0 != some '!' then .error .malformed
  else if c.peek 1 == some ' ' then .ok ("!", c.next)
  else
    let (name, d) := c.next.span isWordChar
    if d.peek 0 == some '!' then .ok (String.ofList ('!' :: name ++ ['!']), d.next)
    else .error .malformed

/-- A tag, from its exclamation mark on. -/
def writtenTag (c : Cursor) : Except YamlFault (WrittenTag × Cursor) := do
  let (tag, c) ←
    if c.peek 1 == some '<' then do
      let (rest, c) ← tagRest (c.advance 2)
      if c.peek 0 == some '>' then pure (⟨none, rest⟩, c.next) else throw .malformed
    else if isGap (c.peek 1) then pure (⟨none, "!"⟩, c.next)
    else
      let word := c.next.rest.takeWhile fun x => !endsWord (some x)
      let (handle, c) ← if word.contains '!' then tagHandle c else pure ("!", c.next)
      let (rest, c) ← tagRest c
      pure (⟨some handle, rest⟩, c)
  if endsWord (c.peek 0) then return (tag, c) else throw .malformed

/-- A number of the version of the language. -/
def versionNumber (c : Cursor) : Except YamlFault (Nat × Cursor) :=
  let (digits, c) := c.span Char.isDigit
  if Number.maxDigits < digits.length then .error .badNumber
  else match Number.readDigits? 10 digits with
    | some n => .ok (n, c)
    | none => .error .malformed

/-- What the name of a directive is followed by. -/
def directiveBody (name : String) (c : Cursor) : Except YamlFault (Token × Cursor) := do
  if name == "YAML" then
    let (major, c) ← versionNumber c.skipSpaces
    if c.peek 0 != some '.' then throw .malformed
    let (_, c) ← versionNumber c.next
    if endsWord (c.peek 0) then return (.version major, c) else throw .malformed
  else if name == "TAG" then
    let (handle, c) ← tagHandle c.skipSpaces
    if c.peek 0 != some ' ' then throw .malformed
    let (meaning, c) ← tagRest c.skipSpaces
    if endsWord (c.peek 0) then return (.handle handle meaning, c) else throw .malformed
  else return (.directive, c.skipLine)

/-- A directive, from its percent sign to the end of its line. -/
def directive (c : Cursor) : Except YamlFault (Token × Cursor) := do
  let (name, c) := c.next.span isWordChar
  if name.isEmpty || !endsWord (c.peek 0) then throw .malformed
  let (token, c) ← directiveBody (String.ofList name) c
  let c := c.skipSpaces
  let c := if c.peek 0 == some '#' then c.skipLine else c
  if endsLine (c.peek 0) then return (token, c.lineBreak.2) else throw .malformed

end StubTree.Yaml
