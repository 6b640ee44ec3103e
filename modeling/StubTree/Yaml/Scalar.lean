import StubTree.Document.Shape
import StubTree.Yaml.Fault
import StubTree.Yaml.Tag

/-! # Values of YAML scalars

What a scalar denotes once its tag is known. A tag can promise a value that the scalar does not
spell, or that no calendar has.
-/

namespace StubTree.Yaml

/-- A numeral without the underscores that group its digits. -/
def ungrouped (text : String) : List Char :=
  text.toList.filter (· != '_')

/-- The letter that may stand after a zero in front of digits in a base. -/
def baseLetter? : Nat → Option Char
  | 2 => some 'b'
  | 8 => some 'o'
  | 16 => some 'x'
  | _ => none

/-- Digits without the mark of their base. -/
def unmarked (base : Nat) : List Char → List Char
  | '0' :: c :: rest => if baseLetter? base == some c.toLower then rest else '0' :: c :: rest
  | cs => cs

/-- A whole number in a base, with a sign of its own and blanks around it allowed. -/
def wholeNumber (base : Nat) (cs : List Char) : Except YamlFault Int :=
  let (negative, body) := Number.splitSign (Number.asciiNumeral cs)
  let digits := unmarked base body
  if base == 10 && Number.maxDigits < digits.length then .error .badNumber
  else match Number.readDigits? base digits with
    | some n => .ok (if negative then -n else n)
    | none => .error .badNumber

/-- What a whole number is without the sign in front of it. -/
def unsigned : List Char → Except YamlFault Int
  | [] => .error .emptyNumber
  | ['0'] => .ok 0
  | '0' :: 'b' :: rest => wholeNumber 2 rest
  | '0' :: 'x' :: rest => wholeNumber 16 rest
  | '0' :: rest => wholeNumber 8 ('0' :: rest)
  | body =>
    match Text.pieces ':' body with
    | [digits] => wholeNumber 10 digits
    | places => do
      return (← places.mapM (wholeNumber 10)).foldl (fun acc n => acc * 60 + n) 0

def intOf (text : String) : Except YamlFault Int := do
  let cs := ungrouped text
  if cs.isEmpty then throw .emptyNumber
  let (negative, body) := Number.splitSign cs
  let n ← unsigned body
  return if negative then -n else n

/-- The places of a number to the base of sixty, added up from the last. Their weights have to be
numbers themselves. -/
def sumOfPlaces : Nat → List Number.Binary64 → Number.Binary64 →
    Except YamlFault Number.Binary64
  | _, [], sum => .ok sum
  | weight, x :: rest, sum =>
    match Number.Binary64.ofNat? weight with
    | none => .error .hugeNumber
    | some w => sumOfPlaces (weight * 60) rest (sum.add (x.mul w))

/-- Whether a number is written as the word for what is no number. All such numbers are one. -/
def isNanWord (text : String) : Bool :=
  (Number.splitSign ((ungrouped text).map Char.toLower)).2 == ".nan".toList

/-- A number with a point, or one of the words for what is no such number. -/
def floatOf (text : String) : Except YamlFault Number.Binary64 := do
  let (negative, body) := Number.splitSign ((ungrouped text).map Char.toLower)
  let signed (x : Number.Binary64) := if negative then x.neg else x
  let read (cs : List Char) : Except YamlFault Number.Binary64 :=
    match Number.Binary64.read? (String.ofList cs) with
    | some x => .ok x
    | none => .error .badNumber
  if (ungrouped text).isEmpty then throw .emptyNumber
  if body == ".inf".toList then return .infinite negative
  else if isNanWord text then return .nan
  else match Text.pieces ':' body with
    | [one] => return signed (← read one)
    | places => return signed (← sumOfPlaces 1 (← places.mapM read).reverse .zero)

def truthOf (text : String) : Except YamlFault Bool :=
  let word := String.ofList (text.toList.map Char.toLower)
  if ["yes", "true", "on"].contains word then .ok true
  else if ["no", "false", "off"].contains word then .ok false
  else .error .badTruth

/-- The number that a run of digits denotes; an empty one is zero. -/
def digitsValue (digits : List Char) : Nat :=
  (Number.readDigits? 10 digits).getD 0

/-- Millionths from the digits after the point. -/
def microseconds (fraction : List Char) : Nat :=
  digitsValue ((fraction ++ List.replicate 6 '0').take 6)

/-- The moment on a day. -/
def momentOn (date : Date) (t : WrittenTime) : Option Moment :=
  let offset := t.zone.map fun (negative, hours, minutes) =>
    let total : Int := (digitsValue hours * 60 + digitsValue minutes : Nat)
    if negative then -total else total
  Moment.of? date (digitsValue t.hour) (digitsValue t.minute) (digitsValue t.second)
    (microseconds t.fraction) offset

/-- A date, or a moment on one. -/
def timestampOf {α : Type} (text : String) : Except YamlFault (Shape α) :=
  match Spelling.moment? (Spelling.counted text) with
  | none => .error .badMoment
  | some m =>
    match Date.of? (digitsValue m.year) (digitsValue m.month) (digitsValue m.day), m.time with
    | none, _ => .error .badDate
    | some date, none => .ok (.date date)
    | some date, some t =>
      match momentOn date t with
      | some moment => .ok (.moment moment)
      | none => .error .badDate

/-- The value of a sign of the alphabet of 64 signs. -/
def signValue? (c : Char) : Option Nat :=
  if 'A' ≤ c && c ≤ 'Z' then some (c.toNat - 'A'.toNat)
  else if 'a' ≤ c && c ≤ 'z' then some (c.toNat - 'a'.toNat + 26)
  else if '0' ≤ c && c ≤ '9' then some (c.toNat - '0'.toNat + 52)
  else if c == '+' then some 62
  else if c == '/' then some 63
  else none

/-- The bytes of groups of four signs. `held` counts the signs of the present group, `bits` is
their value, and `padding` counts the equals signs since the last sign. Other characters are
skipped, and a group that padding completes ends the bytes. -/
def bytesOfSigns (held bits padding : Nat) : List Char → Option (List UInt8)
  | [] => if held == 0 then some [] else none
  | c :: rest =>
    if c == '=' then
      if 2 ≤ held && 4 ≤ held + padding + 1 then some []
      else bytesOfSigns held bits (padding + 1) rest
    else
      match signValue? c with
      | none => bytesOfSigns held bits padding rest
      | some v =>
        match held with
        | 0 => bytesOfSigns 1 v 0 rest
        | 1 => (bytesOfSigns 2 (v % 16) 0 rest).map ((bits * 4 + v / 16).toUInt8 :: ·)
        | 2 => (bytesOfSigns 3 (v % 4) 0 rest).map ((bits * 16 + v / 4).toUInt8 :: ·)
        | _ => (bytesOfSigns 0 0 0 rest).map ((bits * 64 + v).toUInt8 :: ·)

/-- Bytes written in the alphabet of 64 signs. -/
def bytesOf (text : String) : Except YamlFault (List UInt8) :=
  if text.toList.any fun c => 0x80 ≤ c.toNat then .error .malformed
  else match bytesOfSigns 0 0 0 text.toList with
    | some bytes => .ok bytes
    | none => .error .malformed

end StubTree.Yaml
