import StubTree.Calendar
import StubTree.Number.Reading
import StubTree.Text.Pieces

/-! # Tags of YAML

Every node has a tag that says what kind of value it is. A plain scalar without a tag of its
own gets the first of the standard tags whose spelling it has, and is a text otherwise.
-/

namespace StubTree.Yaml

/-- The standard tags, and every other tag by its text. -/
inductive Tag where
  | null
  | bool
  | int
  | float
  | timestamp
  | binary
  | str
  | seq
  | map
  | omap
  | pairs
  | set
  | merge
  | value
  | other (text : String)
  deriving DecidableEq, Repr

namespace Tag

/-- What the handle of the standard tags stands for. -/
def standard : String := "tag:yaml.org,2002:"

/-- The names of the standard tags. -/
def named : List (String × Tag) :=
  [("null", null), ("bool", bool), ("int", int), ("float", float), ("timestamp", timestamp),
   ("binary", binary), ("str", str), ("seq", seq), ("map", map), ("omap", omap),
   ("pairs", pairs), ("set", set), ("merge", merge), ("value", value)]

def ofText (text : String) : Tag :=
  match named.find? fun (name, _) => standard ++ name == text with
  | some (_, tag) => tag
  | none => other text

end Tag

namespace Spelling

def isDigitOr_ (c : Char) : Bool := c.isDigit || c == '_'

/-- Digits, the first of them no underscore. -/
def isNumeral (cs : List Char) : Bool :=
  (cs.head?.any Char.isDigit) && cs.all isDigitOr_

/-- A place of a number to the base of sixty, below sixty. -/
def isSixtieth : List Char → Bool
  | [c] => c.isDigit
  | [c, d] => '0' ≤ c && c ≤ '5' && d.isDigit
  | _ => false

/-- Places of a number to the base of sixty: a numeral and at least one place below sixty. -/
def isSexagesimal (cs : List Char) : Bool :=
  match Text.pieces ':' cs with
  | first :: rest@(_ :: _) => isNumeral first && rest.all isSixtieth
  | _ => false

def truths : List String :=
  ["yes", "Yes", "YES", "no", "No", "NO", "true", "True", "TRUE", "false", "False", "FALSE",
   "on", "On", "ON", "off", "Off", "OFF"]

def nulls : List String := ["~", "null", "Null", "NULL", ""]

/-- Binary, octal, decimal, hexadecimal and sexagesimal whole numbers. -/
def isInt (cs : List Char) : Bool :=
  let (_, body) := Number.splitSign cs
  match body with
  | ['0'] => true
  | '0' :: 'b' :: rest => !rest.isEmpty && rest.all fun c => c == '0' || c == '1' || c == '_'
  | '0' :: 'x' :: rest =>
    !rest.isEmpty && rest.all fun c => c == '_' || (Number.digitValue? 16 c).isSome
  | '0' :: rest => rest.all fun c => c == '_' || (Number.digitValue? 8 c).isSome
  | _ => (isNumeral body || isSexagesimal body)

/-- The mark and the digits of an exponent. Its sign has to be there. -/
def isExponent : List Char → Bool
  | [] => true
  | e :: sign :: digits =>
    (e == 'e' || e == 'E') && (sign == '+' || sign == '-') && !digits.isEmpty &&
      digits.all Char.isDigit
  | _ => false

/-- A fraction after the point, and perhaps an exponent. -/
def isFraction (cs : List Char) : Bool := isExponent (cs.dropWhile isDigitOr_)

/-- Numbers with a point, and the words for infinity and for what is no number. -/
def isFloat (cs : List Char) : Bool :=
  let (_, body) := Number.splitSign cs
  let word := String.ofList body
  if [".inf", ".Inf", ".INF"].contains word then true
  else if [".nan", ".NaN", ".NAN"].contains (String.ofList cs) then true
  else match cs with
    | '.' :: rest => rest.head?.any Char.isDigit && isFraction rest
    | _ =>
      match Number.cutAt (· == '.') body with
      | (_, none) => false
      | (whole, some rest) =>
        (isNumeral whole && isFraction rest) || (isSexagesimal whole && rest.all isDigitOr_)

end Spelling

/-- The time of day of a timestamp, by its digits. The offset is a sign, hours and minutes. -/
structure WrittenTime where
  hour : List Char
  minute : List Char
  second : List Char
  fraction : List Char
  zone : Option (Bool × List Char × List Char)

/-- A timestamp, by its digits. -/
structure WrittenMoment where
  year : List Char
  month : List Char
  day : List Char
  time : Option WrittenTime

namespace Spelling

/-- Digits at the front, between `least` and `most` of them and no more, and the rest. -/
def digitsBetween? (least most : Nat) (cs : List Char) : Option (List Char × List Char) :=
  let run := cs.takeWhile Char.isDigit
  if least ≤ run.length && run.length ≤ most then some (run, cs.drop run.length) else none

def after? (c : Char) : List Char → Option (List Char)
  | d :: rest => if c == d then some rest else none
  | [] => none

def isZoneSpace (c : Char) : Bool := c == ' ' || c == '\t'

/-- The offset from universal time at the end of a timestamp. Spaces may stand before it. -/
def zone? (cs : List Char) : Option (Option (Bool × List Char × List Char)) :=
  match cs, cs.dropWhile isZoneSpace with
  | [], _ => some none
  | _, ['Z'] => some (some (false, [], []))
  | _, sign :: rest =>
    if sign != '+' && sign != '-' then none
    else do
      let (hours, rest) ← digitsBetween? 1 2 rest
      match rest with
      | [] => return some (sign == '-', hours, [])
      | _ =>
        let (minutes, rest) ← digitsBetween? 2 2 (← after? ':' rest)
        if rest.isEmpty then return some (sign == '-', hours, minutes) else none
  | _, [] => none

/-- The time of day, the separator before it included. -/
def time? (cs : List Char) : Option WrittenTime := do
  let cs ← match cs with
    | 'T' :: rest | 't' :: rest => some rest
    | c :: rest => if isZoneSpace c then some (rest.dropWhile isZoneSpace) else none
    | [] => none
  let (hour, cs) ← digitsBetween? 1 2 cs
  let (minute, cs) ← digitsBetween? 2 2 (← after? ':' cs)
  let (second, cs) ← digitsBetween? 2 2 (← after? ':' cs)
  let (fraction, cs) := match cs with
    | '.' :: rest => (rest.takeWhile Char.isDigit, rest.dropWhile Char.isDigit)
    | _ => ([], cs)
  return ⟨hour, minute, second, fraction, ← zone? cs⟩

/-- A date, or a date and a time of day. -/
def moment? (cs : List Char) : Option WrittenMoment := do
  let (year, cs) ← digitsBetween? 4 4 cs
  let (month, cs) ← digitsBetween? 1 2 (← after? '-' cs)
  let (day, cs) ← digitsBetween? 1 2 (← after? '-' cs)
  match cs with
  | [] => return ⟨year, month, day, none⟩
  | _ => return ⟨year, month, day, some (← time? cs)⟩

/-- A timestamp that needs no tag: a date alone has two digits for month and day. -/
def isTimestamp (cs : List Char) : Bool :=
  match moment? cs with
  | none => false
  | some m => m.time.isSome || (m.month.length == 2 && m.day.length == 2)

end Spelling

/-- A text as its spelling counts: one line feed at its end is left out, unless it is all of the
text. -/
def Spelling.counted (text : String) : List Char :=
  match text.toList.reverse with
  | '\n' :: c :: before => (c :: before).reverse
  | _ => text.toList

/-- The tag of a text that is read as a plain scalar without a tag of its own. The signs in front
of tags, anchors and aliases have a tag that no value has. -/
def Tag.ofPlain (text : String) : Tag :=
  let cs := Spelling.counted text
  let word := String.ofList cs
  if Spelling.truths.contains word then .bool
  else if Spelling.isFloat cs then .float
  else if Spelling.isInt cs then .int
  else if word == "<<" then .merge
  else if Spelling.nulls.contains word then .null
  else if Spelling.isTimestamp cs then .timestamp
  else if word == "=" then .value
  else if ["!", "&", "*"].contains word then .other (Tag.standard ++ "yaml")
  else .str

end StubTree.Yaml
