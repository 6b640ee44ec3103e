import StubTree.Number.Binary64
import StubTree.Number.Numeral

/-! # Reading numbers

Decimal text is read exactly and rounded once. Underscores may stand between two digits, and
infinity and not-a-number are spelled in letters of either case.
-/

namespace StubTree.Number

/-- The value of a digit in a base up to sixteen. -/
def digitValue? (base : Nat) (c : Char) : Option Nat :=
  let n :=
    if '0' ≤ c && c ≤ '9' then c.toNat - '0'.toNat
    else if 'a' ≤ c && c ≤ 'f' then c.toNat - 'a'.toNat + 10
    else if 'A' ≤ c && c ≤ 'F' then c.toNat - 'A'.toNat + 10
    else 16
  if n < base then some n else none

def readDigits? (base : Nat) (cs : List Char) : Option Nat :=
  if cs.isEmpty then none
  else cs.foldl (fun acc c => do return (← acc) * base + (← digitValue? base c)) (some 0)

/-- Digits with single underscores between them, the underscores dropped. -/
def digitRun? : List Char → Option (List Char)
  | [] => some []
  | [c] => if c.isDigit then some [c] else none
  | c :: '_' :: d :: rest =>
    if c.isDigit && d.isDigit then (digitRun? (d :: rest)).map (c :: ·) else none
  | c :: rest => if c.isDigit then (digitRun? rest).map (c :: ·) else none

def splitSign : List Char → Bool × List Char
  | '-' :: rest => (true, rest)
  | '+' :: rest => (false, rest)
  | cs => (false, cs)

/-- The number `digits` · 10^`exponent`. Exponents far outside the range are not computed. -/
def Binary64.ofScientific (negative : Bool) (digits : Nat) (exponent : Int) : Binary64 :=
  let size : Int := (Nat.log2 digits / 3 : Nat)
  if digits == 0 || exponent + size < -400 then .finite negative 0
  else if 400 < exponent then .infinite negative
  else if 0 ≤ exponent then .ofRatio negative (digits * Nat.pow 10 exponent.toNat) 1
  else .ofRatio negative digits (Nat.pow 10 (-exponent).toNat)

/-- The part before a separating character and, if there is one, the part after it. -/
def cutAt (isSeparator : Char → Bool) (cs : List Char) : List Char × Option (List Char) :=
  match cs.dropWhile (!isSeparator ·) with
  | [] => (cs, none)
  | _ :: rest => (cs.takeWhile (!isSeparator ·), some rest)

def readExponent? : Option (List Char) → Option Int
  | none => some 0
  | some cs => do
    let (negative, body) := splitSign cs
    let n ← readDigits? 10 (← digitRun? body)
    return if negative then -n else n

/-- The whole number and the power of ten that unsigned decimal text spells: digits with a point
somewhere and perhaps an exponent. -/
def scientific? (cs : List Char) : Option (Nat × Int) := do
  let (mantissa, mark) := cutAt (fun c => c == 'e' || c == 'E') cs
  let (whole, fraction) := cutAt (· == '.') mantissa
  let whole ← digitRun? whole
  let fraction ← digitRun? (fraction.getD [])
  let digits ← readDigits? 10 (whole ++ fraction)
  let exponent ← readExponent? mark
  return (digits, exponent - fraction.length)

/-- Reads unsigned decimal text exactly and rounds it then. -/
def readDecimal? (negative : Bool) (cs : List Char) : Option Binary64 :=
  (scientific? cs).map fun (digits, exponent) => .ofScientific negative digits exponent

/-- Reads a number, with blanks around it allowed. -/
def Binary64.read? (s : String) : Option Binary64 :=
  let (negative, body) := splitSign (asciiNumeral s.toList)
  let word := String.ofList (body.map Char.toLower)
  if word == "inf" || word == "infinity" then some (.infinite negative)
  else if word == "nan" then some .nan
  else readDecimal? negative body

end StubTree.Number
