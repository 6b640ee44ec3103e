import StubTree.Number.Binary64

/-! # Decimal text of numbers

A number is written with the fewest digits that read back as the same number, or with a
given number of digits. How the digits are set out, with a point or with an exponent, is a
separate choice.
-/

namespace StubTree.Number

/-- Significant digits and the power of ten of the first of them. -/
structure Decimal where
  digits : Nat
  exponent : Int
  deriving DecidableEq, Repr

def digitsOf (n : Nat) : List Char := Nat.toDigits 10 n

def natText (n : Nat) : String :=
  String.ofList (digitsOf n)

def intText (i : Int) : String :=
  String.ofList ((if i < 0 then ['-'] else []) ++ digitsOf i.natAbs)

/-- The most decimal digits that a whole number is written or read with. -/
def maxDigits : Nat := 4300

/-- The text of a whole number, unless it has too many digits. -/
def intText? (i : Int) : Option String :=
  if i.natAbs < Nat.pow 10 maxDigits then some (intText i) else none

/-- The text of a whole number with zeros in front up to a width. -/
def padded (width n : Nat) : String :=
  let ds := digitsOf n
  String.ofList (List.replicate (width - ds.length) '0' ++ ds)

namespace Decimal

/-- How often `units` can be multiplied by ten before it reaches `one`, within `fuel` steps. -/
def stepsBelow (one : Nat) : Nat → Nat → Nat
  | 0, _ => 0
  | fuel + 1, units => if one ≤ units then 0 else stepsBelow one fuel (units * 10) + 1

/-- The power of ten of the first significant digit. No number is as small as 10^-324. -/
def leadingExponent (units : Nat) : Int :=
  if Binary64.one ≤ units then ((digitsOf (units / Binary64.one)).length : Int) - 1
  else - (stepsBelow Binary64.one 324 units : Int)

/-- `units` as a fraction of the grid that has `count` digits when the first of them stands
for 10^`exponent`. -/
def onGrid (units count : Nat) (exponent : Int) : Nat × Nat :=
  let shift := (count : Int) - 1 - exponent
  if 0 ≤ shift then (units * Nat.pow 10 shift.toNat, Binary64.one)
  else (units, Binary64.one * Nat.pow 10 (-shift).toNat)

/-- The number of units nearest to `digits` on that grid. -/
def unitsAt (digits count : Nat) (exponent : Int) : Nat :=
  let shift := (count : Int) - 1 - exponent
  if 0 ≤ shift then Binary64.roundUnits (digits * Binary64.one) (Nat.pow 10 shift.toNat)
  else Binary64.roundUnits (digits * Binary64.one * Nat.pow 10 (-shift).toNat) 1

/-- A value of the grid of `count` digits that reads back as `units`, the nearer one if both
neighbours do. -/
def onGrid? (units : Nat) (exponent : Int) (count : Nat) : Option Nat :=
  let (num, den) := onGrid units count exponent
  let below := num / den
  let near := divNearest num den
  let far := if near == below then below + 1 else below
  if unitsAt near count exponent == units then some near
  else if unitsAt far count exponent == units then some far
  else none

/-- Digits that may have grown by one place, with the exponent that fits them. -/
def normalize (digits count : Nat) (exponent : Int) : Decimal :=
  if Nat.pow 10 count ≤ digits then ⟨digits / 10, exponent + 1⟩ else ⟨digits, exponent⟩

def rounded (count units : Nat) : Decimal :=
  let exponent := leadingExponent units
  let (num, den) := onGrid units count exponent
  normalize (divNearest num den) count exponent

/-- The fewest digits that read back as `units`. -/
def shortest (units : Nat) : Decimal :=
  let exponent := leadingExponent units
  -- 17 digits always read back.
  let found := (List.range 17).findSome? fun k =>
    (onGrid? units exponent (k + 1)).map fun digits => normalize digits (k + 1) exponent
  found.getD (rounded 17 units)

end Decimal

/-- How significant digits are set out. Exponents from -4 up to, but not including,
`positionalBelow` are written out with a point, and `pointZero` keeps a `.0` on whole numbers. -/
structure Layout where
  positionalBelow : Int
  pointZero : Bool

/-- Digits without the zeros at the end, but at least one. -/
def dropTrailingZeros (ds : List Char) : List Char :=
  match (ds.reverse.dropWhile (· == '0')).reverse with
  | [] => ['0']
  | kept => kept

/-- The exponent mark: `e`, a sign, and at least two digits. -/
def exponentMark (e : Int) : List Char :=
  'e' :: (if e < 0 then '-' else '+') :: (padded 2 e.natAbs).toList

/-- The digits of a decimal, set out. -/
def Layout.print (layout : Layout) (d : Decimal) : List Char :=
  let ds := dropTrailingZeros (digitsOf d.digits)
  let tail := if layout.pointZero then ['.', '0'] else []
  if -4 ≤ d.exponent && d.exponent < layout.positionalBelow then
    if d.exponent < 0 then
      '0' :: '.' :: List.replicate (d.exponent.natAbs - 1) '0' ++ ds
    else
      let whole := d.exponent.toNat + 1
      if ds.length ≤ whole then ds ++ List.replicate (whole - ds.length) '0' ++ tail
      else ds.take whole ++ '.' :: ds.drop whole
  else
    match ds with
    | [c] => c :: exponentMark d.exponent
    | c :: cs => c :: '.' :: cs ++ exponentMark d.exponent
    | [] => []

/-- The text of a number whose finite magnitude is written by `digits`. -/
def Binary64.print (digits : Nat → Decimal) (layout : Layout) : Binary64 → String
  | .finite negative units =>
    let sign := if negative then ['-'] else []
    String.ofList (sign ++ layout.print (if units == 0 then ⟨0, 0⟩ else digits units))
  | .infinite negative => if negative then "-inf" else "inf"
  | .nan => "nan"

/-- The fewest digits that read back; a point up to 10^16, and always a point or an exponent. -/
def Binary64.text (x : Binary64) : String :=
  x.print Decimal.shortest ⟨16, true⟩

/-- Four significant digits without the zeros at the end; a point below 10^4. -/
def Binary64.brief (x : Binary64) : String :=
  x.print (Decimal.rounded 4) ⟨4, false⟩

end StubTree.Number
