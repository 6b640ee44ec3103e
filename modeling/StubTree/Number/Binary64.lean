/-! # Double precision numbers

Every finite double precision number is a whole multiple of 2^-1074, so a number is kept as
a sign and that multiple. Sums and remainders are then exact, and rounding is one division
to the nearest multiple of a power of two, a tie going to the even one.
-/

namespace StubTree.Number

/-- A double precision number. A finite one is `units` times 2^-1074. -/
inductive Binary64 where
  | finite (negative : Bool) (units : Nat)
  | infinite (negative : Bool)
  | nan
  deriving DecidableEq, Repr, Inhabited

/-- The whole number nearest to `num / den`; a tie goes to the even one. -/
def divNearest (num den : Nat) : Nat :=
  let q := num / den
  let twice := 2 * (num % den)
  if twice < den then q else if den < twice then q + 1 else q + q % 2

namespace Binary64

/-- The number of units in 1. -/
def one : Nat := Nat.pow 2 1074

/-- The units of the largest finite number. -/
def largest : Nat := (Nat.pow 2 53 - 1) * Nat.pow 2 2045

/-- The distance between neighbouring numbers around `units`: 53 binary digits are kept. -/
def spacing (units : Nat) : Nat := Nat.pow 2 (units.log2 - 52)

/-- The nearest number to `num / den` units, with no bound on its size. -/
def roundUnits (num den : Nat) : Nat :=
  -- The whole part alone tells how far neighbouring numbers are apart there.
  let step := spacing (num / den)
  divNearest num (den * step) * step

/-- The number nearest to `num / den` units; beyond the largest number it is infinite. -/
def ofUnits (negative : Bool) (num den : Nat) : Binary64 :=
  let units := roundUnits num den
  if units ≤ largest then finite negative units else infinite negative

/-- The number nearest to the fraction `num / den`. -/
def ofRatio (negative : Bool) (num den : Nat) : Binary64 :=
  ofUnits negative (num * one) den

def zero : Binary64 := finite false 0

def neg : Binary64 → Binary64
  | finite negative units => finite (!negative) units
  | infinite negative => infinite (!negative)
  | nan => nan

/-- The signed number of units of a finite number. -/
def signedUnits? : Binary64 → Option Int
  | finite true units => some (-units)
  | finite false units => some units
  | _ => none

/-- Equality of values: both zeros are the same number, and `nan` differs from all. -/
def same : Binary64 → Binary64 → Bool
  | finite a m, finite b n => m == n && (a == b || m == 0)
  | infinite a, infinite b => a == b
  | _, _ => false

/-- Whether the value is a given whole number. -/
def isInt (x : Binary64) (i : Int) : Bool :=
  x.signedUnits? == some (i * one)

/-- The sum of two numbers. Opposite infinities have none, and a sum of nothing is negative only
where both numbers are. -/
def add : Binary64 → Binary64 → Binary64
  | nan, _ | _, nan => nan
  | infinite a, infinite b => if a == b then infinite a else nan
  | infinite a, finite _ _ | finite _ _, infinite a => infinite a
  | finite a m, finite b n =>
    if a == b then ofUnits a (m + n) 1
    else if m < n then ofUnits b (n - m) 1
    else ofUnits (a && n != m) (m - n) 1

def mul : Binary64 → Binary64 → Binary64
  | nan, _ | _, nan => nan
  | infinite a, infinite b => infinite (a != b)
  | infinite a, finite b n | finite b n, infinite a => if n == 0 then nan else infinite (a != b)
  | finite a m, finite b n => ofUnits (a != b) (m * n) one

/-- The number nearest to a whole number, unless that is beyond the largest one. -/
def ofNat? (n : Nat) : Option Binary64 :=
  match ofRatio false n 1 with
  | infinite _ => none
  | x => some x

end Binary64

end StubTree.Number
