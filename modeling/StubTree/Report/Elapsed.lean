import StubTree.Fault
import StubTree.Number.Decimal

/-! # Elapsed time

A time is shown in seconds with four significant digits; from a minute on, whole minutes and
from an hour on, whole hours stand before them.
-/

namespace StubTree.Elapsed

open Number

/-- How often `divisor` goes into a number of units. -/
def wholeTimes (units divisor : Nat) : Nat :=
  -- The difference and the quotient are double precision numbers themselves.
  let exact := Binary64.roundUnits (units - units % (divisor * Binary64.one)) 1
  let quotient := Binary64.roundUnits exact divisor
  let whole := quotient / Binary64.one
  if Binary64.one < 2 * (quotient - whole * Binary64.one) then whole + 1 else whole

def secondsText (units : Nat) : String :=
  (Binary64.finite false units).brief ++ "s"

def unitsText (units : Nat) : String :=
  let minute := 60 * Binary64.one
  let hour := 3600 * Binary64.one
  if units < minute then secondsText units
  else if units < hour then
    natText (wholeTimes units 60) ++ "m " ++ secondsText (units % minute)
  else
    natText (wholeTimes units 3600) ++ "h " ++ natText (wholeTimes (units % hour) 60) ++ "m "
      ++ secondsText (units % minute)

/-- The text of a time in seconds. A negative one is shown in seconds, however long; one that
never ends cannot be shown. -/
def text : Binary64 → Except Fault String
  | .finite false units => .ok (unitsText units)
  | x@(.finite true _) | x@(.infinite true) => .ok (x.brief ++ "s")
  | .infinite false | .nan => .error .noDuration

end StubTree.Elapsed
