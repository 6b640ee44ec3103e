import StubTree.Number.Decimal
import StubTree.Total

/-! # Dates and times

Days of the calendar from year 1 to year 9999, and moments on them to the microsecond, with
or without an offset from universal time.
-/

namespace StubTree

structure Date where
  year : Nat
  month : Nat
  day : Nat
  deriving DecidableEq, Repr

namespace Date

def isLeapYear (year : Nat) : Bool :=
  year % 4 == 0 && (year % 100 != 0 || year % 400 == 0)

def daysIn (year month : Nat) : Nat :=
  match month with
  | 1 | 3 | 5 | 7 | 8 | 10 | 12 => 31
  | 4 | 6 | 9 | 11 => 30
  | 2 => if isLeapYear year then 29 else 28
  | _ => 0

def of? (year month day : Nat) : Option Date :=
  if 1 ≤ year && year ≤ 9999 && 1 ≤ day && day ≤ daysIn year month then some ⟨year, month, day⟩
  else none

/-- The number of the day, counted from the first day of the calendar. -/
def number (d : Date) : Nat :=
  let before := d.year - 1
  before * 365 + before / 4 - before / 100 + before / 400
    + total ((List.range (d.month - 1)).map fun m => daysIn d.year (m + 1)) + d.day

def text (d : Date) : String :=
  Number.padded 4 d.year ++ "-" ++ Number.padded 2 d.month ++ "-" ++ Number.padded 2 d.day

end Date

/-- A moment on a day. The offset from universal time is in minutes. -/
structure Moment where
  date : Date
  hour : Nat
  minute : Nat
  second : Nat
  microsecond : Nat
  offset : Option Int
  deriving DecidableEq, Repr

namespace Moment

/-- The moment with these numbers, if a day has it. Offsets stay below one day. -/
def of? (date : Date) (hour minute second microsecond : Nat) (offset : Option Int) :
    Option Moment :=
  if hour < 24 && minute < 60 && second < 60 && (offset.getD 0).natAbs < 1440 then
    some ⟨date, hour, minute, second, microsecond, offset⟩
  else none

/-- The microseconds from the start of the calendar, by the clock of the place. -/
def localTime (m : Moment) : Nat :=
  (((m.date.number * 24 + m.hour) * 60 + m.minute) * 60 + m.second) * 1000000 + m.microsecond

/-- Whether two moments are one. With offsets they are compared in universal time; a moment
without an offset is never one with an offset. -/
def same (m n : Moment) : Bool :=
  match m.offset, n.offset with
  | none, none => m.localTime == n.localTime
  | some a, some b =>
    m.localTime - a * 60000000 == n.localTime - b * 60000000
  | _, _ => false

def offsetText (offset : Int) : String :=
  (if offset < 0 then "-" else "+")
    ++ Number.padded 2 (offset.natAbs / 60) ++ ":" ++ Number.padded 2 (offset.natAbs % 60)

def text (m : Moment) : String :=
  m.date.text ++ " " ++ Number.padded 2 m.hour ++ ":" ++ Number.padded 2 m.minute
    ++ ":" ++ Number.padded 2 m.second
    ++ (if m.microsecond == 0 then "" else "." ++ Number.padded 6 m.microsecond)
    ++ (m.offset.map offsetText).getD ""

end Moment

end StubTree
