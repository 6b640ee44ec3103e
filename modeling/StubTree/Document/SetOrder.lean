import StubTree.Document.Shape

/-! # The order of sets of numbers

A set of numbers is shown in the order of a table. Every number has a code, and equal numbers
have one code. A number goes to the slot that its code names, or to a free slot near it, or on a
walk from there that reaches every slot in the end.
-/

namespace StubTree.SetOrder

/-- Numbers are coded by their remainders on division by this prime. -/
def modulus : Nat := Nat.pow 2 61 - 1

/-- The code of a number by its sign and its remainder. No code is that of -1. -/
def signedCode (negative : Bool) (residue : Nat) : Nat :=
  if !negative || residue == 0 then residue
  else Nat.pow 2 64 - if residue == 1 then 2 else residue

/-- The code of a number. A unit of a number with a point is 2^-1074, which leaves 2^24. -/
def codeOf? {α : Type} : Shape α → Option Nat
  | .bool b => some (if b then 1 else 0)
  | .int i => some (signedCode (i < 0) (i.natAbs % modulus))
  | .float (.finite negative units) => some (signedCode negative (units * Nat.pow 2 24 % modulus))
  | .float (.infinite negative) => some (signedCode negative 314159)
  | _ => none

/-- The number of slots for so many numbers: a power of two. -/
def tableSize (count : Nat) : Nat :=
  if 5 * count < 21 then 8 else Nat.pow 2 ((2 * count).log2 + 1)

variable {α : Type}

/-- The first free slot on the walk from a slot. What is left of the code moves the walk on. -/
def freeSlot? (table : Array (Option α)) : Nat → Nat → Nat → Option Nat
  | 0, _, _ => none
  | fuel + 1, slot, code =>
    -- Ten slots in a row are looked at, if there are as many.
    let near := if slot + 9 < table.size then 10 else 1
    match (List.range near).find? fun k => (table.getD (slot + k) none).isNone with
    | some k => some (slot + k)
    | none =>
      let code := code / 32
      freeSlot? table fuel ((slot * 5 + 1 + code) % table.size) code

def place (table : Array (Option α)) (item : α) (code : Nat) : Array (Option α) :=
  match freeSlot? table (table.size + 16) (code % table.size) code with
  | some slot => table.setIfInBounds slot (some item)
  | none => table

/-- The items of a set in the order in which it is shown. Unless all of them are numbers, it is
the order in which they came. -/
def arrange (shapeOf : α → Shape α) (items : List α) : List α :=
  match items.mapM fun item => codeOf? (shapeOf item) with
  | none => items
  | some codes =>
    let table := (items.zip codes).foldl (fun table (item, code) => place table item code)
      (Array.replicate (tableSize items.length) none)
    table.toList.filterMap id

end StubTree.SetOrder
