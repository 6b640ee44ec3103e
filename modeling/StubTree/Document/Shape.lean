import StubTree.Calendar
import StubTree.Number.Binary64

/-! # Shapes of values

What a value of a manifest or of an options file is on its first level. The parts of a
collection stay closed, so that values can be kept as trees or share their parts, and are read
in one way.
-/

namespace StubTree

/-- A value whose parts are given as elements of `α`. -/
inductive Shape (α : Type) where
  | null
  | bool (b : Bool)
  | int (i : Int)
  | float (x : Number.Binary64)
  | text (s : String)
  | date (d : Date)
  | moment (m : Moment)
  | bytes (b : List UInt8)
  | list (items : List α)
  | pair (first second : α)
  | mapping (entries : List (α × α))
  | set (items : List α)
  deriving Inhabited

namespace Shape

variable {α β : Type}

/-- The word for the kind of a value, as error messages give it. -/
def kindName : Shape α → String
  | null => "NoneType"
  | bool _ => "bool"
  | int _ => "int"
  | float _ => "float"
  | text _ => "str"
  | date _ => "date"
  | moment _ => "datetime"
  | bytes _ => "bytes"
  | list _ => "list"
  | pair .. => "tuple"
  | mapping _ => "dict"
  | set _ => "set"

/-- The whole number a value counts as: booleans count as zero and one. -/
def asInt? : Shape α → Option Int
  | bool b => some (if b then 1 else 0)
  | int i => some i
  | _ => none

/-- Equality of scalars. Numbers are equal by value, whatever their kind. -/
def sameScalar : Shape α → Shape β → Bool
  | null, null => true
  | float x, float y => x.same y
  | text s, text t => s == t
  | date d, date e => d == e
  | moment m, moment n => m.same n
  | bytes a, bytes b => a == b
  | float x, d => (d.asInt?.map x.isInt).getD false
  | d, float x => (d.asInt?.map x.isInt).getD false
  | d, e =>
    match d.asInt?, e.asInt? with
    | some i, some j => i == j
    | _, _ => false

/-- A value that counts as absent where a default can stand in for it: nothing, no, zero, or
an empty text or collection. -/
def isVoid : Shape α → Bool
  | null => true
  | bool b => !b
  | int i => i == 0
  | float x => x.same .zero
  | text s => s == ""
  | bytes b => b.isEmpty
  | list items => items.isEmpty
  | mapping entries => entries.isEmpty
  | set items => items.isEmpty
  | _ => false

/-- The shape with every part replaced by its image. -/
def map (f : α → β) : Shape α → Shape β
  | null => null
  | bool b => bool b
  | int i => int i
  | float x => float x
  | text s => text s
  | date d => date d
  | moment m => moment m
  | bytes b => bytes b
  | list items => list (items.map f)
  | pair a b => pair (f a) (f b)
  | mapping entries => mapping (entries.map fun (k, v) => (f k, f v))
  | set items => set (items.map f)

/-- The shape with every part replaced by its image, if all parts have one. -/
def mapM? (f : α → Option β) : Shape α → Option (Shape β)
  | null => some null
  | bool b => some (bool b)
  | int i => some (int i)
  | float x => some (float x)
  | text s => some (text s)
  | date d => some (date d)
  | moment m => some (moment m)
  | bytes b => some (bytes b)
  | list items => list <$> items.mapM f
  | pair a b => return pair (← f a) (← f b)
  | mapping entries => mapping <$> entries.mapM fun (k, v) => return (← f k, ← f v)
  | set items => set <$> items.mapM f

end Shape

/-- Values that are read one level at a time and shown in messages by a literal. Only a whole
number can be too long to be shown. -/
class Readable (α : Type) where
  shape : α → Shape α
  literal? : α → Option String

namespace Readable

variable {α : Type} [Readable α]

def lookup? (key : String) : List (α × α) → Option α
  | [] => none
  | (k, v) :: rest =>
    match shape k with
    | .text s => if key == s then some v else lookup? key rest
    | _ => lookup? key rest

/-- A value as the whole of what is shown. A text or a date goes without its quotes then. -/
def shown? (v : α) : Option String :=
  match shape v with
  | .text s => some s
  | .date d => some d.text
  | .moment m => some m.text
  | _ => literal? v

end Readable

end StubTree
