import StubTree.Keyed
import StubTree.Text.Sorted

/-! # Import lines

One line for each module, modules and names in order.
-/

namespace StubTree.Stub

/-- A name and the module it is imported from. -/
structure Import where
  source : String
  name : String
  deriving DecidableEq, Repr

/-- The names wanted from each module. -/
def bySource (imports : List Import) : Keyed String (List String) :=
  imports.foldl
    (fun acc i => Keyed.set i.source ((Keyed.get? i.source acc).getD [] ++ [i.name]) acc) []

/-- How the names wanted from each module are gone through. They have no order of their own. -/
abbrev NameOrder := String → List String → List String

def importLine (source : String) (names : List String)
    (order : NameOrder := fun _ names => names) : String :=
  "from " ++ source ++ " import " ++ ", ".intercalate (Text.sorted (order source names.eraseDups))

def importBlock (wanted : Keyed String (List String))
    (order : NameOrder := fun _ names => names) : String :=
  "\n".intercalate <| (Text.sorted wanted.keys).map fun source =>
    importLine source ((wanted.get? source).getD []) order

end StubTree.Stub
