import StubTree.Text.Pieces

/-! # Namespaces

Types stand in a namespace of one or more segments joined by dots, or outside any. Types
outside any namespace share a directory and a module of their own, whose name no namespace
may start with.
-/

namespace StubTree

/-- Where a type stands. -/
inductive Namespace where
  | outside
  | named (dotted : String)
  deriving DecidableEq, Repr, Inhabited

namespace Namespace

def outsideModule : String := "global_"

/-- The name under which the stubs of a namespace are imported. -/
def moduleName : Namespace → String
  | outside => outsideModule
  | named dotted => dotted

def segments (dotted : String) : List String :=
  Text.split '.' dotted

/-- A namespace whose first segment is kept for the types outside any namespace. -/
def isReserved : Namespace → Bool
  | outside => false
  | named dotted => (segments dotted).head? == some outsideModule

/-- The full name of a type that stands in the namespace. -/
def qualify (space : Namespace) (name : String) : String :=
  match space with
  | outside => name
  | named dotted => dotted ++ "." ++ name

/-- A full name taken apart at its last dot. -/
def ofFullName (fullName : String) : Namespace × String :=
  match Text.cutLast? '.' fullName.toList with
  | some (before, after) => (named (String.ofList before), String.ofList after)
  | none => (outside, fullName)

end Namespace

end StubTree
