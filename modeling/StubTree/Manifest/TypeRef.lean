import StubTree.Text.Blank

/-! # Type references

A reference names a type in full; two brackets after the name make it a list of that type.
`void` is no type and has no lists.
-/

namespace StubTree

/-- A reference to a named type, or to a list of it. -/
structure TypeRef where
  fullName : String
  isArray : Bool := false
  deriving DecidableEq, Repr

namespace TypeRef

def voidName : String := "void"

def void : TypeRef := ⟨voidName, false⟩

/-- The reference that returns nothing. -/
def isVoid (ref : TypeRef) : Bool := ref.fullName == voidName

def text (ref : TypeRef) : String :=
  if ref.isArray then ref.fullName ++ "[]" else ref.fullName

/-- What stands before a pair of brackets at the end, if there is one. -/
def beforeBrackets? (cs : List Char) : Option (List Char) :=
  match cs.reverse with
  | ']' :: '[' :: rest => some rest.reverse
  | _ => none

/-- Reads a reference. A text that is none is given back as far as it was read. -/
def read (s : String) : Except String TypeRef :=
  match Text.trim s.toList with
  | [] => .error s
  | cs =>
    match beforeBrackets? cs with
    | none => .ok ⟨String.ofList cs, false⟩
    | some before =>
      let name := String.ofList (Text.trim before)
      if name == "" || name == voidName then .error name else .ok ⟨name, true⟩

end TypeRef

end StubTree
