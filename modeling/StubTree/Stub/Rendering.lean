import StubTree.Library
import StubTree.Stub.Text

/-! # Rendering stubs from the library

To render the stub of a namespace is to find what every reference in it means. The types that
are met on the way are handed on, for their own namespaces have to be written as well; where a
reference means nothing, those met before it are handed on all the same.
-/

namespace StubTree.Stub

/-- What a reference means in a binary of the library. -/
def meaningIn (lib : Library) (unit : String) : Meaning := fun ref =>
  match lib.resolveRef (.held unit) ref with
  | .ok (some t) => some t.id
  | _ => none

/-- The types that references mean, in order, up to the first that means nothing. -/
def meet (lib : Library) (unit : String) : List TypeRef → List TypeId × Option Fault
  | [] => ([], none)
  | ref :: rest =>
    match lib.resolveRef (.held unit) ref with
    | .error fault => ([], some fault)
    | .ok none => meet lib unit rest
    | .ok (some t) =>
      let (later, fault) := meet lib unit rest
      (t.id :: later, fault)

/-- The types that are met while the declarations of types are rendered. -/
def meetAll (lib : Library) : List TypeId → List TypeId × Option Fault
  | [] => ([], none)
  | t :: rest =>
    match meet lib t.unit (((lib.decl? t).map shownRefs).getD []) with
    | (met, some fault) => (met, some fault)
    | (met, none) =>
      let (later, fault) := meetAll lib rest
      (met ++ later, fault)

/-- The declarations of types, each with what its references mean. -/
def declarations (lib : Library) (types : List TypeId) : List (Meaning × TypeDecl) :=
  types.filterMap fun t => (lib.decl? t).map (meaningIn lib t.unit, ·)

/-- The stub of a namespace, and the types that are met in it. -/
def render (lib : Library) (space : Namespace) (types : List TypeId)
    (order : NameOrder := fun _ names => names) : List TypeId × Except Fault String :=
  match meetAll lib types with
  | (met, some fault) => (met, .error fault)
  | (met, none) => (met, .ok (text space (declarations lib types) order))

end StubTree.Stub
