import StubTree.Namespace
import StubTree.Path
import StubTree.Manifest.TypeRef

/-! # Manifests

A manifest describes one binary: its name and version, the identities of the binaries it
references, and the types it declares. Types refer to one another by full name only.
-/

namespace StubTree

inductive TypeKind where
  | classType
  | structType
  | interfaceType
  | enumType
  | delegateType
  deriving DecidableEq, Repr

namespace TypeKind

def text : TypeKind → String
  | classType => "class"
  | structType => "struct"
  | interfaceType => "interface"
  | enumType => "enum"
  | delegateType => "delegate"

def all : List TypeKind := [classType, structType, interfaceType, enumType, delegateType]

def ofText? (s : String) : Option TypeKind := all.find? (·.text == s)

end TypeKind

/-- Whether a type is seen from outside its binary. -/
inductive Visibility where
  | exported
  | internal
  deriving DecidableEq, Repr

namespace Visibility

def text : Visibility → String
  | exported => "public"
  | internal => "internal"

def ofText? (s : String) : Option Visibility := [exported, internal].find? (·.text == s)

end Visibility

structure Parameter where
  name : String
  type : TypeRef
  deriving DecidableEq, Repr

structure Field where
  name : String
  type : TypeRef
  isStatic : Bool
  deriving DecidableEq, Repr

structure Property where
  name : String
  type : TypeRef
  isStatic : Bool
  isReadonly : Bool
  deriving DecidableEq, Repr

/-- A method, a constructor, or the call of a delegate. -/
structure Method where
  name : String
  returns : TypeRef
  parameters : List Parameter
  isStatic : Bool
  deriving DecidableEq, Repr

/-- The references of a method: what it returns, then its parameters. -/
def Method.refs (m : Method) : List TypeRef :=
  m.returns :: m.parameters.map (·.type)

structure TypeDecl where
  space : Namespace
  name : String
  kind : TypeKind
  visibility : Visibility
  base : Option TypeRef
  interfaces : List TypeRef
  values : List String
  fields : List Field
  properties : List Property
  methods : List Method
  constructors : List Method
  invoke : Option Method
  deriving DecidableEq, Repr

namespace TypeDecl

def fullName (t : TypeDecl) : String := t.space.qualify t.name

def isExported (t : TypeDecl) : Bool := t.visibility == .exported

/-- Every reference of the declaration, in the order in which it is declared. -/
def refs (t : TypeDecl) : List TypeRef :=
  t.base.toList ++ t.interfaces ++ t.fields.map (·.type) ++ t.properties.map (·.type)
    ++ (t.constructors ++ t.methods).flatMap Method.refs ++ t.invoke.toList.flatMap Method.refs

def memberCount (t : TypeDecl) : Nat :=
  t.values.length + t.fields.length + t.properties.length + t.methods.length

end TypeDecl

/-- The description of one binary. -/
structure Manifest where
  name : String
  version : String
  path : Path
  references : List String
  types : List TypeDecl
  deriving DecidableEq, Repr

namespace Manifest

/-- Name and version, as progress messages give them. -/
def fullName (m : Manifest) : String := m.name ++ ", Version=" ++ m.version

/-- The types that are seen from outside the binary, in order. -/
def exported (m : Manifest) : List TypeDecl := m.types.filter (·.isExported)

def find? (m : Manifest) (fullName : String) : Option TypeDecl :=
  m.types.find? (·.fullName == fullName)

end Manifest

/-- The short name of a binary: its identity up to the first comma. -/
def shortName (identity : String) : String :=
  String.ofList (Text.trim (identity.toList.takeWhile (· != ',')))

end StubTree
