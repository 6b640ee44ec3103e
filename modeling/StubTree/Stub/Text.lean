import StubTree.Registry
import StubTree.Manifest.Basic
import StubTree.Stub.Identifier
import StubTree.Stub.Imports
import StubTree.Text.Lines

/-! # The text of a stub

A stub declares the types of one namespace. What a reference means is given from outside; a
reference to a type of another namespace is imported from that namespace's module.
-/

namespace StubTree.Stub

/-- What a reference of a declaration means; nothing for the reference that returns nothing. -/
abbrev Meaning := TypeRef → Option TypeId

/-- How a reference is written in a stub. -/
def hint (meaning : Meaning) (ref : TypeRef) : String :=
  match meaning ref with
  | none => "None"
  | some t =>
    let name := identifier t.name
    if ref.isArray then "list[" ++ name ++ "]" else name

/-- The import that a reference needs in the stub of a namespace. -/
def importFor (meaning : Meaning) (space : Namespace) (ref : TypeRef) : Option Import :=
  match meaning ref with
  | none => none
  | some t => if t.space = space then none else some ⟨t.space.moduleName, identifier t.name⟩

/-- The references of a method in the order in which its stub shows them. -/
def methodRefs (m : Method) : List TypeRef :=
  m.parameters.map (·.type) ++ [m.returns]

/-- The references of a declaration in the order in which its stub shows them. -/
def shownRefs (t : TypeDecl) : List TypeRef :=
  t.base.toList ++ t.interfaces ++ t.fields.map (·.type) ++ t.properties.map (·.type)
    ++ (t.constructors ++ t.methods ++ t.invoke.toList).flatMap methodRefs

/-- Whether a name comes more than once among methods. -/
def isOverloaded (methods : List Method) (m : Method) : Bool :=
  1 < methods.countP fun other => other.name == m.name

def overloadImport : Import := ⟨"typing", "overload"⟩

def classVarImport : Import := ⟨"typing", "ClassVar"⟩

def markImports (t : TypeDecl) : List Import :=
  (if t.constructors.any (isOverloaded t.constructors) || t.methods.any (isOverloaded t.methods)
    then [overloadImport] else [])
  ++ (if t.fields.any (·.isStatic) || t.properties.any (·.isStatic) then [classVarImport] else [])

def importsOf (meaning : Meaning) (space : Namespace) (t : TypeDecl) : List Import :=
  (shownRefs t).filterMap (importFor meaning space) ++ markImports t

/-- The mark of a member that belongs to the type and not to its values. -/
def classVar (isStatic : Bool) (annotated : String) : String :=
  if isStatic then "ClassVar[" ++ annotated ++ "]" else annotated

def fieldLine (meaning : Meaning) (f : Field) : String :=
  identifier f.name ++ ": " ++ classVar f.isStatic (hint meaning f.type)

/-- A property that cannot be set is a method with a mark; every other one reads as a field. -/
def propertyLines (meaning : Meaning) (p : Property) : List String :=
  let shown := hint meaning p.type
  if p.isReadonly && !p.isStatic then
    ["@property", "def " ++ identifier p.name ++ "(self) -> " ++ shown ++ ": ..."]
  else [identifier p.name ++ ": " ++ classVar p.isStatic shown]

def parameterText (meaning : Meaning) (p : Parameter) : String :=
  identifier p.name ++ ": " ++ hint meaning p.type

/-- The name of a method; names with two underscores in front are never keywords. -/
def methodName (name : String) : String :=
  if "__".toList.isPrefixOf name.toList then name else identifier name

def methodLine (meaning : Meaning) (m : Method) : String :=
  let owner := if m.isStatic then [] else ["self"]
  let parameters := owner ++ m.parameters.map (parameterText meaning)
  "def " ++ methodName m.name ++ "(" ++ ", ".intercalate parameters ++ ") -> "
    ++ hint meaning m.returns ++ ": ..."

/-- A method with its marks. -/
def methodLines (meaning : Meaning) (overloaded : Bool) (m : Method) : List String :=
  (if overloaded then ["@overload"] else []) ++ (if m.isStatic then ["@staticmethod"] else [])
    ++ [methodLine meaning m]

/-- The methods of a group, those that share a name marked as overloads. -/
def groupLines (meaning : Meaning) (methods : List Method) : List String :=
  methods.flatMap fun m => methodLines meaning (isOverloaded methods m) m

/-- The lines inside a declaration. -/
def bodyLines (meaning : Meaning) (t : TypeDecl) : List String :=
  t.values.map (fun value => identifier value ++ ": " ++ identifier t.name)
    ++ t.fields.map (fieldLine meaning)
    ++ t.properties.flatMap (propertyLines meaning)
    ++ groupLines meaning t.constructors
    ++ groupLines meaning t.methods
    ++ t.invoke.toList.flatMap (methodLines meaning false)

/-- The types that a declaration names as its bases. -/
def bases (meaning : Meaning) (t : TypeDecl) : List String :=
  (t.base.toList ++ t.interfaces).map (hint meaning)

def headLine (meaning : Meaning) (t : TypeDecl) : String :=
  let named := bases meaning t
  "class " ++ identifier t.name
    ++ (if named.isEmpty then "" else "(" ++ ", ".intercalate named ++ ")") ++ ":"

def margin : String := "    "

def declaration (meaning : Meaning) (t : TypeDecl) : String :=
  match bodyLines meaning t with
  | [] => headLine meaning t ++ " ..."
  | body => headLine meaning t ++ "\n" ++ Text.indent margin ("\n".intercalate body)

def header (space : Namespace) : String :=
  "# Stubs for namespace '" ++ space.moduleName ++ "'"

/-- The stub of a namespace that declares the given types, each with what its references
mean. -/
def text (space : Namespace) (types : List (Meaning × TypeDecl))
    (order : NameOrder := fun _ names => names) : String :=
  let imports := types.flatMap fun (meaning, t) => importsOf meaning space t
  let block := if imports.isEmpty then [] else [importBlock (bySource imports) order]
  "\n\n".intercalate (header space :: block ++ types.map fun (meaning, t) => declaration meaning t)
    ++ "\n"

end StubTree.Stub
