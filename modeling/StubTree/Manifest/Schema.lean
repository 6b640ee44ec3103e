import StubTree.Document.Shape
import StubTree.Fault

/-! # Reading manifests from values

A value becomes a manifest when its keys have the right kinds of value. Checks are made
in a fixed order, and the first that fails decides the fault. Keys that mean nothing to a
manifest are skipped.
-/

namespace StubTree.Schema

open Readable (shape lookup?)

variable {α : Type} [Readable α]

abbrev Entries (α : Type) := List (α × α)

def shownOf (v : α) : Except Fault String :=
  match Readable.shown? v with
  | some s => .ok s
  | none => .error .unwritableNumber

def literalOf (v : α) : Except Fault String :=
  match Readable.literal? v with
  | some s => .ok s
  | none => .error .unwritableNumber

/-- A fault of the manifest. -/
def refuse {β : Type} (fault : ManifestFault) : Except Fault β := .error (.manifest fault)

def entriesOf (place : Place) (v : α) : Except Fault (Entries α) :=
  match shape v with
  | .mapping entries => .ok entries
  | other => refuse (.notMapping place other.kindName)

/-- The items of a list; an absent one is empty. -/
def itemsOf (place : Place) (key : String) (entries : Entries α) : Except Fault (List α) :=
  match (lookup? key entries).map shape with
  | none | some .null => .ok []
  | some (.list items) => .ok items
  | some other => refuse (.notList place key other.kindName)

def required (place : Place) (key : String) (entries : Entries α) : Except Fault α :=
  match lookup? key entries with
  | none => refuse (.missingKey place key)
  | some v =>
    match shape v with
    | .null | .text "" => refuse (.missingKey place key)
    | _ => .ok v

/-- A text that holds more than blanks, without the blanks around it. -/
def nameOf (place : Place) (key : String) (v : α) : Except Fault String :=
  match shape v with
  | .text s =>
    let name := Text.strip s
    if name == "" then refuse (.notName place key) else .ok name
  | _ => refuse (.notName place key)

def requiredName (place : Place) (key : String) (entries : Entries α) : Except Fault String := do
  nameOf place key (← required place key entries)

/-- A truth value; an absent one is false. -/
def flagOf (place : Place) (key : String) (entries : Entries α) : Except Fault Bool :=
  match (lookup? key entries).map shape with
  | none => .ok false
  | some (.bool b) => .ok b
  | some other => refuse (.notFlag place key other.kindName)

def refOf (v : α) : Except Fault TypeRef :=
  match shape v with
  | .text s => (TypeRef.read s).mapError fun rest => .manifest (.badReference (Text.quoted rest))
  | _ => do refuse (.badReference (← literalOf v))

/-- The value under a key, if there is one and it is not nothing. -/
def present? (key : String) (entries : Entries α) : Option α :=
  (lookup? key entries).filter fun v => match shape v with
    | .null => false
    | _ => true

def optionalRef (key : String) (entries : Entries α) : Except Fault (Option TypeRef) :=
  (present? key entries).mapM refOf

def requiredRef (place : Place) (key : String) (entries : Entries α) :
    Except Fault TypeRef := do
  refOf (← required place key entries)

def parameterOf (place : Place) (v : α) : Except Fault Parameter := do
  let entries ← entriesOf place v
  let name ← requiredName place "name" entries
  let type ← requiredRef place "type" entries
  return ⟨name, type⟩

def fieldOf (place : Place) (v : α) : Except Fault Field := do
  let entries ← entriesOf place v
  let name ← requiredName place "name" entries
  let type ← requiredRef place "type" entries
  let isStatic ← flagOf place "static" entries
  return ⟨name, type, isStatic⟩

def propertyOf (place : Place) (v : α) : Except Fault Property := do
  let entries ← entriesOf place v
  let name ← requiredName place "name" entries
  let type ← requiredRef place "type" entries
  let isStatic ← flagOf place "static" entries
  let isReadonly ← flagOf place "readonly" entries
  return ⟨name, type, isStatic, isReadonly⟩

/-- A method under its name: its parameters, what it returns, and whether it is static. -/
def methodNamed (owner : Place) (name : String) (entries : Entries α) :
    Except Fault Method := do
  let place := Place.method owner name
  let parameters ← (← itemsOf place "parameters" entries).mapM (parameterOf place)
  let returns ← optionalRef "returns" entries
  let isStatic ← flagOf place "static" entries
  return ⟨name, returns.getD .void, parameters, isStatic⟩

def methodOf (place : Place) (v : α) : Except Fault Method := do
  let entries ← entriesOf place v
  methodNamed place (← requiredName place "name" entries) entries

/-- A constructor; the name it would give itself does not count. -/
def constructorOf (place : Place) (v : α) : Except Fault Method := do
  methodNamed place "__init__" (← entriesOf place v)

/-- How a delegate is called. A delegate that does not say takes and returns nothing. -/
def invokeOf (place : Place) (entries : Entries α) : Except Fault Method := do
  match (lookup? "invoke" entries).filter fun v => !(shape v).isVoid with
  | none => methodNamed (α := α) place "__call__" []
  | some v => methodNamed place "__call__" (← entriesOf place v)

/-- A namespace given by key: nothing, or segments between dots, none of them empty. -/
def namespaceOf (place : Place) (v : α) : Except Fault Namespace :=
  match shape v with
  | .null => .ok .outside
  | _ => do
    let dotted ← nameOf place "namespace" v
    if (Namespace.segments dotted).contains "" then refuse (.badNamespace place dotted)
    else return .named dotted

/-- The namespace and name of a type. Without a namespace of its own, a type stands in what
precedes the last dot of its name. -/
def placedName (place : Place) (entries : Entries α) : Except Fault (Namespace × String) := do
  let name ← requiredName place "name" entries
  match lookup? "namespace" entries with
  | some v => return (← namespaceOf place v, name)
  | none => return Namespace.ofFullName name

/-- The meaning of a value that is a text, if the text has one. -/
def wordOf? {β : Type} (meaning : String → Option β) (v : α) : Option β :=
  match shape v with
  | .text s => meaning s
  | _ => none

def kindOf (place : Place) (entries : Entries α) : Except Fault TypeKind :=
  match lookup? "kind" entries with
  | none => .ok .classType
  | some v =>
    match wordOf? TypeKind.ofText? v with
    | some kind => .ok kind
    | none => do refuse (.unknownKind place (← shownOf v))

def visibilityOf (place : Place) (entries : Entries α) : Except Fault Visibility :=
  match lookup? "visibility" entries with
  | none => .ok .exported
  | some v =>
    match wordOf? Visibility.ofText? v with
    | some visibility => .ok visibility
    | none => do refuse (.unknownVisibility place (← shownOf v))

/-- The `index`-th type that the manifest at `path` declares. -/
def typeOf (path : Path) (index : Nat) (v : α) : Except Fault TypeDecl := do
  let entries ← entriesOf (.item path index) v
  let (space, name) ← placedName (.item path index) entries
  -- Faults from here on name the type and no longer its place in the list.
  let place := Place.type path (space.qualify name)
  let kind ← kindOf place entries
  let visibility ← visibilityOf place entries
  let fields ← (← itemsOf place "fields" entries).mapM (fieldOf place)
  let properties ← (← itemsOf place "properties" entries).mapM (propertyOf place)
  let methods ← (← itemsOf place "methods" entries).mapM (methodOf place)
  let constructors ← (← itemsOf place "constructors" entries).mapM (constructorOf place)
  let invoke ← if kind == .delegateType then some <$> invokeOf place entries else pure none
  let values ← (← itemsOf place "values" entries).mapM (nameOf place "values")
  -- Values are read, and may be at fault, even where there must be none.
  if !values.isEmpty && kind != .enumType then refuse (.strayValues place)
  let base ← optionalRef "base" entries
  let interfaces ← (← itemsOf place "interfaces" entries).mapM refOf
  return ⟨space, name, kind, visibility, base, interfaces, values, fields, properties, methods,
    constructors, invoke⟩

/-- Reads types from the `index`-th on, after those whose full names are `seen`. -/
def typesFrom (path : Path) (seen : List String) (index : Nat) :
    List α → Except Fault (List TypeDecl)
  | [] => .ok []
  | v :: rest => do
    let t ← typeOf path index v
    if seen.contains t.fullName then refuse (.declaredTwice path t.fullName)
    let later ← typesFrom path (t.fullName :: seen) (index + 1) rest
    return t :: later

end Schema

/-- Reads the manifest that a value describes. -/
def Manifest.ofValue {α : Type} [Readable α] (path : Path) (v : α) : Except Fault Manifest := do
  let place := Place.file path
  let entries ← Schema.entriesOf place v
  let name ← Schema.requiredName place "name" entries
  let version ← match Readable.lookup? "version" entries with
    | none => pure "0.0.0"
    | some v => Schema.shownOf v
  let references ← (← Schema.itemsOf place "references" entries).mapM
    (Schema.nameOf place "references")
  let types ← Schema.typesFrom path [] 0 (← Schema.itemsOf place "types" entries)
  return ⟨name, version, path, references, types⟩

end StubTree
