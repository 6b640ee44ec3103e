import StubTree.Fault
import StubTree.Keyed
import StubTree.Registry

/-! # The library of binaries

The binaries that are loaded, by name, each linked to those it references. A type is searched
for in a binary and then in the binaries it is linked to, the nearest first. Every name is
visited once, so links may run in circles.
-/

namespace StubTree

/-- What a reference was linked to: a binary of the library, or a manifest that was read apart
from it and is linked to nothing. -/
inductive Link where
  | held (name : String)
  | apart (manifest : Manifest)
  deriving DecidableEq, Repr

/-- A binary of the library: its manifest and what its references were linked to so far. -/
structure Binary where
  manifest : Manifest
  links : List Link := []
  deriving DecidableEq, Repr

/-- The loaded binaries by name, in the order of loading. -/
abbrev Library := Keyed String Binary

def Link.name : Link → String
  | held name => name
  | apart manifest => manifest.name

/-- A type found by its name: the binary that declares it and its declaration. -/
structure Located where
  link : Link
  decl : TypeDecl
  deriving DecidableEq, Repr

/-- What makes the found type the type it is. -/
def Located.id (t : Located) : TypeId := ⟨t.decl.space, t.decl.name, t.link.name⟩

namespace Library

def manifest? (lib : Library) : Link → Option Manifest
  | .held name => (Keyed.get? name lib).map (·.manifest)
  | .apart manifest => some manifest

def linksOf (lib : Library) : Link → List Link
  | .held name => ((Keyed.get? name lib).map (·.links)).getD []
  | .apart _ => []

def linkCount (lib : Library) : Nat := total (lib.map fun (_, b) => b.links.length)

/-- The binaries that a queue leads to, breadth first, without the names already seen. -/
def visit (lib : Library) : Nat → List String → List Link → List Link
  | 0, _, _ => []
  | _, _, [] => []
  | fuel + 1, seen, l :: queue =>
    if l.name ∈ seen then visit lib fuel seen queue
    -- The links of a binary come behind all that wait: the near ones go first.
    else l :: visit lib fuel (l.name :: seen) (queue ++ lib.linksOf l)

/-- The binaries in which a type is searched for, the nearest first. Every round takes one link
from the queue, and every link of the library enters it at most once. -/
def searchOrder (lib : Library) (start : Link) : List Link :=
  lib.visit (lib.linkCount + 1) [] [start]

/-- The type of that full name that the binary behind a link declares. -/
def declared? (lib : Library) (fullName : String) (l : Link) : Option Located :=
  ((lib.manifest? l).bind (·.find? fullName)).map (⟨l, ·⟩)

/-- The type that a full name means in a binary. -/
def resolve (lib : Library) (start : Link) (fullName : String) : Except Fault Located :=
  match (lib.searchOrder start).findSome? (lib.declared? fullName) with
  | some t => .ok t
  | none => .error (.typeNotFound fullName start.name)

/-- The type that a reference means in a binary; the empty reference means none. -/
def resolveRef (lib : Library) (start : Link) (ref : TypeRef) : Except Fault (Option Located) :=
  if ref.isVoid then .ok none else some <$> lib.resolve start ref.fullName

/-- The types that references mean in a binary, in order and each once. -/
def resolveAll (lib : Library) (start : Link) (found : List TypeId) :
    List TypeRef → Except Fault (List TypeId)
  | [] => .ok found
  | ref :: rest => do
    match ← lib.resolveRef start ref with
    | none => resolveAll lib start found rest
    | some t => resolveAll lib start (if t.id ∈ found then found else found ++ [t.id]) rest

/-- The types that the declaration of a type refers to. -/
def referenced (lib : Library) (t : Located) : Except Fault (List TypeId) :=
  lib.resolveAll t.link [] t.decl.refs

def decl? (lib : Library) (t : TypeId) : Option TypeDecl :=
  (lib.manifest? (.held t.unit)).bind fun m =>
    m.types.find? fun d => d.space == t.space && d.name == t.name

def exported (lib : Library) (name : String) : List TypeId :=
  match lib.manifest? (.held name) with
  | none => []
  | some m => m.exported.map fun d => ⟨d.space, d.name, name⟩

def typeCount (lib : Library) : Nat := total (lib.map fun (_, b) => b.manifest.types.length)

end Library

end StubTree
