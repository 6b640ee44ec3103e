import StubTree.Document.Basic
import StubTree.Path
import StubTree.Registry
import StubTree.Text.Sorted

/-! # The record of a generation

What a run wrote: for every namespace its stub, how often it was written, and the types it
holds; and the namespaces that were left out because none of their types was wanted.
-/

namespace StubTree

/-- The last writing of a stub, and how often it was written. -/
structure StubFile where
  path : Path
  types : List String
  emissions : Nat
  added : List String
  deriving DecidableEq, Repr

/-- What a run wrote so far. -/
structure Generation where
  destination : Path
  targets : List String
  files : Keyed Namespace StubFile := []
  skipped : List Namespace := []
  deriving DecidableEq, Repr

namespace Generation

def typeCount (g : Generation) : Nat := total (g.files.values.map fun f => f.types.length)

/-- Notes that a stub was written. Its namespace is no longer left out. -/
def record (g : Generation) (space : Namespace) (path : Path) (types added : List TypeId) :
    Generation :=
  let before := ((g.files.get? space).map (·.emissions)).getD 0
  let file : StubFile :=
    ⟨path, types.map (·.name), before + 1, (types.filter (· ∈ added)).map (·.name)⟩
  { g with files := g.files.set space file, skipped := g.skipped.erase space }

/-- Notes that a namespace was left out, unless it was written or noted before. -/
def skip (g : Generation) (space : Namespace) : Generation :=
  if space ∈ g.files.keys || space ∈ g.skipped then g
  else { g with skipped := g.skipped ++ [space] }

/-- The stubs in the order of their paths. -/
def sortedFiles (g : Generation) : List (Namespace × StubFile) :=
  g.files.mergeSort fun a b => decide (a.2.path.text ≤ b.2.path.text)

def sortedSkipped (g : Generation) : List String :=
  Text.sorted (g.skipped.map (·.moduleName))

def fileDocument (space : Namespace) (f : StubFile) : Document :=
  .mapping
    [(.text "namespace", .text space.moduleName),
     (.text "path", .text f.path.text),
     (.text "types", .list (f.types.map .text)),
     (.text "emissions", .int f.emissions),
     (.text "added", .list (f.added.map .text))]

def document (g : Generation) : Document :=
  .mapping
    [(.text "destination", .text g.destination.text),
     (.text "targets", .list ((Text.sorted g.targets).map .text)),
     (.text "files", .list (g.sortedFiles.map fun (space, f) => fileDocument space f)),
     (.text "skipped", .list (g.sortedSkipped.map .text))]

end Generation

end StubTree
