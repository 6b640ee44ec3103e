import StubTree.Fault

/-! # Directories of namespaces

Every segment of a namespace is a directory below that of the segments before it.
-/

namespace StubTree.Namespace

/-- Refuses the namespaces whose first segment is kept for the types outside any. -/
def check (space : Namespace) : Except Fault Unit :=
  match space with
  | outside => .ok ()
  | named dotted => if space.isReserved then .error (.reservedNamespace dotted) else .ok ()

/-- The directory of a namespace below `root`. -/
def directory (root : Path) (space : Namespace) : Except Fault Path :=
  match space with
  | outside => .ok (root.entry outsideModule)
  | named dotted => do
    space.check
    return (segments dotted).foldl Path.entry root

end StubTree.Namespace
