import StubTree.Manifest.Basic
import StubTree.Report.Format
import StubTree.Text.Ansi
import StubTree.Text.Sorted

/-! # The inspection of a binary

An inspection shows what a binary references and the types that it exports, by namespace.
-/

namespace StubTree

open Report Text

/-- What an inspection tells of a type. -/
def TypeDecl.document (t : TypeDecl) : Document :=
  .mapping
    [(.text "name", .text t.name),
     (.text "namespace", match t.space with
        | .outside => .null
        | .named dotted => .text dotted),
     (.text "kind", .text t.kind.text),
     (.text "visibility", .text t.visibility.text),
     (.text "base", match t.base with
        | none => .null
        | some ref => .text ref.text),
     (.text "interfaces", .list (t.interfaces.map fun ref => .text ref.text)),
     (.text "members", .int t.memberCount)]

namespace Manifest

def document (m : Manifest) : Document :=
  .mapping
    [(.text "name", .text m.name),
     (.text "version", .text m.version),
     (.text "path", .text m.path.text),
     (.text "references", .list (m.references.map .text)),
     (.text "types", .list (m.exported.map TypeDecl.document))]

def typeLine (t : TypeDecl) : String :=
  "    " ++ coloured .magenta t.kind.text ++ " " ++ bold .cyan t.name

/-- The lines of types in the order of what they show, whatever their styling. -/
def sortedLines (ts : List TypeDecl) : List String :=
  (ts.map typeLine).mergeSort fun a b => decide (plain a ≤ plain b)

def moduleLines (ts : List TypeDecl) (moduleName : String) : List String :=
  coloured .yellow moduleName :: sortedLines (ts.filter (·.space.moduleName == moduleName))

def referenceLine (identity : String) : String :=
  "  " ++ coloured .black "references" ++ " " ++ identity

def listing (m : Manifest) : String :=
  "\n".intercalate
    (bold .brightGreen m.fullName
      :: m.references.map referenceLine
      ++ (sortedDistinct (m.exported.map (·.space.moduleName))).flatMap (moduleLines m.exported))

def inspection (m : Manifest) : Format → Except Fault String
  | .listing => .ok m.listing
  | .document format => m.document.serialize format

end Manifest

end StubTree
