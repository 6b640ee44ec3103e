import StubTree.Generation
import StubTree.Number.Decimal
import StubTree.Report.Elapsed
import StubTree.Report.Format
import StubTree.Report.Sink

/-! # The report of a generation

The listing names every stub with its types, and then the namespaces that were left out. A
closing line with the totals follows it; the report as a document has none, so that other
programs can read it.
-/

namespace StubTree.Generation

open Report Text

def fileLines (space : Namespace) (f : StubFile) : List String :=
  (underlined .black f.path.text ++ ": " ++ bold .cyan space.moduleName)
    :: f.types.map ("    " ++ ·)

def skippedLine (moduleName : String) : String :=
  underlined .yellow "[Skipped]:" ++ " " ++ moduleName

def listing (g : Generation) : String :=
  "\n".intercalate
    (g.sortedFiles.flatMap (fun (space, f) => fileLines space f)
      ++ g.sortedSkipped.map skippedLine)

def content (g : Generation) : Format → Except Fault String
  | .listing => .ok g.listing
  | .document format => g.document.serialize format

def report (g : Generation) (format : Format) (sink : Sink) (disk : Disk) :
    Disk × Except Fault String :=
  match g.content format with
  | .error fault => (disk, .error fault)
  | .ok s => sink.writeLine disk s

/-- A number of things; nothing at all is an alarm. -/
def tally (n : Nat) (noun : String) : String :=
  bold (if n = 0 then .red else .green)
    (Number.natText n ++ " " ++ noun ++ if n = 1 then "" else "s")

/-- The line with the totals. -/
def totals (g : Generation) (elapsed : Number.Binary64) : Except Fault String := do
  return "Wrote " ++ tally g.files.length "stub file" ++ " with " ++ tally g.typeCount "type"
    ++ " in " ++ (← Elapsed.text elapsed)

/-- Hands over the totals, if the format has a line for them. -/
def close (g : Generation) (elapsed : Number.Binary64) (format : Format) (sink : Sink)
    (disk : Disk) : Disk × Except Fault String :=
  match format with
  | .document _ => (disk, .ok "")
  | .listing =>
    match g.totals elapsed with
    | .error fault => (disk, .error fault)
    | .ok s => sink.writeLine disk s

end StubTree.Generation
