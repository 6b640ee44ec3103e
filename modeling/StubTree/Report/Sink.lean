import StubTree.Disk
import StubTree.Text.Ansi

/-! # Where reports go

A report goes to the standard output, which keeps its styling, or to a file, which gets plain
text. What a file holds already stays in front.
-/

namespace StubTree.Report

inductive Sink where
  | output
  | file (path : Path)
  deriving DecidableEq, Repr

/-- Hands over a text and a line end. The result is the disk and what the standard output
got. -/
def Sink.writeLine (sink : Sink) (disk : Disk) (s : String) : Disk × Except Fault String :=
  match sink with
  | output => (disk, .ok (s ++ "\n"))
  | file path =>
    match disk.makeDirectories path.parent with
    | (disk, some fault) => (disk, .error fault)
    | (disk, none) =>
      match disk.append path (Text.plain s ++ "\n").toUTF8 with
      | .error fault => (disk, .error fault)
      | .ok disk => (disk, .ok "")

end StubTree.Report
