import StubTree.Disk
import StubTree.Manifest.Schema
import StubTree.Stack
import StubTree.Yaml.Value

/-! # Reading files

A file is read as YAML, and its value as a manifest or as options. A manifest is read in pieces,
so a fault of its form can come before bytes that are no text; an options file is read as a
whole.
-/

namespace StubTree

/-- The value of a stream. A text that is not well formed becomes a fault of whoever asked for
the value; every other fault breaks the run off. -/
def readValue (stream : Yaml.Stream) (notYaml : Yaml.YamlFault → Fault) :
    Except Fault SharedValue :=
  (Yaml.read stream).mapError fun cause => if cause.isOfForm then notYaml cause else .yaml cause

/-- The bytes of a file. A refusal of the system becomes a fault of whoever asked for them. -/
def Disk.readFor (d : Disk) (p : Path) (unreadable : SystemFault → Fault) :
    Except Fault ByteArray :=
  (d.read p).mapError fun fault => match fault with
    | .system cause => unreadable cause
    | other => other

def Manifest.load (d : Disk) (p : Path) (stack : Stack := .endless) : Except Fault Manifest := do
  let bytes ← d.readFor p (.manifest ∘ .unreadable p)
  stack.reserve (stack.manifest (.ofBytes bytes))
  Manifest.ofValue p (← readValue (.ofBytes bytes) (.manifest ∘ .notYaml p))

end StubTree
