import StubTree.Document.Json
import StubTree.Fault
import StubTree.Yaml.Writer

/-! # Serialized documents

The formats that other programs can read a document in.
-/

namespace StubTree.Document

inductive Format where
  | json
  | yaml
  deriving DecidableEq, Repr

namespace Format

def name : Format → String
  | json => "json"
  | yaml => "yaml"

def ofName (name : String) : Except Fault Format :=
  match [json, yaml].find? (·.name == name) with
  | some format => .ok format
  | none => .error (.unsupportedFormat name)

end Format

/-- How deep collections can be nested in a YAML text that is written. -/
def maxYamlDepth : Nat := 328

def serialize (d : Document) : Format → Except Fault String
  | .json =>
    match Json.write? 0 d with
    | some s => .ok s
    | none => .error .unwritableKey
  | .yaml => if maxYamlDepth < d.depth then .error .tooDeep else .ok (Yaml.write d)

end StubTree.Document
