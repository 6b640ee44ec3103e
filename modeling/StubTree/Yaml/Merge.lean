import StubTree.Total
import StubTree.Yaml.Node

/-! # Merged mappings

A mapping takes over the entries of the mappings under its merge keys. They are put in front of
its own entries: key after key, and of a list of mappings the last one first. A mapping is
rewritten in place, so whatever shares it sees it with its merged entries.
-/

namespace StubTree.Yaml

/-- An entry of a mapping, by the numbers of its key and its value. -/
abbrev NodeEntry := NodeId × NodeId

namespace Merge

def tagOf (nodes : Array Node) (id : NodeId) : Tag := (nodes[id]?.map (·.tag)).getD .null

/-- The entries of a node, if it is a mapping. -/
def entries? (nodes : Array Node) (id : NodeId) : Option (List NodeEntry) :=
  match nodes[id]? with
  | some ⟨_, .mapping entries⟩ => some entries
  | _ => none

def entriesOf (nodes : Array Node) (id : NodeId) : List NodeEntry :=
  (entries? nodes id).getD []

/-- Gives a mapping other entries. -/
def setEntries (nodes : Array Node) (id : NodeId) (entries : List NodeEntry) : Array Node :=
  nodes.modify id fun n => { n with content := .mapping entries }

/-- The number of merge keys in a mapping. -/
def countIn (nodes : Array Node) (id : NodeId) : Nat :=
  (entriesOf nodes id).countP fun (k, _) => tagOf nodes k == .merge

/-- The number of merge keys in all mappings. -/
def count (nodes : Array Node) : Nat :=
  total ((List.range nodes.size).map (countIn nodes))

/-- The entries in front of the first merge key, its value and the entries behind it. -/
def splitAtKey (nodes : Array Node) :
    List NodeEntry → List NodeEntry × Option (NodeId × List NodeEntry)
  | [] => ([], none)
  | (k, v) :: rest =>
    if tagOf nodes k == .merge then ([], some (v, rest))
    else
      let (before, found) := splitAtKey nodes rest
      ((k, v) :: before, found)

/-- Makes the value keys among some entries plain texts. -/
def settle (nodes : Array Node) (entries : List NodeEntry) : Array Node :=
  entries.foldl (fun nodes (k, _) =>
    if tagOf nodes k == .value then nodes.modify k fun n => { n with tag := .str } else nodes) nodes

/-- Merges into the mapping `id`, whose first `done` entries are settled, when `merged` is what
its merge keys have named so far. -/
def mergeFrom : Nat → NodeId → Nat → List NodeEntry → Array Node → Except YamlFault (Array Node)
  | 0, _, _, _, _ => .error .malformed
  | fuel + 1, id, done, merged, nodes =>
    let entries := entriesOf nodes id
    let (before, found) := splitAtKey nodes (entries.drop done)
    let nodes := settle nodes before
    match found with
    | none => .ok (if merged.isEmpty then nodes else setEntries nodes id (merged ++ entries))
    | some (named, rest) => do
      let done := done + before.length
      -- The merge key goes before it is followed, so there are no more steps than merge keys.
      let nodes := setEntries nodes id (entries.take done ++ rest)
      let one (named : NodeId) (nodes : Array Node) :
          Except YamlFault (List NodeEntry × Array Node) := do
        if (entries? nodes named).isNone then throw .malformed
        let nodes ← mergeFrom fuel named 0 [] nodes
        return (entriesOf nodes named, nodes)
      let (more, nodes) ← match nodes[named]? with
        | some ⟨_, .sequence items⟩ =>
          -- Of a list, the last mapping comes first.
          items.foldlM (fun (later, nodes) item => do
            let (here, nodes) ← one item nodes
            return (here ++ later, nodes)) ([], nodes)
        | _ => one named nodes
      mergeFrom fuel id done (merged ++ more) nodes

end Merge

end StubTree.Yaml
