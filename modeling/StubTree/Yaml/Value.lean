import StubTree.Document.Graph
import StubTree.Document.SetOrder
import StubTree.Yaml.Merge
import StubTree.Yaml.Scalar

/-! # From nodes to values

Every node denotes one value by its tag, however often it is used. A collection is made empty and
filled later, first made first filled, so it can hold itself, and of several faults the one in the
collection that was made first counts.
-/

namespace StubTree.Yaml

/-- The values that have been made so far. `made` gives the place of a node's value, and `waiting`
the collections that were made, in order, filled or not. `mergeKeys` is the number of merge keys
at the start. -/
structure Builder where
  nodes : Array Node
  mergeKeys : Nat
  made : Array (Option Ref)
  cells : Array (Shape Ref)
  waiting : Array (NodeId × Ref) := #[]

namespace Builder

/-- The place of the value that the word for what is no number denotes. It is the same value
wherever the word stands. -/
def nanPlace : Ref := 0

def start (g : NodeGraph) : Builder :=
  ⟨g.nodes, Merge.count g.nodes, Array.replicate g.nodes.size none, #[.float .nan], #[]⟩

/-- The text of a node that stands for a scalar. A mapping stands for the scalar under its value
key, which may be the mapping itself. -/
def scalarText (nodes : Array Node) : Nat → NodeId → Except YamlFault String
  | 0, _ => .error .tooDeep
  | fuel + 1, id =>
    match nodes[id]? with
    | some ⟨_, .scalar text⟩ => .ok text
    | some ⟨_, .mapping entries⟩ =>
      match entries.find? fun (k, _) => Merge.tagOf nodes k == .value with
      | some (_, v) => scalarText nodes fuel v
      | none => .error .malformed
    | _ => .error .malformed

/-- What a scalar's tag makes of its text. -/
def scalarReading? (isMapping : Bool) : Tag → Option (String → Except YamlFault (Shape Ref))
  | .null => some fun _ => .ok .null
  | .bool => some fun text => .bool <$> truthOf text
  | .int => some fun text => .int <$> intOf text
  | .float => some fun text => .float <$> floatOf text
  | .timestamp => some fun text => if isMapping then .error .mappedMoment else timestampOf text
  | .binary => some fun text => .bytes <$> bytesOf text
  | .str => some fun text => .ok (.text text)
  | _ => none

/-- The empty collection of a tag. -/
def emptyShape? : Tag → Option (Shape Ref)
  | .seq | .omap | .pairs => some (.list [])
  | .map => some (.mapping [])
  | .set => some (.set [])
  | _ => none

def put (b : Builder) (shape : Shape Ref) : Ref × Builder :=
  (b.cells.size, { b with cells := b.cells.push shape })

def note (b : Builder) (id : NodeId) (place : Ref) : Builder :=
  { b with made := b.made.setIfInBounds id (some place) }

/-- Makes the value of a node unless it is made already. -/
def make (b : Builder) (id : NodeId) : Except YamlFault (Ref × Builder) := do
  match (b.made[id]?).join with
  | some place => return (place, b)
  | none =>
    let tag := Merge.tagOf b.nodes id
    match emptyShape? tag with
    | some shape =>
      -- Empty for now, so that what is in it can refer back to it.
      let (place, b) := b.put shape
      return (place, { b.note id place with waiting := b.waiting.push (id, place) })
    | none =>
      let some reading := scalarReading? (Merge.entries? b.nodes id).isSome tag
        | throw .malformed
      let text ← scalarText b.nodes (b.nodes.size + 1) id
      -- What equals nothing is still the same value as itself.
      if tag == .float && isNanWord text then return (nanPlace, b.note id nanPlace)
      let (place, b) := b.put (← reading text)
      return (place, b.note id place)

/-- Makes the values of nodes, in order. -/
def makeAll (b : Builder) : List NodeId → Except YamlFault (List Ref × Builder)
  | [] => .ok ([], b)
  | id :: rest => do
    let (place, b) ← b.make id
    let (places, b) ← b.makeAll rest
    return (place :: places, b)

/-- Whether a value can be the key of a mapping: anything but a collection that can grow. -/
def isKey : Shape Ref → Bool
  | .list _ | .mapping _ | .set _ => false
  | _ => true

/-- Whether two places hold the same key. A value is the same as itself, even one that equals
nothing. -/
def sameKey (b : Builder) (k l : Ref) : Bool :=
  k == l || (b.cells.getD k .null).sameScalar (b.cells.getD l .null)

/-- Sets the value of a key: a key that is there keeps its place, a new one comes last. -/
def insert (b : Builder) (key value : Ref) : List (Ref × Ref) → List (Ref × Ref)
  | [] => [(key, value)]
  | (k, v) :: rest =>
    if b.sameKey k key then (k, value) :: rest else (k, v) :: b.insert key value rest

/-- Makes the entries of a mapping, after the entries `before`. -/
def makeEntries (b : Builder) (before : List (Ref × Ref)) :
    List NodeEntry → Except YamlFault (List (Ref × Ref) × Builder)
  | [] => .ok (before, b)
  | (k, v) :: rest => do
    let (key, b) ← b.make k
    if !isKey (b.cells.getD key .null) then throw .malformed
    let (value, b) ← b.make v
    b.makeEntries (b.insert key value before) rest

/-- Makes pairs of the mappings of a list, which hold a single entry each. -/
def makePairs (b : Builder) : List NodeId → Except YamlFault (List Ref × Builder)
  | [] => .ok ([], b)
  | id :: rest => do
    match Merge.entries? b.nodes id with
    | some [(k, v)] =>
      let (first, b) ← b.make k
      let (second, b) ← b.make v
      let (place, b) := b.put (.pair first second)
      let (places, b) ← b.makePairs rest
      return (place :: places, b)
    | _ => throw .malformed

/-- The entries of a mapping, with those that it merges. -/
def merged (b : Builder) (id : NodeId) : Except YamlFault (List NodeEntry × Builder) := do
  if (Merge.entries? b.nodes id).isNone then throw .malformed
  let nodes ← Merge.mergeFrom (b.mergeKeys + 1) id 0 [] b.nodes
  return (Merge.entriesOf nodes id, { b with nodes })

/-- The content of a collection that was made empty. -/
def content (b : Builder) (id : NodeId) : Except YamlFault (Shape Ref × Builder) := do
  match b.nodes[id]? with
  | some ⟨.seq, .sequence items⟩ =>
    let (places, b) ← b.makeAll items
    return (.list places, b)
  | some ⟨.omap, .sequence items⟩ | some ⟨.pairs, .sequence items⟩ =>
    let (places, b) ← b.makePairs items
    return (.list places, b)
  | some ⟨.map, _⟩ =>
    let (entries, b) ← b.merged id
    let (entries, b) ← b.makeEntries [] entries
    return (.mapping entries, b)
  | some ⟨.set, _⟩ =>
    let (entries, b) ← b.merged id
    let (entries, b) ← b.makeEntries [] entries
    let shapeOf (key : Ref) := b.cells.getD key .null
    return (.set (SetOrder.arrange shapeOf (entries.map (·.1))), b)
  | _ => throw .malformed

/-- Fills the collections that wait, from the `n`-th on. Each node waits once at most. -/
def fill : Nat → Nat → Builder → Except YamlFault Builder
  | 0, _, b => .ok b
  | fuel + 1, n, b =>
    match b.waiting[n]? with
    | none => .ok b
    | some (id, place) => do
      let (shape, b) ← b.content id
      fill fuel (n + 1) { b with cells := b.cells.setIfInBounds place shape }

end Builder

def NodeGraph.value (g : NodeGraph) : Except YamlFault SharedValue := do
  let (place, b) ← (Builder.start g).make g.root
  let b ← Builder.fill (g.nodes.size + 1) 0 b
  return ⟨⟨b.cells⟩, place⟩

/-- Reads the value of a stream. An empty stream reads as nothing. -/
def read (stream : Stream) : Except YamlFault SharedValue := do
  match ← NodeGraph.ofTokens? (← tokensOf stream) with
  | none => return ⟨⟨#[.null]⟩, 0⟩
  | some g => g.value

end StubTree.Yaml
