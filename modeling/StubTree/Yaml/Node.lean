import StubTree.Keyed
import StubTree.Yaml.Tag
import StubTree.Yaml.Token.Lexer

/-! # Nodes of YAML

The one document of a stream as a graph of scalars, sequences and mappings, each with its tag.
A collection gives its parts by their numbers. An alias is the number of the node that it stands
for, so a node can be part of several others, and of itself.
-/

namespace StubTree.Yaml

abbrev NodeId := Nat

/-- What a node holds. -/
inductive Content where
  | scalar (text : String)
  | sequence (items : List NodeId)
  | mapping (entries : List (NodeId × NodeId))

structure Node where
  tag : Tag
  content : Content

/-- The nodes of a document, by number, and the number of its root. -/
structure NodeGraph where
  nodes : Array Node
  root : NodeId

/-- How far the reading of a stream has come: the tokens that are left, what the anchors so far
stand for, and the nodes so far. -/
structure Position where
  tokens : List Token
  anchors : Keyed String NodeId := []
  nodes : Array Node := #[]

namespace Position

/-- The position in front of the tokens `rest`. -/
def before (p : Position) (rest : List Token) : Position := { p with tokens := rest }

def add (p : Position) (n : Node) : NodeId × Position :=
  (p.nodes.size, { p with nodes := p.nodes.push n })

/-- Gives a node its content. -/
def put (p : Position) (id : NodeId) (n : Node) : Position :=
  { p with nodes := p.nodes.setIfInBounds id n }

/-- Notes what an anchor stands for. -/
def name (p : Position) (anchor : Option String) (id : NodeId) : Position :=
  match anchor with
  | none => p
  | some a => { p with anchors := (a, id) :: p.anchors }

/-- Adds a node and what its anchor stands for. -/
def addNamed (p : Position) (anchor : Option String) (n : Node) : NodeId × Position :=
  let (id, p) := p.add n
  (id, p.name anchor id)

end Position

namespace Grammar

/-- Adds the node that stands where nothing is written. -/
def nothing (p : Position) : NodeId × Position := p.add ⟨.null, .scalar ""⟩

abbrev Handles := Keyed String String

def defaultHandles : Handles := [("!", "!"), ("!!", Tag.standard)]

/-- The anchor and the tag in front of a node. -/
structure Prelude where
  anchor : Option String := none
  tag : Option WrittenTag := none

/-- Reads an anchor and a tag, in either order. -/
def prelude : List Token → Prelude × List Token
  | .anchor a :: .tag t :: rest | .tag t :: .anchor a :: rest => (⟨some a, some t⟩, rest)
  | .anchor a :: rest => (⟨some a, none⟩, rest)
  | .tag t :: rest => (⟨none, some t⟩, rest)
  | rest => ({}, rest)

/-- The full text of a tag. -/
def tagText (handles : Handles) (t : WrittenTag) : Except YamlFault String :=
  match t.handle with
  | none => .ok t.rest
  | some h =>
    match handles.get? h with
    | some meaning => .ok (meaning ++ t.rest)
    | none => .error .malformed

/-- The tag of a node. A lone exclamation mark counts as none, but reads a scalar as plain. -/
def tagOr (default : Tag) (text : Option String) : Tag :=
  match text with
  | none | some "!" => default
  | some s => Tag.ofText s

def scalarTag (written : Option String) (text : String) (isPlain : Bool) : Tag :=
  match written with
  | none => if isPlain then Tag.ofPlain text else .str
  | some "!" => Tag.ofPlain text
  | some s => Tag.ofText s

/-- Why the tokens ahead cannot be read: they are not in place, or they are not there because the
stream breaks off. -/
def complaint : List Token → YamlFault
  | .broken cause :: _ => cause
  | _ => .malformed

/-- Looks at the next token, which the stream may break off before. -/
def look : List Token → Except YamlFault Unit
  | .broken cause :: _ => .error cause
  | _ => .ok ()

/-- The tokens that end an item of a block sequence. -/
def endsItem : List Token → Bool
  | .blockEntry :: _ | .blockEnd :: _ => true
  | _ => false

/-- The tokens that end a key or a value of a block mapping. -/
def endsEntry : List Token → Bool
  | .key :: _ | .value :: _ | .blockEnd :: _ => true
  | _ => false

def endsFlowKey : List Token → Bool
  | .value :: _ | .flowEntry :: _ | .flowSequenceEnd :: _ | .flowMappingEnd :: _ => true
  | _ => false

def endsFlowValue : List Token → Bool
  | .flowEntry :: _ | .flowSequenceEnd :: _ | .flowMappingEnd :: _ => true
  | _ => false

/-- Whether a node stands between brackets, in a block, or where a block mapping holds it. -/
inductive Context where
  | flow
  | block
  | entry
  deriving DecidableEq

/-- How deep collections can be nested where little else is on the stack of calls. -/
def maxDepth : Nat := 490

/-- The node of an empty scalar behind an anchor or a tag; without either there is none. -/
def bare (anchor tag : Option String) (p : Position) : Except YamlFault (NodeId × Position) :=
  if anchor.isNone && tag.isNone then .error .malformed
  else .ok (p.addNamed anchor ⟨scalarTag tag "" true, .scalar ""⟩)

mutual

/-- Reads a node, with `room` for so many levels of nesting. -/
def node (handles : Handles) : Nat → Nat → Context → Position →
    Except YamlFault (NodeId × Position)
  | 0, _, _, _ => .error .malformed
  | _, 0, _, _ => .error .tooDeep
  | fuel + 1, room + 1, context, p => do
    look p.tokens
    match p.tokens with
    | .alias a :: rest =>
      match p.anchors.get? a with
      | some id => return (id, p.before rest)
      | none => throw .malformed
    | tokens =>
      let (front, rest) := prelude tokens
      if front.anchor.isNone then look rest
      let tag ← front.tag.mapM (tagText handles)
      look rest
      if front.anchor.any fun a => (p.anchors.get? a).isSome then throw .malformed
      content handles fuel room context front.anchor tag (p.before rest)

/-- Reads a node behind its anchor and its tag. -/
def content (handles : Handles) : Nat → Nat → Context → Option String → Option String → Position →
    Except YamlFault (NodeId × Position)
  | 0, _, _, _, _, _ => .error .malformed
  | fuel + 1, room, context, anchor, tag, p =>
    match p.tokens with
    | .scalar text isPlain :: rest =>
      .ok ((p.before rest).addNamed anchor ⟨scalarTag tag text isPlain, .scalar text⟩)
    | .flowSequenceStart :: rest => do
      -- The node has its number before its items are read, so that they can refer to it.
      let (id, p) := (p.before rest).addNamed anchor ⟨tagOr .seq tag, .sequence []⟩
      let (items, p) ← flowItems handles fuel room true p
      return (id, p.put id ⟨tagOr .seq tag, .sequence items⟩)
    | .flowMappingStart :: rest => do
      let (id, p) := (p.before rest).addNamed anchor ⟨tagOr .map tag, .mapping []⟩
      let (entries, p) ← flowEntries handles fuel room true p
      return (id, p.put id ⟨tagOr .map tag, .mapping entries⟩)
    | .blockSequenceStart :: rest =>
      if context == .flow then bare anchor tag p
      else do
        let (id, p) := (p.before rest).addNamed anchor ⟨tagOr .seq tag, .sequence []⟩
        let (items, p) ← blockItems handles fuel room p
        return (id, p.put id ⟨tagOr .seq tag, .sequence items⟩)
    | .blockMappingStart :: rest =>
      if context == .flow then bare anchor tag p
      else do
        let (id, p) := (p.before rest).addNamed anchor ⟨tagOr .map tag, .mapping []⟩
        let (entries, p) ← blockEntries handles fuel room p
        return (id, p.put id ⟨tagOr .map tag, .mapping entries⟩)
    | .blockEntry :: _ =>
      if context == .entry then do
        let (id, p) := p.addNamed anchor ⟨tagOr .seq tag, .sequence []⟩
        let (items, p) ← levelItems handles fuel room p
        return (id, p.put id ⟨tagOr .seq tag, .sequence items⟩)
      else bare anchor tag p
    | _ => bare anchor tag p

def blockItems (handles : Handles) : Nat → Nat → Position →
    Except YamlFault (List NodeId × Position)
  | 0, _, _ => .error .malformed
  | fuel + 1, room, p =>
    match p.tokens with
    | .blockEntry :: rest => do
      let p := p.before rest
      let (item, p) ← if endsItem rest then pure (nothing p) else node handles fuel room .block p
      let (items, p) ← blockItems handles fuel room p
      return (item :: items, p)
    | .blockEnd :: rest => .ok ([], p.before rest)
    | other => .error (complaint other)

/-- The items of a sequence that is indented no deeper than the mapping that holds it. -/
def levelItems (handles : Handles) : Nat → Nat → Position →
    Except YamlFault (List NodeId × Position)
  | 0, _, _ => .error .malformed
  | fuel + 1, room, p =>
    match p.tokens with
    | .blockEntry :: rest => do
      let p := p.before rest
      let (item, p) ← if endsItem rest || endsEntry rest then pure (nothing p)
        else node handles fuel room .block p
      let (items, p) ← levelItems handles fuel room p
      return (item :: items, p)
    | _ => .ok ([], p)

def blockEntries (handles : Handles) : Nat → Nat → Position →
    Except YamlFault (List (NodeId × NodeId) × Position)
  | 0, _, _ => .error .malformed
  | fuel + 1, room, p =>
    match p.tokens with
    | .key :: rest => do
      let p := p.before rest
      let (key, p) ← if endsEntry rest then pure (nothing p) else node handles fuel room .entry p
      let (value, p) ← blockValue handles fuel room p
      let (entries, p) ← blockEntries handles fuel room p
      return ((key, value) :: entries, p)
    | .blockEnd :: rest => .ok ([], p.before rest)
    | other => .error (complaint other)

/-- The value of an entry of a block mapping, if it has one. -/
def blockValue (handles : Handles) : Nat → Nat → Position → Except YamlFault (NodeId × Position)
  | 0, _, _ => .error .malformed
  | fuel + 1, room, p =>
    match p.tokens with
    | .value :: rest =>
      let p := p.before rest
      if endsEntry rest then .ok (nothing p) else node handles fuel room .entry p
    | _ => .ok (nothing p)

/-- The items between square brackets. A key with its value is an item of its own. -/
def flowItems (handles : Handles) : Nat → Nat → Bool → Position →
    Except YamlFault (List NodeId × Position)
  | 0, _, _, _ => .error .malformed
  | fuel + 1, room, isFirst, p =>
    match p.tokens, isFirst with
    | .flowSequenceEnd :: rest, _ => .ok ([], p.before rest)
    | .flowEntry :: .flowSequenceEnd :: rest, false => .ok ([], p.before rest)
    | .flowEntry :: rest, false => flowItem handles fuel room (p.before rest)
    | _, true => flowItem handles fuel room p
    | other, false => .error (complaint other)

/-- One item between square brackets and those after it. -/
def flowItem (handles : Handles) : Nat → Nat → Position →
    Except YamlFault (List NodeId × Position)
  | 0, _, _ => .error .malformed
  | fuel + 1, room, p => do
    let (item, p) ← match p.tokens with
      | .key :: rest => do
        -- A pair in a sequence stands for a mapping with one entry.
        let (id, p) := (p.before rest).add ⟨.map, .mapping []⟩
        let (key, p) ← flowKey handles fuel (room - 1) p
        let (value, p) ← flowValue handles fuel (room - 1) p
        pure (id, p.put id ⟨.map, .mapping [(key, value)]⟩)
      | _ => node handles fuel room .flow p
    let (items, p) ← flowItems handles fuel room false p
    return (item :: items, p)

/-- The entries between curly brackets. -/
def flowEntries (handles : Handles) : Nat → Nat → Bool → Position →
    Except YamlFault (List (NodeId × NodeId) × Position)
  | 0, _, _, _ => .error .malformed
  | fuel + 1, room, isFirst, p =>
    match p.tokens, isFirst with
    | .flowMappingEnd :: rest, _ => .ok ([], p.before rest)
    | .flowEntry :: .flowMappingEnd :: rest, false => .ok ([], p.before rest)
    | .flowEntry :: rest, false => flowPair handles fuel room (p.before rest)
    | _, true => flowPair handles fuel room p
    | other, false => .error (complaint other)

/-- One entry between curly brackets and those after it. Without a colon its value is empty. -/
def flowPair (handles : Handles) : Nat → Nat → Position →
    Except YamlFault (List (NodeId × NodeId) × Position)
  | 0, _, _ => .error .malformed
  | fuel + 1, room, p => do
    let ((key, value), p) ← match p.tokens with
      | .key :: rest => do
        let (key, p) ← flowKey handles fuel room (p.before rest)
        let (value, p) ← flowValue handles fuel room p
        pure ((key, value), p)
      | _ => do
        let (key, p) ← node handles fuel room .flow p
        let (value, p) := nothing p
        pure ((key, value), p)
    let (entries, p) ← flowEntries handles fuel room false p
    return ((key, value) :: entries, p)

def flowKey (handles : Handles) : Nat → Nat → Position → Except YamlFault (NodeId × Position)
  | 0, _, _ => .error .malformed
  | fuel + 1, room, p =>
    if endsFlowKey p.tokens then .ok (nothing p) else node handles fuel room .flow p

/-- A value between brackets, if there is one. -/
def flowValue (handles : Handles) : Nat → Nat → Position → Except YamlFault (NodeId × Position)
  | 0, _, _ => .error .malformed
  | fuel + 1, room, p =>
    match p.tokens with
    | .value :: rest =>
      let p := p.before rest
      if endsFlowValue rest then .ok (nothing p) else node handles fuel room .flow p
    | _ => .ok (nothing p)

end

/-- The directives before a document. The version is given at most once and is 1; no handle
is given twice. -/
def directives (version : Bool) (handles : Handles) : List Token →
    Except YamlFault (Handles × List Token)
  | .version major :: rest =>
    if version || major != 1 then .error .malformed else directives true handles rest
  | .handle name meaning :: rest =>
    if (handles.get? name).isSome then .error .malformed
    else directives version ((name, meaning) :: handles) rest
  | .directive :: rest => directives version handles rest
  | rest => .ok (handles, rest)

/-- The handles of a document: those it gives, then those that always stand. -/
def withDefaults (handles : Handles) : Handles := handles ++ defaultHandles

/-- Checks that the rest of a stream holds nothing but ends of documents. The directives of
another document are still looked at. -/
def finish : List Token → Except YamlFault Unit
  | [] => .ok ()
  | .documentEnd :: rest => finish rest
  | other => do
    let (_, rest) ← directives false [] other
    throw (complaint rest)

/-- Whether a document behind its start mark is empty. -/
def isEmptyDocument : List Token → Bool
  | [] | .directive :: _ | .version _ :: _ | .handle .. :: _ | .documentStart :: _
  | .documentEnd :: _ => true
  | _ => false

/-- Reads the node of a document and checks that the stream ends behind it. -/
def only (handles : Handles) (tokens : List Token) : Except YamlFault NodeGraph := do
  let (root, p) ← node handles (8 * tokens.length + 8) maxDepth .block { tokens }
  finish p.tokens
  return ⟨p.nodes, root⟩

/-- Reads a document that starts with directives or with a start mark. -/
def explicit (tokens : List Token) : Except YamlFault NodeGraph := do
  let (handles, rest) ← directives false [] tokens
  match rest with
  | .documentStart :: rest =>
    if isEmptyDocument rest then
      finish rest
      return ⟨#[⟨.null, .scalar ""⟩], 0⟩
    else only (withDefaults handles) rest
  | other => throw (complaint other)

end Grammar

/-- The one document of a stream, if the stream holds any. More than one is a fault. -/
def NodeGraph.ofTokens? (tokens : List Token) : Except YamlFault (Option NodeGraph) :=
  match tokens with
  | [] => .ok none
  | .version _ :: _ | .handle .. :: _ | .directive :: _ | .documentStart :: _ =>
    some <$> Grammar.explicit tokens
  | _ => some <$> Grammar.only Grammar.defaultHandles tokens

end StubTree.Yaml
