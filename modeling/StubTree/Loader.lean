import StubTree.Library
import StubTree.Manifest.Load
import StubTree.Text.Sorted

/-! # Loading binaries

The loader reads manifests and links each binary to those it references. A binary whose name is
loaded is never loaded again. What is missing is asked of the resolver, which as a rule looks
for a file of the binary's short name in the search paths, in the order in which they were
added.

A binary enters the library before its references are followed, so references may run in
circles; where one of them fails, the binaries that were entered stay.

A manifest is loaded inside the loading of the one that refers to it, on one stack of calls. A stack
may be given to what is loaded through the search paths. Unless one is, it has no end, and loading
goes as deep as the references between the files lead.
-/

namespace StubTree

/-- What a resolver of one's own does for an identity: load a manifest into the library, or only
read it. -/
inductive Supply where
  | load (path : Path)
  | read (path : Path)
  deriving DecidableEq, Repr

/-- Who is asked for missing binaries. A resolver of one's own answers by the identity alone: it has
no state, and for the same identity it always has nothing, or has one path loaded or read. -/
inductive Resolver where
  | searchPaths
  | custom (supply : String → Option Supply)

/-- The state of loading. `asked` lists the identities that a resolver of one's own was asked
for. -/
structure Loader where
  suffix : String := ".yaml"
  resolver : Option Resolver := none
  library : Library := []
  searchPaths : List Path := []
  targets : List String := []
  asked : List String := []

namespace Loader

def get? (l : Loader) (identity : String) : Option Binary :=
  Keyed.get? (shortName identity) l.library

/-- The names of the targets in order. They are kept without one, and gone through in any. -/
def targetNames (l : Loader) (order : List String → List String := fun names => names) :
    List String :=
  Text.sorted (order l.targets)

def absolute (disk : Disk) (p : Path) : Except Fault Path :=
  if p.hasNul then .error .nulInPath else .ok (p.resolve disk.home)

/-- Adds a search path unless it is one. -/
def addSearchPath (disk : Disk) (l : Loader) (p : Path) : Except Fault Loader := do
  let p ← absolute disk p
  return if p ∈ l.searchPaths then l else { l with searchPaths := l.searchPaths ++ [p] }

/-- Adds search paths one after the other, up to the first that is none. -/
def addSearchPaths (disk : Disk) (l : Loader) : List Path → Loader × Except Fault Unit
  | [] => (l, .ok ())
  | p :: rest =>
    match addSearchPath disk l p with
    | .ok l => addSearchPaths disk l rest
    | .error fault => (l, .error fault)

def install (l : Loader) (r : Resolver) : Loader := { l with resolver := some r }

/-- Enters a binary that is linked to nothing yet. -/
def enter (l : Loader) (m : Manifest) : Loader :=
  { l with library := Keyed.set m.name ⟨m, []⟩ l.library }

def addLink (l : Loader) (name : String) (link : Link) : Loader :=
  match Keyed.get? name l.library with
  | none => l
  | some b => { l with library := Keyed.set name { b with links := b.links ++ [link] } l.library }

/-- Where the file of a short name stands, on the first search path that has it. -/
def findFile (disk : Disk) (fileName : String) : List Path → Except Fault (Option Path)
  | [] => .ok none
  | dir :: rest => do
    let candidate := dir.entry fileName
    if Disk.isFile (← disk.probe candidate) then return some candidate
    else findFile disk fileName rest

/-- How a manifest is loaded into the library, given the name that it has to declare. -/
abbrev Load := Loader → Path → Option String → Loader × Except Fault String

/-- Looks for a binary in the search paths. -/
def search (disk : Disk) (load : Load) (l : Loader) (identity : String) :
    Loader × Except Fault (Option Link) :=
  let name := shortName identity
  match findFile disk (name ++ l.suffix) l.searchPaths with
  | .error fault => (l, .error fault)
  | .ok none => (l, .ok none)
  | .ok (some path) =>
    match load l path (some name) with
    | (l, .ok loaded) => (l, .ok (some (.held loaded)))
    | (l, .error fault) => (l, .error fault)

def ask (disk : Disk) (load : Load) (l : Loader) (identity : String) :
    Loader × Except Fault (Option Link) :=
  match l.resolver with
  | none => (l, .ok none)
  | some .searchPaths => search disk load l identity
  | some (.custom supply) =>
    let l := { l with asked := l.asked ++ [identity] }
    match supply identity with
    | none => (l, .ok none)
    | some (.load path) =>
      match load l path none with
      | (l, .ok loaded) => (l, .ok (some (.held loaded)))
      | (l, .error fault) => (l, .error fault)
    | some (.read path) =>
      match Manifest.load disk path with
      | .ok m => (l, .ok (some (.apart m)))
      | .error fault => (l, .error fault)

/-- Refuses a binary that does not have the short name it was asked for by. -/
def accept (l : Loader) (identity : String) : Option Link → Except Fault Link
  | none => .error (.binaryNotFound identity l.searchPaths)
  | some link =>
    if link.name == shortName identity then .ok link
    else .error (.binaryMisnamed identity
      (((l.library.manifest? link).map (·.path)).getD default) link.name)

/-- The loaded binary for an identity, or what the resolver has for it. -/
def requireWith (disk : Disk) (load : Load) (l : Loader) (identity : String) :
    Loader × Except Fault Link :=
  match l.get? identity with
  | some _ => (l, .ok (.held (shortName identity)))
  | none =>
    match ask disk load l identity with
    | (l, .error fault) => (l, .error fault)
    -- What was loaded on the way stays, even where the answer is refused.
    | (l, .ok found) => (l, l.accept identity found)

/-- Links a binary to what each of its references requires, up to the first that fails. -/
def linkAll (require : Loader → String → Loader × Except Fault Link) (name : String) :
    List String → Loader → Loader × Except Fault Unit
  | [], l => (l, .ok ())
  | reference :: rest, l =>
    match require l reference with
    | (l, .ok link) => linkAll require name rest (l.addLink name link)
    | (l, .error fault) => (l, .error fault)

/-- Reads a manifest and checks the name it declares. -/
def readExpected (disk : Disk) (path : Path) (expected : Option String)
    (stack : Stack := .endless) : Except Fault Manifest := do
  let path ← absolute disk path
  let m ← Manifest.load disk path stack
  match expected with
  | none => return m
  | some name => if m.name == name then return m else throw (.binaryMisnamed name path m.name)

/-- Loads the manifest at a path and what it references, `fuel` manifests deep. The result is
the name of a loaded binary. -/
def loadWithin (disk : Disk) : Stack → Nat → Load
  | _, 0, l, _, _ => (l, .error .tooDeep)
  | stack, fuel + 1, l, path, expected =>
    match readExpected disk path expected stack with
    | .error fault => (l, .error fault)
    | .ok m =>
      match Keyed.get? m.name l.library with
      | some _ => (l, .ok m.name)
      | none =>
        -- The binary enters first, so that a reference back to it finds it.
        match linkAll (requireWith disk (loadWithin disk (stack.inside .reference) fuel)) m.name
            m.references (l.enter m) with
        | (l, .ok ()) => (l, .ok m.name)
        | (l, .error fault) => (l, .error fault)

/-- How deep loading goes at most if the stack lets it: every manifest on the way down enters a name
that no other on the way has, and the last may be one that is loaded. -/
def depthBound (disk : Disk) : Nat := disk.fileCount + 1

def loadOn (disk : Disk) (stack : Stack) : Load := loadWithin disk stack (depthBound disk)

def load (disk : Disk) : Load := loadOn disk .endless

theorem loadOn_endless (disk : Disk) : loadOn disk .endless = load disk := rfl

/-- The loaded binary for an identity, loading it if need be. -/
def require (disk : Disk) (l : Loader) (identity : String) (stack : Stack := .endless) :
    Loader × Except Fault Link :=
  requireWith disk (loadOn disk (stack.inside .identity)) l identity

/-- Loads a binary that was asked for by its path. Its directory becomes a search path and its
name a target. -/
def loadTarget (disk : Disk) (l : Loader) (path : Path) (stack : Stack := .endless) :
    Loader × Except Fault String :=
  match absolute disk path with
  | .error fault => (l, .error fault)
  | .ok path =>
    match addSearchPath disk l path.parent with
    | .error fault => (l, .error fault)
    | .ok l =>
      -- The directory stays a search path, whatever comes of the manifest.
      match loadOn disk (stack.inside .target) l path none with
      | (l, .error fault) => (l, .error fault)
      | (l, .ok name) =>
        (if name ∈ l.targets then l else { l with targets := l.targets ++ [name] }, .ok name)

/-- A call for a binary: by its path as a target, by its path with the name it has to declare,
or by its identity. -/
inductive Call where
  | target (path : Path)
  | manifest (path : Path) (expected : Option String)
  | identity (identity : String)

/-- What a call comes to. -/
def call (disk : Disk) (l : Loader) (c : Call) (stack : Stack := .endless) :
    Loader × Except Fault Link :=
  match c with
  | .target path =>
    let (l, result) := l.loadTarget disk path stack
    (l, result.map .held)
  | .manifest path expected =>
    let (l, result) := loadOn disk stack l path expected
    (l, result.map .held)
  | .identity identity => l.require disk identity stack

theorem call_target (disk : Disk) (l : Loader) (path : Path) :
    l.call disk (.target path) =
      ((l.loadTarget disk path).1, (l.loadTarget disk path).2.map .held) := rfl

theorem call_manifest (disk : Disk) (l : Loader) (path : Path) (expected : Option String) :
    l.call disk (.manifest path expected) =
      ((load disk l path expected).1, (load disk l path expected).2.map .held) := rfl

end Loader

end StubTree
