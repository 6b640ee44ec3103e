import StubTree.Generation
import StubTree.Session.Basic
import StubTree.Stub.Directory

/-! # Draining the queue

Each round takes the oldest namespace from the queue and writes its stub with all the types it
has by now. Types that are met in a stub are registered, and so may put further namespaces, or
the same one again, into the queue. The rounds end when the queue is empty.

The types of a namespace, the types that are new to it, the names that are imported from a module
and the targets are kept without an order of their own. In which one they are gone through is an
argument of a run; unless another one is given, it is that in which they are listed.
-/

namespace StubTree

/-- One writing of a stub: the types it holds, those of them new since the last writing, and
its text. -/
structure Emission where
  space : Namespace
  path : Path
  types : List TypeId
  added : List TypeId
  text : String
  deriving DecidableEq, Repr

inductive Event where
  | emitted (e : Emission)
  | skipped (space : Namespace)
  deriving DecidableEq, Repr

/-- An order for each collection without one, for the types of a namespace and what is imported into
its stub given anew in each round. Rounds are told by how many there were before. -/
structure Enumeration where
  members : Nat → List TypeId → List TypeId
  added : Nat → List TypeId → List TypeId
  names : Nat → Stub.NameOrder
  targets : List String → List String
  members_perm : ∀ round types, (members round types).Perm types
  added_perm : ∀ round types, (added round types).Perm types
  names_perm : ∀ round source words, (names round source words).Perm words
  targets_perm : ∀ words, (targets words).Perm words

namespace Enumeration

/-- The order in which things are listed. -/
def listed : Enumeration where
  members _ types := types
  added _ types := types
  names _ _ words := words
  targets words := words
  members_perm _ _ := .refl _
  added_perm _ _ := .refl _
  names_perm _ _ _ := .refl _
  targets_perm _ := .refl _

@[simp] theorem members_listed (round : Nat) (types : List TypeId) :
    listed.members round types = types := rfl

@[simp] theorem added_listed (round : Nat) (types : List TypeId) :
    listed.added round types = types := rfl

@[simp] theorem names_listed (round : Nat) : listed.names round = fun _ words => words := rfl

end Enumeration

/-- What stays the same from round to round. -/
structure Plan where
  session : Session
  destination : Path

/-- What changes from round to round. -/
structure Stage where
  registry : Registry
  disk : Disk
  events : List Event := []

namespace Plan

def library (p : Plan) : Library := p.session.loader.library

def stubPath (p : Plan) (directory : Path) : Path :=
  directory.entry p.session.options.stubFileName

/-- Writes the stub of a namespace. Where a step fails, what came before it stays. -/
def emit (p : Plan) (s : Stage) (space : Namespace) (types : List TypeId)
    (e : Enumeration := .listed) : Stage × Option Fault :=
  match space.directory p.destination with
  | .error fault => (s, some fault)
  | .ok directory =>
    match s.disk.makeDirectories directory with
    | (disk, some fault) => ({ s with disk }, some fault)
    | (disk, none) =>
      -- Cleared before the stub is rendered: what is met in it is an addition of the next round.
      let (added, cleared) := s.registry.clear space
      let (met, rendered) := Stub.render p.library space types (e.names s.events.length)
      -- Types met before the rendering breaks off are registered all the same.
      let s := { s with disk, registry := cleared.addAll met }
      match rendered with
      | .error fault => (s, some fault)
      | .ok text =>
        let path := p.stubPath directory
        match disk.write path text.toUTF8 with
        | .error fault => (s, some fault)
        | .ok disk =>
          let emission : Emission := ⟨space, path, types, e.added s.events.length added, text⟩
          ({ s with disk, events := s.events ++ [.emitted emission] }, none)

/-- One round: nothing if the queue is empty. -/
def round? (p : Plan) (s : Stage) (e : Enumeration := .listed) : Option (Stage × Option Fault) :=
  match s.registry.pop? with
  | none => none
  | some ((space, members), registry) =>
    let s := { s with registry }
    match space.check with
    | .error fault => some (s, some fault)
    | .ok () =>
      match p.session.select (e.members s.events.length members) with
      | [] => some ({ s with events := s.events ++ [.skipped space] }, none)
      | types => some (p.emit s space types e)

/-- Rounds until the queue is empty or a round fails, at most `fuel` of them. -/
def drain (p : Plan) (fuel : Nat) (s : Stage) (e : Enumeration := .listed) :
    Stage × Option Fault :=
  match fuel with
  | 0 => (s, if s.registry.isDrained then none else some .tooDeep)
  | fuel + 1 =>
    match p.round? s e with
    | none => (s, none)
    | some (s, some fault) => (s, some fault)
    | some (s, none) => drain p fuel s e

/-- How many rounds there can be: every queued namespace has one, and every type of the library
that is registered later can queue one more. -/
def roundBound (p : Plan) (r : Registry) : Nat := r.queue.length + p.library.typeCount

end Plan

/-- The record that the events of a run make. -/
def Generation.note (g : Generation) : Event → Generation
  | .emitted e => g.record e.space e.path e.types e.added
  | .skipped space => g.skip space

/-- What is said of an event. -/
def Event.progress : Event → List Progress
  | .emitted e => [.stub e.space e.path]
  | .skipped _ => []

end StubTree
