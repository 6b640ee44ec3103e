import StubTree.Keyed
import StubTree.Namespace
import StubTree.Total

/-! # The registry of types

The registry knows every type found so far, by namespace, and the namespaces that still
have to be written. A namespace is queued when it gains a type it did not have; adding a
known type changes nothing. For each namespace the types added since it was last cleared
are kept apart.
-/

namespace StubTree

/-- What makes a type the type it is: its namespace, its name and the binary that declares
it. -/
structure TypeId where
  space : Namespace
  name : String
  unit : String
  deriving DecidableEq, Repr

/-- Types by namespace, each once and in the order of discovery, and the queue of namespaces
to write. `queued` marks the namespaces that stand in the queue. -/
structure Registry where
  found : Keyed Namespace (List TypeId) := []
  fresh : Keyed Namespace (List TypeId) := []
  queue : List Namespace := []
  queued : List Namespace := []
  deriving DecidableEq, Repr

namespace Registry

def members (r : Registry) (space : Namespace) : List TypeId := (r.found.get? space).getD []

/-- The types of a namespace that were added since it was last cleared. -/
def pending (r : Registry) (space : Namespace) : List TypeId := (r.fresh.get? space).getD []

def namespaces (r : Registry) : List Namespace := r.found.keys

def contains (r : Registry) (t : TypeId) : Bool := decide (t ∈ r.members t.space)

def size (r : Registry) : Nat := total (r.found.values.map List.length)

/-- Whether no namespace is left to write. -/
def isDrained (r : Registry) : Bool := r.queue.isEmpty

/-- Puts a namespace at the end of the queue unless it is marked as queued. -/
def enqueue (r : Registry) (space : Namespace) : Registry :=
  if space ∈ r.queued then r
  else { r with queue := r.queue ++ [space], queued := space :: r.queued }

/-- Adds a type. One that was not known queues its namespace. -/
def add (r : Registry) (t : TypeId) : Registry :=
  if t ∈ r.members t.space then r
  else
    enqueue
      { r with
        found := r.found.set t.space (r.members t.space ++ [t])
        fresh := r.fresh.set t.space (r.pending t.space ++ [t]) }
      t.space

def addAll (r : Registry) (ts : List TypeId) : Registry := ts.foldl add r

/-- Takes the oldest namespace from the queue, with all its types. -/
def pop? (r : Registry) : Option ((Namespace × List TypeId) × Registry) :=
  match r.queue with
  | [] => none
  | space :: rest =>
    some ((space, r.members space), { r with queue := rest, queued := r.queued.erase space })

/-- Starts a new round of additions for a namespace and hands over the last one. -/
def clear (r : Registry) (space : Namespace) : List TypeId × Registry :=
  (r.pending space, { r with fresh := r.fresh.erase space })

end Registry

end StubTree
