import StubTree.Session.Drain

/-! # Building a stub tree

A build loads the targets and the built-in binaries, registers what they export, and drains
the queue. What it did to the disk stays, however it ends.
-/

namespace StubTree

/-- How a build or a generation ends: the session and the disk it leaves, what it said, what
its rounds did, and the record of it. -/
structure Built where
  session : Session
  disk : Disk
  said : List Progress
  events : List Event
  result : Except Fault Generation

namespace Session

/-- Refuses the namespaces that are kept for the types outside any, the first of them. -/
def checkAll : List Namespace → Except Fault Unit
  | [] => .ok ()
  | space :: rest => do
    space.check
    checkAll rest

/-- Writes stubs until no namespace is queued. -/
def generate (s : Session) (disk : Disk) (destination : Path) (e : Enumeration := .listed) :
    Built :=
  match checkAll s.registry.namespaces with
  | .error fault => ⟨s, disk, [], [], .error fault⟩
  | .ok () =>
    -- Nothing was written yet where a namespace is refused.
    let plan : Plan := ⟨s, destination⟩
    let (stage, fault) := plan.drain (plan.roundBound s.registry) { registry := s.registry, disk } e
    let start : Generation := ⟨destination, s.loader.targetNames e.targets, [], []⟩
    { session := { s with registry := stage.registry }
      disk := stage.disk
      said := stage.events.flatMap Event.progress
      events := stage.events
      result := match fault with
        | some fault => .error fault
        | none => .ok (stage.events.foldl Generation.note start) }

/-- The options of a build: those of the session, with another choice of types if one is
given. -/
def choose (s : Session) (onlyTargetTypes : Option Document) : Except Fault Session := do
  match onlyTargetTypes with
  | none | some .null => return s
  | some d => return { s with options := ← s.options.merged [("only_target_types", d)] }

/-- A build that ends before its first round. -/
def ended (s : Session) (disk : Disk) (said : List Progress) (fault : Fault) : Built :=
  ⟨s, disk, said, [], .error fault⟩

/-- Builds the stub tree of targets and everything their exported types refer to. -/
def build (s : Session) (disk : Disk) (destination : Path) (targets searchPaths : List Path)
    (onlyTargetTypes : Option Document) (e : Enumeration := .listed)
    (stack : Stack := .endless) : Built :=
  match s.choose onlyTargetTypes with
  | .error fault => s.ended disk [] fault
  | .ok s =>
    match { s with registry := {} }.prepare disk searchPaths with
    | (s, .error fault) => s.ended disk [] fault
    | (s, .ok ()) =>
      match s.loadTargets disk targets stack with
      | (s, said, .error fault) => s.ended disk said fault
      | (s, said, .ok _) =>
        match s.loadBuiltins disk s.options.builtinBinaries stack with
        | (s, more, .error fault) => s.ended disk (said ++ more) fault
        | (s, more, .ok _) =>
          let built := s.generate disk destination e
          { built with said := said ++ more ++ built.said }

end Session

end StubTree
