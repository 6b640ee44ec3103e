import StubTree.Loader
import StubTree.Options
import StubTree.Stub.Rendering
import StubTree.Text.Ansi

/-! # Sessions

A session holds the options, the loader and the registry of one or more runs. Loaded binaries
and targets stay from run to run; the registry starts empty on each.

Types are looked up in the library. So sessions are meant for loaders whose links lead there, as all
do that search paths are searched for: the types of a manifest that a resolver of one's own has read
apart can be registered, but no stub shows them.
-/

namespace StubTree

inductive Progress where
  | target (fullName : String)
  | builtin (fullName : String)
  | stub (space : Namespace) (path : Path)
  deriving DecidableEq, Repr

namespace Progress

def text : Progress → String
  | target fullName => "Generating Binary: " ++ Text.bold .green fullName
  | builtin fullName => "Generating Built-in Binary: " ++ Text.bold .cyan fullName
  | stub space path =>
    "  " ++ Text.coloured .yellow space.moduleName ++ " " ++ Text.coloured .black path.text

end Progress

/-- The state of a session. -/
structure Session where
  options : Options
  loader : Loader
  registry : Registry := {}

namespace Session

def new (o : Options) : Session := ⟨o, { suffix := o.manifestSuffix }, {}⟩

/-- The session with what it said and how it ended. -/
abbrev Outcome (α : Type) := Session × List Progress × Except Fault α

/-- What the session prints while it works; nothing if it is quiet. -/
def spoken (s : Session) (said : List Progress) : String :=
  if s.options.quiet then "" else String.join (said.map fun p => p.text ++ "\n")

/-- Puts the search of the search paths in the resolver's place and adds search paths. -/
def prepare (disk : Disk) (s : Session) (searchPaths : List Path) : Session × Except Fault Unit :=
  let (loader, result) := (s.loader.install .searchPaths).addSearchPaths disk searchPaths
  ({ s with loader }, result)

def register (s : Session) (name : String) : Session :=
  { s with registry := s.registry.addAll (s.loader.library.exported name) }

def fullNameOf (s : Session) (name : String) : String :=
  ((s.loader.library.manifest? (.held name)).map (·.fullName)).getD name

/-- Makes calls for binaries and registers what these export, up to the first call that fails. Each
binary is told by its full name. -/
def loadAll (disk : Disk) (tell : String → Progress) (s : Session) (calls : List Loader.Call)
    (stack : Stack := .endless) : Outcome (List String) :=
  match calls with
  | [] => (s, [], .ok [])
  | c :: rest =>
    match s.loader.call disk c stack with
    | (loader, .error fault) => ({ s with loader }, [], .error fault)
    | (loader, .ok link) =>
      let s := { s with loader }
      let (last, said, result) := loadAll disk tell (s.register link.name) rest stack
      (last, tell (s.fullNameOf link.name) :: said, result.map (link.name :: ·))

def loadTargets (disk : Disk) (s : Session) (targets : List Path) (stack : Stack := .endless) :
    Outcome (List String) :=
  s.loadAll disk .target (targets.map .target) stack

def loadBuiltins (disk : Disk) (s : Session) (identities : List String)
    (stack : Stack := .endless) : Outcome (List String) :=
  s.loadAll disk .builtin (identities.map .identity) stack

/-- The order of types in a stub: by name, and by binary where names are equal. -/
def comesBefore (a b : TypeId) : Bool :=
  decide (a.name < b.name) || (a.name == b.name && decide (a.unit ≤ b.unit))

def select (s : Session) (types : List TypeId) : List TypeId :=
  let wanted :=
    if s.options.onlyTargetTypes then types.filter (·.unit ∈ s.loader.targets) else types
  wanted.mergeSort comesBefore

end Session

end StubTree
