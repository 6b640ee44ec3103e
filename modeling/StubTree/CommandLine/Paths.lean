import StubTree.CommandLine.Usage
import StubTree.Disk

/-! # Paths on the command line

A path on the command line is looked at twice. As it is typed it must not name what can never
be meant, such as a file where a directory is asked for; before the command begins, its targets
have to be files and its destination must not be one.
-/

namespace StubTree.CommandLine

/-- What a path on the command line may name. A missing thing is refused only where it has to
be there. -/
inductive PathRole where
  | file
  | presentFile
  | directory
  deriving DecidableEq, Repr

/-- Whether a path is typed as that of a directory: with a slash or a single dot at its end. -/
def endsInDirectory (typed : String) : Bool :=
  match (Text.split '/' typed).getLast? with
  | some last => last == "" || last == "."
  | none => false

/-- What a path names exactly as it is typed. A name that cannot be looked up names nothing. -/
def typedEntry (disk : Disk) (typed : String) : Except Fault (Option Entry) :=
  let path := Path.ofText typed
  if path.hasNul then .error .nulInPath
  -- The empty path names nothing as it is typed, though read as a path it is a directory.
  else if typed == "" || Disk.maxPathBytes < typed.utf8ByteSize then .ok none
  else match disk.probe path with
    | .ok (some (.file bytes)) => .ok (if endsInDirectory typed then none else some (.file bytes))
    | .ok found => .ok found
    | .error _ => .ok none

/-- Refuses a path that cannot have its role. -/
def PathRole.check (role : PathRole) (disk : Disk) (typed : String) : Except Refusal Unit :=
  match typedEntry disk typed with
  | .error fault => .error (.fault fault)
  | .ok found =>
    match role, found with
    | .presentFile, none => .error (.usage (.pathMissing typed))
    | .presentFile, some .directory | .file, some .directory =>
      .error (.usage (.pathIsDirectory typed))
    | .directory, some (.file _) => .error (.usage (.pathIsFile typed))
    | _, _ => .ok ()

inductive PathComplaint where
  | targetMissing (path : Path)
  | targetNotFile (path : Path)
  | destinationNotDirectory (path : Path)
  deriving DecidableEq, Repr

def PathComplaint.message : PathComplaint → String
  | targetMissing path => "Provided target does not exist: " ++ path.text
  | targetNotFile path => "Provided target is not a file: " ++ path.text
  | destinationNotDirectory path => "Provided destination is not a directory: " ++ path.text

def targetComplaint? (disk : Disk) : List Path → Except Fault (Option PathComplaint)
  | [] => .ok none
  | path :: rest => do
    match ← disk.probe path with
    | none => return some (.targetMissing path)
    | some .directory => return some (.targetNotFile path)
    | some (.file _) => targetComplaint? disk rest

def destinationComplaint? (disk : Disk) (path : Path) : Except Fault (Option PathComplaint) := do
  if Disk.isFile (← disk.probe path) then return some (.destinationNotDirectory path)
  else return none

end StubTree.CommandLine
