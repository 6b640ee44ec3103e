import StubTree.Fault
import StubTree.Keyed

/-! # The disk

Directories and files by their location, the segments from the root. A path is walked from
the working directory, or from the root, and every directory on the way has to be there;
only the last segment may name something new.
-/

namespace StubTree

/-- The segments from the root to a file or a directory. -/
abbrev Location := List String

inductive Entry where
  | directory
  | file (bytes : ByteArray)

/-- Files are equal where their bytes are, byte by byte. -/
instance : DecidableEq Entry
  | .directory, .directory => .isTrue rfl
  | .directory, .file _ => .isFalse fun h => by cases h
  | .file _, .directory => .isFalse fun h => by cases h
  | .file a, .file b =>
    match ByteArray.instDecidableEq a b with
    | .isTrue h => .isTrue (congrArg Entry.file h)
    | .isFalse h => .isFalse fun heq => h (Entry.file.inj heq)

/-- The entries of a file system and the working directory. -/
structure Disk where
  home : Location
  entries : Keyed Location Entry := []

namespace Disk

/-- The locations from the first segment on down to `l`. -/
def ancestry (l : Location) : List Location :=
  (List.range l.length).map fun n => l.take (n + 1)

/-- A disk that holds its working directory and nothing else. -/
def blank (home : Location) : Disk :=
  ⟨home, (ancestry home).map fun l => (l, .directory)⟩

/-- What stands at a location. The root is always a directory. -/
def at? (d : Disk) (l : Location) : Option Entry :=
  if l.isEmpty then some .directory else d.entries.get? l

def maxNameBytes : Nat := 255

def maxPathBytes : Nat := 4095

/-- The next location on a walk, seen from a directory. -/
def step (here : Location) (part : String) : Except SystemCause Location :=
  if part == ".." then .ok here.dropLast
  else if maxNameBytes < part.utf8ByteSize then .error .nameTooLong
  else .ok (here ++ [part])

/-- Walks on from a location. Whatever is stepped out of has to be a directory. -/
def walk (d : Disk) (here : Location) : List String → Except SystemCause Location
  | [] => .ok here
  | part :: rest =>
    match d.at? here with
    | none => .error .missing
    | some (.file _) => .error .notDirectory
    | some .directory => do walk d (← step here part) rest

/-- The location that a path denotes. A path that is too long is refused before it is walked. -/
def locate (d : Disk) (p : Path) : Except SystemCause Location :=
  if maxPathBytes < p.text.utf8ByteSize then .error .nameTooLong
  else d.walk (if p.anchor == .relative then d.home else []) p.parts

/-- Calls for a location with the path to blame. -/
def locateFor (d : Disk) (p : Path) : Except Fault Location :=
  if p.hasNul then .error .nulInPath
  else (d.locate p).mapError fun cause => .system ⟨cause, p⟩

/-- What stands at a path, if anything does. Only a path that is too long, or a name in it that
no directory can hold, is refused. -/
def probe (d : Disk) (p : Path) : Except Fault (Option Entry) :=
  if p.hasNul then .ok none
  else match d.locate p with
    | .ok l => .ok (d.at? l)
    | .error .nameTooLong => .error (.system ⟨.nameTooLong, p⟩)
    | .error _ => .ok none

def isFile : Option Entry → Bool
  | some (.file _) => true
  | _ => false

def read (d : Disk) (p : Path) : Except Fault ByteArray := do
  match d.at? (← d.locateFor p) with
  | some (.file bytes) => .ok bytes
  | some .directory => .error (.system ⟨.isDirectory, p⟩)
  | none => .error (.system ⟨.missing, p⟩)

def put (d : Disk) (l : Location) (e : Entry) : Disk :=
  { d with entries := d.entries.set l e }

/-- Gives a file its bytes, making it if it is new. -/
def write (d : Disk) (p : Path) (bytes : ByteArray) : Except Fault Disk := do
  let l ← d.locateFor p
  match d.at? l with
  | some .directory => .error (.system ⟨.isDirectory, p⟩)
  | _ => .ok (d.put l (.file bytes))

def append (d : Disk) (p : Path) (bytes : ByteArray) : Except Fault Disk := do
  match d.at? (← d.locateFor p) with
  | some (.file before) => d.write p (before ++ bytes)
  | _ => d.write p bytes

def removeFile (d : Disk) (p : Path) : Disk :=
  match d.locate p with
  | .ok l => if isFile (d.at? l) then { d with entries := d.entries.erase l } else d
  | .error _ => d

def makeDirectory (d : Disk) (p : Path) : Except Fault Disk := do
  let l ← d.locateFor p
  match d.at? l with
  | some _ => .error (.system ⟨.alreadyThere, p⟩)
  | none => .ok (d.put l .directory)

/-- Makes a directory unless it is there. -/
def ensureDirectory (d : Disk) (p : Path) : Except Fault Disk :=
  match d.makeDirectory p with
  | .error (.system fault) =>
    match fault.cause, d.probe p with
    | .missing, _ => .error (.system fault)
    -- Whatever else was refused, a directory that is there will do.
    | _, .ok (some .directory) => .ok d
    | _, _ => .error (.system fault)
  | result => result

/-- Makes the directory at the end of a path, given by its segments from the last to the
first, and those above it that are missing. Directories made before a failure stay. -/
def ensureAbove (d : Disk) (anchor : Anchor) : List String → Disk × Option Fault
  | [] => attempt d ⟨anchor, []⟩
  | part :: above =>
    let p : Path := ⟨anchor, (part :: above).reverse⟩
    match d.ensureDirectory p with
    | .ok d' => (d', none)
    -- Only a missing directory above can be made up for.
    | .error (.system ⟨.missing, _⟩) =>
      match ensureAbove d anchor above with
      | (d', none) => attempt d' p
      | failed => failed
    | .error fault => (d, some fault)
where
  attempt (d : Disk) (p : Path) : Disk × Option Fault :=
    match d.ensureDirectory p with
    | .ok d' => (d', none)
    | .error fault => (d, some fault)

/-- Makes a directory and whatever is missing above it. -/
def makeDirectories (d : Disk) (p : Path) : Disk × Option Fault :=
  ensureAbove d p.anchor p.parts.reverse

def fileCount (d : Disk) : Nat :=
  d.entries.countP fun (_, e) => isFile (some e)

def isEmptyDirectory (d : Disk) (l : Location) : Bool :=
  d.at? l == some .directory && d.entries.all fun (k, _) => k.isEmpty || k.dropLast != l

/-- What a run left behind: files with other bytes than before, and directories that hold
nothing and did not hold nothing before. -/
def changes (before after : Disk) : Keyed Location (Option ByteArray) :=
  after.entries.filterMap fun (l, e) =>
    match e with
    | .file bytes => if before.at? l == some (.file bytes) then none else some (l, some bytes)
    | .directory =>
      if after.isEmptyDirectory l && !before.isEmptyDirectory l then some (l, none) else none

end Disk

end StubTree
