import StubTree.CommandLine.Run

/-! # The program

A command line is carried out on a picture of the disk, which holds the entries around every
path that the words can mean. What the command changed in the picture is then changed on the
disk itself.
-/

namespace StubTree.Program

def absoluteName (l : Location) : String := "/" ++ "/".intercalate l

/-- Takes a location into the picture, and what is below it down to a depth. Files that cannot
be read are left out. -/
def take : Nat → Disk → Location → IO Disk
  | 0, disk, _ => pure disk
  | depth + 1, disk, l => do
    let here := (← IO.currentDir) / absoluteName l
    if ← here.isDir then
      (← here.readDir).foldlM (fun disk entry => take depth disk (l ++ [entry.fileName]))
        (disk.put l .directory)
    else
      try return disk.put l (.file (← IO.FS.readBinFile here))
      catch _ => return disk

/-- The texts in a word that can be paths: the word, what follows an equals sign, and what
follows an option letter. -/
def pathTexts (word : String) : List String :=
  let cs := word.toList
  [word, String.ofList ((cs.dropWhile (· != '=')).drop 1), String.ofList (cs.drop 2)]

/-- Takes what a path can mean into the picture: its place, what stands beside it and directly
below it, and the directories above it. -/
def takeAround (disk : Disk) (p : Path) : IO Disk := do
  let l := (p.resolve disk.home).parts
  let disk ← (Disk.ancestry l).foldlM (fun disk above => take 1 disk above) disk
  take 2 (← take 2 disk l.dropLast) l

def treeDepth : Nat := 64

/-- The picture of the disk for the words of a command line. -/
def picture (words : List String) : IO Disk := do
  let home := (Path.ofText (← IO.currentDir).toString).parts
  let texts := CommandLine.defaultDestination :: words.flatMap pathTexts
  let paths := (texts.map Path.ofText).filter fun p => !p.hasNul
  paths.foldlM takeAround (Disk.blank home)

/-- Changes the disk as the picture was changed. -/
def apply (before after : Disk) : IO Unit := do
  for (l, entry) in before.entries do
    if Disk.isFile (some entry) && (after.at? l).isNone then
      IO.FS.removeFile (absoluteName l)
  for (l, change) in before.changes after do
    match change with
    | none => IO.FS.createDirAll (absoluteName l)
    | some bytes =>
      IO.FS.createDirAll (absoluteName l.dropLast)
      IO.FS.writeBinFile (absoluteName l) bytes

def seconds (nanoseconds : Nat) : Number.Binary64 :=
  .finite false (Number.Binary64.roundUnits (nanoseconds * Number.Binary64.one) 1000000000)

/-- Generates on a picture that holds what is at the destination, and measures the first half. -/
def generate (disk : Disk) (r : CommandLine.GenerateRequest) : IO (Disk × CommandLine.Outcome) := do
  let disk ← take treeDepth disk (r.destination.resolve disk.home).parts
  let start ← IO.monoNanosNow
  let half ← IO.lazyPure fun _ => r.start disk
  let stop ← IO.monoNanosNow
  return (disk, match half with
    | .error outcome => outcome
    | .ok generated => r.finish (seconds (stop - start)) generated)

/-- Carries out a command line: the disk before, and how the command ends. -/
def carryOut (words : List String) : IO (Disk × CommandLine.Outcome) := do
  let disk ← picture words
  match CommandLine.Request.ofWords disk words with
  | .ok (.generate r) => generate disk r
  | _ => return (disk, CommandLine.run disk .zero words)

/-- Prints a text, with its styling if a terminal shows it. -/
def say (stream : IO.FS.Stream) (s : String) : IO Unit := do
  stream.putStr (if ← stream.isTty then s else Text.plain s)
  stream.flush

end StubTree.Program

open StubTree Program in
/-- Carries out the command line on the disk. -/
def main (words : List String) : IO UInt32 := do
  let (disk, outcome) ← carryOut words
  apply disk outcome.disk
  say (← IO.getStdout) outcome.output
  say (← IO.getStderr) <| outcome.errors ++ match outcome.broken with
    | none => ""
    | some fault => fault.message ++ "\n"
  return outcome.exitCode.toUInt32
