import StubTree.CommandLine.Request
import StubTree.Options.Load
import StubTree.Report.Inspection
import StubTree.Report.Listing
import StubTree.Session.Build

/-! # Carrying out a command line

A command leaves a disk, what it printed, and an exit code. A fault that a user can mend is
told in one line and ends the command with exit code 1; any other breaks it off, also with
exit code 1. A wrong command line is exit code 2.

Generating has two halves, so that the time of the first can be told by the second.
-/

namespace StubTree.CommandLine

/-- How a command ends: its exit code, the disk it leaves, its standard output and its error
output, and what broke it off. -/
structure Outcome where
  exitCode : Nat
  disk : Disk
  output : String := ""
  errors : String := ""
  broken : Option Fault := none

namespace Outcome

def errorLine (message : String) : String :=
  Text.bold .red "[Error]" ++ ": " ++ message ++ "\n"

/-- The end of a command that tells what is wrong. -/
def told (disk : Disk) (output message : String) : Outcome :=
  { exitCode := 1, disk, output, errors := errorLine message }

def brokenOff (disk : Disk) (output : String) (fault : Fault) : Outcome :=
  { exitCode := 1, disk, output, broken := some fault }

def ofFault (disk : Disk) (output : String) (fault : Fault) : Outcome :=
  if fault.isReported then told disk output fault.message else brokenOff disk output fault

/-- The end of a command whose paths were looked at, where that ends it. -/
def ofComplaint? (disk : Disk) : Except Fault (Option PathComplaint) → Option Outcome
  | .ok none => none
  | .ok (some complaint) => some (told disk "" complaint.message)
  | .error fault => some (brokenOff disk "" fault)

end Outcome

structure Generated where
  generation : Generation
  disk : Disk
  output : String

namespace GenerateRequest

/-- The options of the session. -/
def options (r : GenerateRequest) (disk : Disk) (stack : Stack := .endless) :
    Except Fault Options := do
  let o ← match r.config with
    | none => pure {}
    | some path => Options.load disk path stack
  return { o with
    onlyTargetTypes := r.onlyTargetTypes.getD o.onlyTargetTypes
    builtinBinaries := o.builtinBinaries ++ r.builtins
    -- Progress would spoil a document on the standard output.
    quiet := o.quiet || r.quiet || (r.format != .listing && r.report.isNone) }

def build (r : GenerateRequest) (disk : Disk) (o : Options) (stack : Stack := .endless) :
    Except Outcome Generated :=
  let built :=
    (Session.new o).build disk r.destination r.targets r.searchPaths none .listed stack
  let output := built.session.spoken built.said
  match built.result with
  | .error fault => .error (.ofFault built.disk output fault)
  | .ok generation => .ok ⟨generation, built.disk, output⟩

/-- The first half: looks at the paths, reads the options and builds. -/
def start (r : GenerateRequest) (disk : Disk) (stack : Stack := .endless) :
    Except Outcome Generated :=
  match Outcome.ofComplaint? disk (targetComplaint? disk r.targets) with
  | some outcome => .error outcome
  | none =>
    match Outcome.ofComplaint? disk (destinationComplaint? disk r.destination) with
    | some outcome => .error outcome
    | none =>
      match r.options disk stack with
      | .error fault => .error (.ofFault disk "" fault)
      | .ok o => r.build disk o stack

/-- Where the report goes. A path without an ending gets that of the format. -/
def sink (r : GenerateRequest) : Except Fault Report.Sink :=
  match r.report with
  | none => .ok .output
  | some path =>
    if path.suffix != "" then .ok (.file path)
    else match path.withSuffix? ("." ++ r.format.name) with
      | some path => .ok (.file path)
      | none => .error .noFileName

/-- The disk without the report of an earlier run. -/
def clearedFor (disk : Disk) : Report.Sink → Except Fault Disk
  | .output => .ok disk
  | .file path => do
    if Disk.isFile (← disk.probe path) then return disk.removeFile path else return disk

def prepareSink (r : GenerateRequest) (disk : Disk) : Except Fault (Report.Sink × Disk) := do
  let sink ← r.sink
  return (sink, ← clearedFor disk sink)

/-- The second half: the report, and the totals with the elapsed time. -/
def finish (r : GenerateRequest) (elapsed : Number.Binary64) (g : Generated) : Outcome :=
  match r.prepareSink g.disk with
  | .error fault => .brokenOff g.disk g.output fault
  | .ok (sink, disk) =>
    match g.generation.report r.format sink disk with
    | (disk, .error fault) => .brokenOff disk g.output fault
    | (disk, .ok report) =>
      match g.generation.close elapsed r.format sink disk with
      | (disk, .error fault) => .brokenOff disk (g.output ++ report) fault
      | (disk, .ok totals) => { exitCode := 0, disk, output := g.output ++ report ++ totals }

def run (r : GenerateRequest) (disk : Disk) (elapsed : Number.Binary64)
    (stack : Stack := .endless) : Outcome :=
  match r.start disk stack with
  | .error outcome => outcome
  | .ok generated => r.finish elapsed generated

end GenerateRequest

namespace InspectRequest

def load (r : InspectRequest) (disk : Disk) (stack : Stack := .endless) :
    Except Fault Manifest := do
  let (loader, added) := (({} : Loader).install .searchPaths).addSearchPaths disk r.searchPaths
  added
  let (loader, loaded) := loader.loadTarget disk r.target stack
  let name ← loaded
  match loader.library.manifest? (.held name) with
  | some m => return m
  -- The loader has just given the name, so this does not come about.
  | none => throw (.binaryNotFound name loader.searchPaths)

def run (r : InspectRequest) (disk : Disk) (stack : Stack := .endless) : Outcome :=
  match Outcome.ofComplaint? disk (targetComplaint? disk [r.target]) with
  | some outcome => outcome
  | none =>
    match r.load disk stack with
    | .error fault => .ofFault disk "" fault
    | .ok m =>
      match m.inspection r.format with
      | .error fault => .brokenOff disk "" fault
      | .ok s => { exitCode := 0, disk, output := s ++ "\n" }

end InspectRequest

def versionLine : String :=
  Text.bold .brightGreen "Reflexstubs" ++ " 0.1 (0.1.0)\n"

def helpText : String :=
  "\n".intercalate
    ["Usage:",
     "  version",
     "  stub generate TARGETS... [-d DIR] [-s DIR]... [-b NAME]... [-c FILE] [-o FILE]",
     "                [-f txt|json|yaml] [--only-targets|--all-types] [-q]",
     "  stub inspect TARGET [-s DIR]... [-f txt|json|yaml]"]
    ++ "\n"

def Request.run (disk : Disk) (elapsed : Number.Binary64) (request : Request)
    (stack : Stack := .endless) : Outcome :=
  match request with
  | .help => { exitCode := 0, disk, output := helpText }
  | .version => { exitCode := 0, disk, output := versionLine }
  | .generate r => r.run disk elapsed stack
  | .inspect r => r.run disk stack

def Refusal.outcome (disk : Disk) : Refusal → Outcome
  | .usage cause => { exitCode := 2, disk, errors := cause.message ++ "\n" }
  | .fault cause => .brokenOff disk "" cause

/-- Carries out the words of a command line, with the time that it takes to build. What it reads
takes the frames of a stack of calls. -/
def run (disk : Disk) (elapsed : Number.Binary64) (words : List String)
    (stack : Stack := .endless) : Outcome :=
  match Request.ofWords disk words with
  | .error refusal => refusal.outcome disk
  | .ok request => request.run disk elapsed stack

end StubTree.CommandLine
