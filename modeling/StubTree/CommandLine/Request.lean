import StubTree.CommandLine.Paths
import StubTree.CommandLine.Words
import StubTree.Report.Format

/-! # Requests

A command line asks for the version, for stubs of target binaries, or for the inspection of one
binary. Options are checked in the order in which they first came, then the operands, then the
values that options have without being given.
-/

namespace StubTree.CommandLine

/-- What stubs are asked for, and how. -/
structure GenerateRequest where
  targets : List Path
  destination : Path
  searchPaths : List Path
  builtins : List String
  onlyTargetTypes : Option Bool
  config : Option Path
  report : Option Path
  format : Report.Format
  quiet : Bool
  deriving DecidableEq, Repr

structure InspectRequest where
  target : Path
  searchPaths : List Path
  format : Report.Format
  deriving DecidableEq, Repr

inductive Request where
  | help
  | version
  | generate (request : GenerateRequest)
  | inspect (request : InspectRequest)
  deriving DecidableEq, Repr

inductive OptionKey where
  | help
  | destination
  | searchPath
  | builtin
  | onlyTargets
  | allTypes
  | config
  | report
  | format
  | quiet
  deriving DecidableEq, Repr

namespace OptionKey

def helpForm : OptionForm OptionKey := ⟨help, "help", none, false⟩

def searchPathForm : OptionForm OptionKey := ⟨searchPath, "search-path", some 's', true⟩

def formatForm : OptionForm OptionKey := ⟨format, "format", some 'f', true⟩

def generateForms : List (OptionForm OptionKey) :=
  [helpForm,
   ⟨destination, "dest", some 'd', true⟩,
   searchPathForm,
   ⟨builtin, "builtin", some 'b', true⟩,
   ⟨onlyTargets, "only-targets", none, false⟩,
   ⟨allTypes, "all-types", none, false⟩,
   ⟨config, "config", some 'c', true⟩,
   ⟨report, "report", some 'o', true⟩,
   formatForm,
   ⟨quiet, "quiet", some 'q', false⟩]

def inspectForms : List (OptionForm OptionKey) := [helpForm, searchPathForm, formatForm]

/-- What a path has to name as the value of an option. -/
def role? : OptionKey → Option PathRole
  | destination | searchPath => some .directory
  | config => some .presentFile
  | report => some .file
  | _ => none

def isRepeatable : OptionKey → Bool
  | searchPath | builtin => true
  | _ => false

end OptionKey

/-- The words of one command, taken apart. -/
abbrev Arguments := Sorted OptionKey

def checkEach {α : Type} (check : α → Except Refusal Unit) : List α → Except Refusal Unit
  | [] => .ok ()
  | a :: rest => do
    check a
    checkEach check rest

def chosenFormat (name : String) : Except Refusal Report.Format :=
  match Report.Format.ofName name with
  | .ok format => .ok format
  | .error _ => .error (.usage (.unknownChoice (Report.Format.all.map (·.name)) name))

namespace Arguments

/-- The values of an option that count. -/
def counting (a : Arguments) (key : OptionKey) : List String :=
  if key.isRepeatable then a.values key else (a.last? key).toList

def checkValue (disk : Disk) (key : OptionKey) (value : String) : Except Refusal Unit :=
  match key.role?, key with
  | some role, _ => role.check disk value
  | none, .format => do
    let _ ← chosenFormat value
  | none, _ => .ok ()

def checkOptions (disk : Disk) (a : Arguments) : Except Refusal Unit :=
  checkEach (fun key => checkEach (checkValue disk key) (a.counting key)) a.keys

def searchPaths (a : Arguments) : List Path := (a.values .searchPath).map Path.ofText

def format (a : Arguments) : Except Refusal Report.Format :=
  match a.last? .format with
  | none => .ok .listing
  | some name => chosenFormat name

/-- The choice between the types of the targets and all types; the last one counts. -/
def onlyTargetTypes (a : Arguments) : Option Bool :=
  (a.given.reverse.map (·.key)).findSome? fun
    | .onlyTargets => some true
    | .allTypes => some false
    | _ => none

end Arguments

/-- Refuses what stands behind the last operand of a command. -/
def refuseSurplus : List String → Except Refusal Unit
  | [] => .ok ()
  | word :: _ => .error (.usage (.operandSurplus word))

def defaultDestination : String := "stubs"

def generateRequest (disk : Disk) (a : Arguments) : Except Refusal Request := do
  a.checkOptions disk
  if a.operands.isEmpty then throw (.usage (.operandMissing "TARGETS..."))
  checkEach (PathRole.file.check disk) a.operands
  if !a.has .destination then PathRole.directory.check disk defaultDestination
  return .generate
    { targets := a.operands.map Path.ofText
      destination := Path.ofText ((a.last? .destination).getD defaultDestination)
      searchPaths := a.searchPaths
      builtins := a.values .builtin
      onlyTargetTypes := a.onlyTargetTypes
      config := (a.last? .config).map Path.ofText
      report := (a.last? .report).map Path.ofText
      format := ← a.format
      quiet := a.has .quiet }

def inspectRequest (disk : Disk) (a : Arguments) : Except Refusal Request := do
  a.checkOptions disk
  match a.operands with
  | [] => throw (.usage (.operandMissing "TARGET"))
  | target :: surplus =>
    PathRole.file.check disk target
    refuseSurplus surplus
    return .inspect
      { target := Path.ofText target, searchPaths := a.searchPaths, format := ← a.format }

def versionRequest (a : Arguments) : Except Refusal Request := do
  refuseSurplus a.operands
  return .version

def ofCommand (forms : List (OptionForm OptionKey)) (request : Arguments → Except Refusal Request)
    (words : List String) : Except Refusal Request := do
  let a ← (Sorted.ofWords forms true words).mapError .usage
  if a.has .help then return .help else request a

/-- The words of a group of commands; the first operand names the command. -/
def ofGroup (command : String → List String → Except Refusal Request) (words : List String) :
    Except Refusal Request := do
  let a ← (Sorted.ofWords [OptionKey.helpForm] false words).mapError .usage
  if a.has .help then return .help
  match a.operands with
  | [] => throw (.usage .noCommand)
  | name :: rest => command name rest

/-- The request that the words of a command line make. -/
def Request.ofWords (disk : Disk) : List String → Except Refusal Request :=
  ofGroup fun
    | "version" => ofCommand [OptionKey.helpForm] versionRequest
    | "stub" => ofGroup fun
      | "generate" => ofCommand OptionKey.generateForms (generateRequest disk)
      | "inspect" => ofCommand OptionKey.inspectForms (inspectRequest disk)
      | name => fun _ => .error (.usage (.unknownCommand name))
    | name => fun _ => .error (.usage (.unknownCommand name))

end StubTree.CommandLine
