import StubTree.Document.Text
import StubTree.Fault
import StubTree.Keyed
import StubTree.Text.Similarity

/-! # Options

The options of a run are set by name, from decoded values. An unknown name or a value of the
wrong kind is refused; for an unknown name the closest known one is suggested.
-/

namespace StubTree

structure Options where
  onlyTargetTypes : Bool := false
  builtinBinaries : List String := []
  stubFileName : String := "__init__.pyi"
  manifestSuffix : String := ".yaml"
  quiet : Bool := false
  deriving DecidableEq, Repr, Inhabited

namespace Options

open Readable (shape)

variable {α : Type} [Readable α]

def names : List String :=
  ["only_target_types", "builtin_binaries", "stub_file_name", "manifest_suffix", "quiet"]

def flag (name : String) (v : α) : Except OptionFault Bool :=
  match shape v with
  | .bool b => .ok b
  | other => .error (.notFlag name other.kindName)

def filled (name : String) (v : α) : Except OptionFault String :=
  match shape v with
  | .text s => if s == "" then .error (.notText name) else .ok s
  | _ => .error (.notText name)

def text? (v : α) : Option String :=
  match shape v with
  | .text s => some s
  | _ => none

/-- The items of a list, or of a pair. -/
def items? (v : α) : Option (List α) :=
  match shape v with
  | .list items => some items
  | .pair first second => some [first, second]
  | _ => none

/-- A list of names; one name alone counts as a list. -/
def nameList (name : String) (v : α) : Except OptionFault (List String) :=
  match text? v with
  | some s => .ok [s]
  | none =>
    match (items? v).bind (·.mapM text?) with
    | some names => .ok names
    | none => .error (.notNames name)

/-- A file name without any separator of directories. -/
def fileName (name : String) (v : α) : Except OptionFault String := do
  let s ← filled name v
  if s.toList.any fun c => c == '/' || c == '\\' then .error (.notFileName name s) else .ok s

/-- The ending of a file name, with its dot. -/
def ending (name : String) (v : α) : Except OptionFault String := do
  let s ← filled name v
  if s.toList.head? == some '.' then .ok s else .error (.notSuffix name s)

def set (o : Options) (name : String) (value : α) : Except OptionFault Options :=
  match name with
  | "only_target_types" => do return { o with onlyTargetTypes := ← flag name value }
  | "builtin_binaries" => do return { o with builtinBinaries := ← nameList name value }
  | "stub_file_name" => do return { o with stubFileName := ← fileName name value }
  | "manifest_suffix" => do return { o with manifestSuffix := ← ending name value }
  | "quiet" => do return { o with quiet := ← flag name value }
  | _ => .error (.unknown name (Text.Similarity.closest? names name))

def setAll (o : Options) : Keyed String α → Except OptionFault Options
  | [] => .ok o
  | (name, value) :: rest => do setAll (← o.set name value) rest

/-- The word that stands for the options themselves; nothing can be set under it. -/
def ownWord : String := "self"

/-- Checks that nothing is set under the word for the options themselves. -/
def refuseOwnWord (settings : Keyed String α) : Except Fault Unit :=
  if settings.keys.contains ownWord then .error .ownerOption else .ok ()

/-- The options that differ from the defaults as given. -/
def ofSettings (settings : Keyed String α) : Except Fault Options := do
  refuseOwnWord settings
  (setAll {} settings).mapError .option

/-- Whether a value sets something. -/
def isGiven (v : α) : Bool :=
  match shape v with
  | .null => false
  | _ => true

/-- The options with every override that holds something. -/
def merged (o : Options) (overrides : Keyed String α) : Except Fault Options := do
  refuseOwnWord overrides
  let given := overrides.filter fun (_, v) => isGiven v
  -- Known names come first and in their own order, whatever the order given.
  let known := names.filterMap fun name => (Keyed.get? name given).map (name, ·)
  let unknown := given.filter fun (name, _) => !names.contains name
  (setAll o (known ++ unknown)).mapError .option

/-- The value of every option, by name. -/
def settings (o : Options) : Keyed String Document :=
  [("only_target_types", .bool o.onlyTargetTypes),
   ("builtin_binaries", .list (o.builtinBinaries.map .text)),
   ("stub_file_name", .text o.stubFileName),
   ("manifest_suffix", .text o.manifestSuffix),
   ("quiet", .bool o.quiet)]

/-- The option that a key names. Dashes count as underscores. -/
def nameOf (key : α) : Except Fault String :=
  match Readable.shown? key with
  | some s => .ok (String.ofList (s.toList.map fun c => if c == '-' then '_' else c))
  | none => .error .unwritableNumber

/-- The settings that a mapping spells. Of two keys that name one option the later value is
kept. -/
def spelled (entries : List (α × α)) : Except Fault (Keyed String α) :=
  entries.foldlM (fun acc (k, v) => return Keyed.set (← nameOf k) v acc) []

/-- Names between round brackets; one alone is followed by a comma. -/
def namesText : List String → String
  | [one] => "(" ++ Text.quoted one ++ ",)"
  | xs => "(" ++ ", ".intercalate (xs.map Text.quoted) ++ ")"

def text (o : Options) : String :=
  "StubOptions(only_target_types=" ++ Shape.truthLiteral o.onlyTargetTypes
    ++ ", builtin_binaries=" ++ namesText o.builtinBinaries
    ++ ", stub_file_name=" ++ Text.quoted o.stubFileName
    ++ ", manifest_suffix=" ++ Text.quoted o.manifestSuffix
    ++ ", quiet=" ++ Shape.truthLiteral o.quiet ++ ")"

end Options

end StubTree
