import StubTree.Manifest.Basic
import StubTree.Number.Decimal
import StubTree.Text.Quoted
import StubTree.Yaml.Fault

/-! # Faults

Everything that can end an operation before its result. The faults a user can mend, in a
manifest, in the options or on the search paths, are reported; all others break the run off.
-/

namespace StubTree

open Yaml (YamlFault)

inductive SystemCause where
  | missing
  | alreadyThere
  | notDirectory
  | isDirectory
  | nameTooLong
  deriving DecidableEq, Repr

namespace SystemCause

/-- The number and the words that the system has for it. -/
def text : SystemCause → String
  | missing => "[Errno 2] No such file or directory"
  | alreadyThere => "[Errno 17] File exists"
  | notDirectory => "[Errno 20] Not a directory"
  | isDirectory => "[Errno 21] Is a directory"
  | nameTooLong => "[Errno 36] File name too long"

end SystemCause

/-- A refused operation and the path it was asked for. -/
structure SystemFault where
  cause : SystemCause
  path : Path
  deriving DecidableEq, Repr

def SystemFault.message (f : SystemFault) : String :=
  f.cause.text ++ ": " ++ Text.quoted f.path.text

/-- The part of a manifest that a fault is found in. -/
inductive Place where
  | file (path : Path)
  | item (path : Path) (index : Nat)
  | type (path : Path) (fullName : String)
  | method (owner : Place) (name : String)

namespace Place

def text : Place → String
  | file path => path.text
  | item path index => path.text ++ ": types[" ++ Number.natText index ++ "]"
  | type path fullName => path.text ++ ": type '" ++ fullName ++ "'"
  | method owner name => owner.text ++ " '" ++ name ++ "'"

end Place

/-- What is wrong with a manifest. Of a value that is not what it should be, `found` is the
word for its kind and `written` the text that shows it. -/
inductive ManifestFault where
  | unreadable (path : Path) (cause : SystemFault)
  | notYaml (path : Path) (cause : YamlFault)
  | badReference (written : String)
  | missingKey (place : Place) (key : String)
  | notList (place : Place) (key : String) (found : String)
  | notMapping (place : Place) (found : String)
  | notName (place : Place) (key : String)
  | notFlag (place : Place) (key : String) (found : String)
  | badNamespace (place : Place) (written : String)
  | unknownKind (place : Place) (written : String)
  | unknownVisibility (place : Place) (written : String)
  | strayValues (place : Place)
  | declaredTwice (path : Path) (fullName : String)

namespace ManifestFault

def message : ManifestFault → String
  | unreadable path cause =>
    "Could not read binary manifest '" ++ path.text ++ "': " ++ cause.message
  | notYaml path cause =>
    "Binary manifest '" ++ path.text ++ "' is not valid YAML: " ++ cause.message
  | badReference written => "Invalid type reference: " ++ written ++ "."
  | missingKey place key => place.text ++ ": missing required key '" ++ key ++ "'."
  | notList place key found =>
    place.text ++ ": '" ++ key ++ "' must be a list, not '" ++ found ++ "'."
  | notMapping place found =>
    place.text ++ ": expected a mapping, not '" ++ found ++ "'."
  | notName place key => place.text ++ ": '" ++ key ++ "' must be a non-empty string."
  | notFlag place key found =>
    place.text ++ ": '" ++ key ++ "' must be a bool, not '" ++ found ++ "'."
  | badNamespace place written => place.text ++ ": invalid namespace '" ++ written ++ "'."
  | unknownKind place written =>
    place.text ++ ": unknown kind '" ++ written ++ "', expected one of "
      ++ ", ".intercalate (TypeKind.all.map (·.text)) ++ "."
  | unknownVisibility place written =>
    place.text ++ ": unknown visibility '" ++ written ++ "'."
  | strayValues place => place.text ++ ": only enums may declare values."
  | declaredTwice path fullName =>
    path.text ++ ": type '" ++ fullName ++ "' is declared more than once."

end ManifestFault

/-- What is wrong with the options of a run. -/
inductive OptionFault where
  | unreadable (path : Path) (cause : SystemFault)
  | notYaml (path : Path) (cause : YamlFault)
  | notMapping (path : Path) (found : String)
  | unknown (name : String) (suggestion : Option String)
  | notFlag (name : String) (found : String)
  | notNames (name : String)
  | notText (name : String)
  | notFileName (name value : String)
  | notSuffix (name value : String)

namespace OptionFault

def message : OptionFault → String
  | unreadable path cause =>
    "Could not read options file '" ++ path.text ++ "': " ++ cause.message
  | notYaml path cause =>
    "Could not read options file '" ++ path.text ++ "': " ++ cause.message
  | notMapping path found =>
    "Options file '" ++ path.text ++ "' must contain a mapping, not '" ++ found ++ "'."
  | unknown name suggestion =>
    "Invalid stub option: '" ++ name ++ "'."
      ++ (suggestion.map fun s => " Did you mean '" ++ s ++ "'?").getD ""
  | notFlag name found =>
    "Option '" ++ name ++ "' must be a bool, not '" ++ found ++ "'."
  | notNames name => "Option '" ++ name ++ "' must be a list of binary names."
  | notText name => "Option '" ++ name ++ "' must be a non-empty string."
  | notFileName name value =>
    "Option '" ++ name ++ "' must be a plain file name, not '" ++ value ++ "'."
  | notSuffix name value =>
    "Option '" ++ name ++ "' must start with '.', not '" ++ value ++ "'."

end OptionFault

/-- Why an operation has no result. -/
inductive Fault where
  | manifest (cause : ManifestFault)
  | binaryNotFound (identity : String) (searched : List Path)
  | binaryMisnamed (wanted : String) (path : Path) (declared : String)
  | typeNotFound (fullName unit : String)
  | reservedNamespace (dotted : String)
  | option (cause : OptionFault)
  | ownerOption
  | yaml (cause : YamlFault)
  | system (cause : SystemFault)
  | nulInPath
  | noFileName
  | noDuration
  | unsupportedFormat (name : String)
  | unwritableKey
  | unwritableNumber
  | tooDeep

namespace Fault

/-- The faults that a user can mend; all others break the run off. -/
def isReported : Fault → Bool
  | manifest _ | binaryNotFound .. | binaryMisnamed .. | typeNotFound .. | reservedNamespace _
  | option _ => true
  | _ => false

def message : Fault → String
  | manifest cause => cause.message
  | binaryNotFound identity searched =>
    "Could not load binary '" ++ identity ++ "': not found in "
      ++ (if searched.isEmpty then "no search paths"
        else ", ".intercalate (searched.map (·.text))) ++ "."
  | binaryMisnamed wanted path declared =>
    "Could not load binary '" ++ wanted ++ "': " ++ path.text ++ " declares '" ++ declared
      ++ "' instead."
  | typeNotFound fullName unit =>
    "Type '" ++ fullName ++ "' referenced from '" ++ unit
      ++ "' was not found in it or any binary it references."
  | reservedNamespace dotted =>
    "The namespace '" ++ Namespace.outsideModule ++ "' is reserved (found '" ++ dotted ++ "')."
  | option cause => cause.message
  | ownerOption => "'self' names the options themselves"
  | yaml cause => cause.message
  | system cause => cause.message
  | nulInPath => "a path holds a null character"
  | noFileName => "the path has no file name"
  | noDuration => "the time is not finite"
  | unsupportedFormat name => "Unsupported format: " ++ name
  | unwritableKey => "a key cannot be written as text"
  | unwritableNumber => "a whole number has too many digits to be written"
  | tooDeep => "something is nested too deep to be followed"

end Fault

end StubTree
