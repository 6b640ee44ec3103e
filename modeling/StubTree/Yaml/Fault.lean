/-! # Faults of YAML texts

Why a text has no value. The faults of its form are told apart from all others: bytes that are
no text, escapes that name no character, nesting without bound, and scalars whose tag promises
a value that they do not spell.
-/

namespace StubTree.Yaml

/-- A fault of a text. `malformed` and `unfinished` are faults of its form. -/
inductive YamlFault where
  | malformed
  | unfinished
  | notUnicode
  | badNumber
  | emptyNumber
  | hugeNumber
  | badTruth
  | badMoment
  | mappedMoment
  | badDate
  | badCharacter
  | hugeCharacter
  | tooDeep
  deriving DecidableEq, Repr

namespace YamlFault

/-- Whether the form of a text is at fault. -/
def isOfForm : YamlFault → Bool
  | malformed | unfinished => true
  | _ => false

def message : YamlFault → String
  | malformed => "the text is not well formed"
  | unfinished => "the text ends inside a quoted scalar"
  | notUnicode => "the file is not UTF-8 text"
  | badNumber => "a scalar tagged as a number is none"
  | emptyNumber => "a scalar tagged as a number is empty"
  | hugeNumber => "a number has a place beyond the largest number"
  | badTruth => "a scalar tagged as a truth value is none"
  | badMoment => "a scalar tagged as a time is none"
  | mappedMoment => "a mapping is tagged as a time"
  | badDate => "no calendar has such a date"
  | badCharacter => "an escape names no character"
  | hugeCharacter => "an escape names a number beyond all characters"
  | tooDeep => "collections are nested too deep"

end YamlFault

end StubTree.Yaml
