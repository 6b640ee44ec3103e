import StubTree.Fault

/-! # Wrong command lines

What can be wrong with the words of a command line before the command begins.
-/

namespace StubTree.CommandLine

inductive UsageFault where
  | noCommand
  | unknownCommand (name : String)
  | unknownOption (word : String)
  | valueMissing (word : String)
  | valueNotTaken (word : String)
  | operandMissing (name : String)
  | operandSurplus (word : String)
  | pathMissing (path : String)
  | pathIsFile (path : String)
  | pathIsDirectory (path : String)
  | unknownChoice (choices : List String) (word : String)
  deriving DecidableEq, Repr

namespace UsageFault

def message : UsageFault → String
  | noCommand => "Missing command."
  | unknownCommand name => "No such command '" ++ name ++ "'."
  | unknownOption word => "No such option: " ++ word
  | valueMissing word => "Option '" ++ word ++ "' requires an argument."
  | valueNotTaken word => "Option '" ++ word ++ "' does not take a value."
  | operandMissing name => "Missing argument '" ++ name ++ "'."
  | operandSurplus word => "Got unexpected extra argument (" ++ word ++ ")"
  | pathMissing path => "'" ++ path ++ "' does not exist."
  | pathIsFile path => "'" ++ path ++ "' is a file."
  | pathIsDirectory path => "'" ++ path ++ "' is a directory."
  | unknownChoice choices word =>
    "'" ++ word ++ "' is not one of " ++ ", ".intercalate (choices.map Text.quoted) ++ "."

end UsageFault

/-- Why a command does not begin: the command line is wrong, or looking at its paths broke
off. -/
inductive Refusal where
  | usage (cause : UsageFault)
  | fault (cause : Fault)

end StubTree.CommandLine
