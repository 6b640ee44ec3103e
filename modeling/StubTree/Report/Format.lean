import StubTree.Document.Serialize

/-! # Report formats

A report is a listing for readers or a document for other programs.
-/

namespace StubTree.Report

inductive Format where
  | listing
  | document (format : Document.Format)
  deriving DecidableEq, Repr

namespace Format

/-- The name of a format, which is also the ending of a file that holds it. -/
def name : Format → String
  | listing => "txt"
  | document format => format.name

def all : List Format := [listing, document .json, document .yaml]

def ofName (name : String) : Except Fault Format :=
  match all.find? (·.name == name) with
  | some format => .ok format
  | none => .error (.unsupportedFormat name)

end Format

end StubTree.Report
