import StubTree.Document.Basic
import StubTree.Number.Decimal
import StubTree.Text.Quoted

/-! # Values in messages

A message shows a value by its literal: texts are quoted, collections bracketed. A whole number
of more than 4300 digits has no literal, and neither has a collection that holds one.
-/

namespace StubTree.Shape

/-- A difference from universal time, in days and seconds. -/
def differenceLiteral (minutes : Int) : String :=
  let days := minutes.fdiv 1440
  let seconds := minutes.fmod 1440 * 60
  let parts :=
    (if days == 0 then [] else ["days=" ++ Number.intText days]) ++
    (if seconds == 0 then [] else ["seconds=" ++ Number.intText seconds])
  "datetime.timedelta(" ++ ", ".intercalate parts ++ ")"

def zoneLiteral (minutes : Int) : String :=
  if minutes == 0 then "datetime.timezone.utc"
  else "datetime.timezone(" ++ differenceLiteral minutes ++ ")"

/-- A date or a moment by its numbers. Seconds and microseconds are left out when they and
all that follows them are zero. -/
def momentLiteral (m : Moment) : String :=
  let numbers := [m.date.year, m.date.month, m.date.day, m.hour, m.minute] ++
    (if m.microsecond == 0 then (if m.second == 0 then [] else [m.second])
      else [m.second, m.microsecond])
  let zone := (m.offset.map fun o => ["tzinfo=" ++ zoneLiteral o]).getD []
  "datetime.datetime(" ++ ", ".intercalate (numbers.map Number.natText ++ zone) ++ ")"

def dateLiteral (d : Date) : String :=
  "datetime.date(" ++ ", ".intercalate ([d.year, d.month, d.day].map Number.natText) ++ ")"

def braced (parts : List String) : String :=
  "\x7b" ++ ", ".intercalate parts ++ "\x7d"

def truthLiteral (b : Bool) : String := if b then "True" else "False"

/-- The literal of a value whose parts are given by theirs. -/
def literal? : Shape String → Option String
  | null => some "None"
  | bool b => some (truthLiteral b)
  | int i => Number.intText? i
  | float x => some x.text
  | text s => some (Text.quoted s)
  | date d => some (dateLiteral d)
  | moment m => some (momentLiteral m)
  | bytes b => some (Text.quotedBytes b)
  | list items => some ("[" ++ ", ".intercalate items ++ "]")
  | pair a b => some ("(" ++ a ++ ", " ++ b ++ ")")
  | mapping entries => some (braced (entries.map fun (k, v) => k ++ ": " ++ v))
  | set [] => some "set()"
  | set items => some (braced items)

/-- What stands for a collection inside itself. -/
def closedLiteral {α : Type} : Shape α → String
  | mapping _ => braced ["..."]
  | pair .. => "(...)"
  | _ => "[...]"

end StubTree.Shape

namespace StubTree.Document

mutual

/-- A document as it would be written in a program, however deep its collections are nested. -/
def literal? : Document → Option String
  | list items => do (Shape.list (← literals? items)).literal?
  | mapping entries => do (Shape.mapping (← entryLiterals? entries)).literal?
  | null => Shape.literal? .null
  | bool b => Shape.literal? (.bool b)
  | int i => Shape.literal? (.int i)
  | float x => Shape.literal? (.float x)
  | text s => Shape.literal? (.text s)
  | date d => Shape.literal? (.date d)

def literals? : List Document → Option (List String)
  | [] => some []
  | d :: rest => return (← literal? d) :: (← literals? rest)

def entryLiterals? : List (Document × Document) → Option (List (String × String))
  | [] => some []
  | (k, v) :: rest => return (← literal? k, ← literal? v) :: (← entryLiterals? rest)

end

instance : Readable Document where
  shape := shape
  literal? := literal?

end StubTree.Document
