import StubTree.Text.Pieces

/-! # Paths

A path is a row of segments under an anchor: none for a relative path, or the root. Empty
segments and single dots are dropped when a path is read; double dots stay until the path
is resolved. Two leading slashes, and only two, are an anchor of their own.
-/

namespace StubTree

inductive Anchor where
  | relative
  | root
  | doubleRoot
  deriving DecidableEq, Repr, Inhabited

/-- A path of a file or a directory. -/
structure Path where
  anchor : Anchor
  parts : List String
  deriving DecidableEq, Repr, Inhabited

namespace Path

def anchorOf : Nat → Anchor
  | 0 => .relative
  | 2 => .doubleRoot
  | _ => .root

/-- Reads a path. -/
def ofText (s : String) : Path :=
  ⟨anchorOf (s.toList.takeWhile (· == '/')).length,
    (Text.split '/' s).filter fun part => part != "" && part != "."⟩

def anchorText : Anchor → String
  | .relative => ""
  | .root => "/"
  | .doubleRoot => "//"

/-- The shortest text of the path; a dot stands for the empty one. -/
def text (p : Path) : String :=
  if p.anchor == .relative && p.parts.isEmpty then "."
  else anchorText p.anchor ++ "/".intercalate p.parts

/-- The second path seen from the first; one that starts at the root stands for itself. -/
def join (p q : Path) : Path :=
  if q.anchor == .relative then ⟨p.anchor, p.parts ++ q.parts⟩ else q

def entry (p : Path) (name : String) : Path :=
  p.join (ofText name)

def parent (p : Path) : Path :=
  ⟨p.anchor, p.parts.dropLast⟩

/-- Whether a segment holds the character that no path of the system may hold. -/
def hasNul (p : Path) : Bool :=
  p.parts.any fun part => part.toList.contains '\x00'

/-- The segments with every double dot taken back together with the segment before it. -/
def collapse : List String → List String → List String
  | done, [] => done.reverse
  | done, part :: rest => collapse (if part == ".." then done.drop 1 else part :: done) rest

/-- The path from the root, seen from the directory `home`. -/
def resolve (home : List String) (p : Path) : Path :=
  ⟨.root, collapse [] (if p.anchor == .relative then home ++ p.parts else p.parts)⟩

def name (p : Path) : String :=
  p.parts.getLast?.getD ""

/-- The ending of a file name, with its dot. A dot in front or at the end starts none. -/
def suffix (p : Path) : String :=
  match Text.cutLast? '.' p.name.toList with
  | some (_ :: _, after@(_ :: _)) => String.ofList ('.' :: after)
  | _ => ""

/-- The path with an ending put on its last segment, if it has one. -/
def withSuffix? (p : Path) (ending : String) : Option Path :=
  p.parts.getLast?.map fun last => ⟨p.anchor, p.parts.dropLast ++ [last ++ ending]⟩

end Path

end StubTree
