import StubTree.Document.Text
import StubTree.Yaml.Tag
import StubTree.Yaml.Character

/-! # Documents as YAML

Collections are written in block style, one entry or item to a line, and empty ones in
brackets. A scalar is plain where it then still reads as itself, stands in single quotes where
these can show it, and in double quotes, in ASCII, otherwise. Lines are folded at spaces after
the eightieth column.
-/

namespace StubTree.Yaml

/-- What a text holds that decides how it can be written. -/
structure Analysis where
  multiline : Bool := false
  special : Bool := false
  edgeGap : Bool := false
  breakSpace : Bool := false
  spaceBreak : Bool := false
  indicators : Bool := false

namespace Analysis

/-- A character that only double quotes can show. -/
def isSpecial (c : Char) : Bool :=
  !(c == '\n' || (' ' ≤ c && c ≤ '~'))

/-- The characters that a plain scalar cannot start with. -/
def startIndicators : List Char := "#,[]\x7b\x7d&*!|>'\"%@`".toList

/-- Whether the first character would be read as an indicator. -/
def startsIndicator (c : Char) (after : Option Char) : Bool :=
  startIndicators.contains c || ((c == '?' || c == ':' || c == '-') && isGap after)

/-- Whether a later character would be read as an indicator. -/
def isIndicator (before c : Char) (after : Option Char) : Bool :=
  (c == ':' && isGap after) || (c == '#' && isGap (some before))

/-- Goes over the characters after the first, each with the one before it. -/
def scan (a : Analysis) (before : Char) : List Char → Analysis
  | [] => a
  | c :: rest =>
    scan
      { a with
        multiline := a.multiline || isBreak c
        special := a.special || isSpecial c
        breakSpace := a.breakSpace || (c == ' ' && isBreak before)
        spaceBreak := a.spaceBreak || (isBreak c && before == ' ')
        indicators := a.indicators || isIndicator before c rest.head? }
      c rest

/-- What a text holds. -/
def of (cs : List Char) : Analysis :=
  match cs with
  | [] => {}
  | c :: rest =>
    let edge (x : Char) := x == ' ' || isBreak x
    let marked := "---".toList.isPrefixOf cs || "...".toList.isPrefixOf cs
    scan
      { multiline := isBreak c
        special := isSpecial c
        edgeGap := edge c || (rest.getLast?.any edge)
        indicators := marked || startsIndicator c rest.head? }
      c rest

/-- Whether the text can be written without quotes. -/
def allowsPlain (a : Analysis) : Bool :=
  !(a.edgeGap || a.breakSpace || a.spaceBreak || a.special || a.multiline || a.indicators)

/-- Whether single quotes can show the text. -/
def allowsSingle (a : Analysis) : Bool :=
  !(a.breakSpace || a.spaceBreak || a.special)

end Analysis

/-- The state of the writer. `atGap` says that a gap stands before the next character, `atMargin`
that only a margin and indicators stand before it on its line. -/
structure Writer where
  written : List Char := []
  column : Nat := 0
  atGap : Bool := true
  atMargin : Bool := true

namespace Writer

def width : Nat := 80

/-- Writes characters that end no line. -/
def put (w : Writer) (cs : List Char) : Writer :=
  { w with written := cs.reverse ++ w.written, column := w.column + cs.length }

def newline (w : Writer) : Writer :=
  ⟨'\n' :: w.written, 0, true, true⟩

/-- Goes to the margin of a line, on a new one if this one is in use. -/
def toMargin (w : Writer) (indent : Nat) : Writer :=
  -- A line that holds only indicators is not in use up to its margin.
  let isInUse := !w.atMargin || indent < w.column || (w.column == indent && !w.atGap)
  let w := if isInUse then w.newline else w
  if w.column < indent then
    { w.put (List.replicate (indent - w.column) ' ') with atGap := true }
  else w

/-- Writes an indicator, with a space before it if one is needed. -/
def indicator (w : Writer) (cs : List Char) (needsGap keepsMargin : Bool) : Writer :=
  let w' := w.put (if w.atGap || !needsGap then cs else ' ' :: cs)
  { w' with atGap := false, atMargin := w.atMargin && keepsMargin }

/-- Notes that neither a gap nor a margin stands here. -/
def inText (w : Writer) : Writer := { w with atGap := false, atMargin := false }

/-- Where a scalar's later lines start, and whether it may have any. -/
structure Folding where
  indent : Nat
  allowed : Bool

/-- A text in runs of spaces, of line breaks, of quotes and of other characters. -/
def runs (cs : List Char) : List (List Char) :=
  let kind (c : Char) : Nat :=
    if c == ' ' then 0 else if isBreak c then 1 else if c == '\'' then 2 else 3
  cs.splitBy fun a b => kind a == kind b

def plain (w : Writer) (f : Folding) (cs : List Char) : Writer :=
  let w := if w.atGap then w else w.put [' ']
  (runs cs).foldl
    (fun w run =>
      if run == [' '] && width < w.column && f.allowed then (w.toMargin f.indent).inText
      else w.put run)
    w.inText

/-- Writes a run of a text between single quotes. -/
def singleRun (w : Writer) (f : Folding) (isInner : Bool) (run : List Char) : Writer :=
  match run with
  | [' '] => if width < w.column && f.allowed && isInner then w.toMargin f.indent else w.put run
  | '\n' :: _ => (run.foldl (fun w _ => w.newline) w.newline).toMargin f.indent
  | '\'' :: _ => w.put (run ++ run)
  | _ => w.put run

/-- Writes runs between single quotes. A space at either end stays on its line. -/
def singleRuns (f : Folding) : Bool → List (List Char) → Writer → Writer
  | _, [], w => w
  | isFirst, run :: rest, w =>
    singleRuns f false rest (w.singleRun f (!isFirst && !rest.isEmpty) run)

def single (w : Writer) (f : Folding) (cs : List Char) : Writer :=
  (singleRuns f true (runs cs) (w.indicator ['\''] true false)).indicator ['\''] false false

/-- The letter that stands for a character behind a backslash. -/
def escapeLetter? (c : Char) : Option Char :=
  match c.toNat with
  | 0x00 => some '0'
  | 0x07 => some 'a'
  | 0x08 => some 'b'
  | 0x09 => some 't'
  | 0x0A => some 'n'
  | 0x0B => some 'v'
  | 0x0C => some 'f'
  | 0x0D => some 'r'
  | 0x1B => some 'e'
  | 0x22 => some '"'
  | 0x5C => some '\\'
  | 0x85 => some 'N'
  | 0xA0 => some '_'
  | 0x2028 => some 'L'
  | 0x2029 => some 'P'
  | _ => none

/-- A character that is not shown as itself between double quotes. -/
def isEscaped (c : Char) : Bool :=
  c == '"' || c == '\\' || !(' ' ≤ c && c ≤ '~')

def escape (c : Char) : List Char :=
  let upper (ds : List Char) := ds.map Char.toUpper
  let n := c.toNat
  match escapeLetter? c with
  | some letter => ['\\', letter]
  | none =>
    if n ≤ 0xFF then '\\' :: 'x' :: upper (Text.hex 2 n)
    else if n ≤ 0xFFFF then '\\' :: 'u' :: upper (Text.hex 4 n)
    else '\\' :: 'U' :: upper (Text.hex 8 n)

/-- Ends a line between double quotes with a backslash. Another one keeps a space at the start
of the next line. -/
def breakLine (w : Writer) (f : Folding) (next : Option Char) : Writer :=
  let w := ((w.put ['\\']).toMargin f.indent).inText
  if next == some ' ' then w.put ['\\'] else w

/-- Writes characters between double quotes; `held` are those read but not written yet, last
first. -/
def doubleBody (f : Folding) : Bool → List Char → List Char → Writer → Writer
  | _, held, [], w => w.put held.reverse
  | isFirst, held, c :: rest, w =>
    let mayBreak := f.allowed && !isFirst && !rest.isEmpty
    if isEscaped c then
      let w := (w.put held.reverse).put (escape c)
      let w := if mayBreak && width + 1 < w.column then w.breakLine f rest.head? else w
      doubleBody f false [] rest w
    else if mayBreak && (c == ' ' || held.isEmpty) && width < w.column + held.length then
      doubleBody f false [c] rest ((w.put held.reverse).breakLine f (some c))
    else doubleBody f false (c :: held) rest w

def double (w : Writer) (f : Folding) (cs : List Char) : Writer :=
  (doubleBody f true [] cs (w.indicator ['"'] true false)).indicator ['"'] false false

end Writer

/-- How a document that is no collection is written, and the length of its tag's short form. -/
structure ScalarForm where
  text : String
  tagLength : Nat
  isText : Bool

/-- The point that a number needs before its exponent. -/
def withPoint (cs : List Char) : List Char :=
  if cs.contains '.' then cs
  else match Number.cutAt (· == 'e') cs with
    | (mantissa, some exponent) => mantissa ++ ".0e".toList ++ exponent
    | (_, none) => cs

def floatText : Number.Binary64 → String
  | .infinite negative => if negative then "-.inf" else ".inf"
  | .nan => ".nan"
  | x => String.ofList (withPoint x.text.toList)

def scalarForm : Document → ScalarForm
  | .null => ⟨"null", 6, false⟩
  | .bool b => ⟨if b then "true" else "false", 6, false⟩
  | .int i => ⟨Number.intText i, 5, false⟩
  | .float x => ⟨floatText x, 7, false⟩
  | .date d => ⟨d.text, 11, false⟩
  | .text s => ⟨s, 5, true⟩
  | .list _ | .mapping _ => ⟨"", 5, true⟩

/-- Whether a scalar is short and simple enough to stand before its colon. -/
def isSimpleKey (s : ScalarForm) : Bool :=
  s.text != "" && s.tagLength + s.text.length < 128 && !(Analysis.of s.text.toList).multiline

def writeScalar (w : Writer) (f : Writer.Folding) (s : ScalarForm) : Writer :=
  let cs := s.text.toList
  let a := Analysis.of cs
  let isKey := !f.allowed
  -- A text that would read as something else has to stand between quotes.
  let reads := !s.isText || Tag.ofPlain s.text == .str
  if reads && s.text != "" && a.allowsPlain then w.plain f cs
  else if a.allowsSingle && !(isKey && a.multiline) then w.single f cs
  else w.double f cs

/-- The margin of the lines inside a collection or a scalar at `indent`; there is none at the
root. -/
def deeper (indent : Option Nat) (atRoot : Nat) : Nat :=
  match indent with
  | none => atRoot
  | some n => n + 2

/-- Writes a scalar or an empty collection at a margin. -/
def writeLeaf (w : Writer) (indent : Option Nat) (mayFold : Bool) (d : Document) : Writer :=
  match d with
  | .list [] => (w.indicator ['['] true false).put [']']
  | .mapping [] => (w.indicator ['\x7b'] true false).put ['\x7d']
  | d => writeScalar w ⟨deeper indent 2, mayFold⟩ (scalarForm d)

/-- Writes a key, and the colon behind it. One that cannot stand before its colon has a line of
its own. -/
def writeKey (w : Writer) (indent : Nat) (key : Document) : Writer :=
  let w := w.toMargin indent
  if isSimpleKey (scalarForm key) then
    (writeLeaf w (some indent) false key).indicator [':'] false false
  else
    let w := writeLeaf (w.indicator ['?'] true true) (some indent) true key
    (w.toMargin indent).indicator [':'] true true

mutual

/-- Writes a document. A sequence in a mapping is no deeper than the mapping's keys, unless it
stands on the line of its indicator. -/
def writeNode (indent : Option Nat) (inMapping : Bool) (w : Writer) : Document → Writer
  | .list (x :: xs) =>
    writeItems (if inMapping && !w.atMargin then indent.getD 0 else deeper indent 0) w (x :: xs)
  | .mapping (e :: es) => writeEntries (deeper indent 0) w (e :: es)
  | d => writeLeaf w indent true d

def writeItems (indent : Nat) (w : Writer) : List Document → Writer
  | [] => w
  | d :: rest =>
    let w := (w.toMargin indent).indicator ['-'] true true
    writeItems indent (writeNode (some indent) false w d) rest

def writeEntries (indent : Nat) (w : Writer) : List (Document × Document) → Writer
  | [] => w
  | (k, v) :: rest =>
    writeEntries indent (writeNode (some indent) true (writeKey w indent k) v) rest

end

/-- Whether the end of a document has to be marked: a plain scalar could go on otherwise. -/
def needsEnd (d : Document) : Bool :=
  match d with
  | .list _ | .mapping _ => false
  | d =>
    let s := scalarForm d
    (!s.isText || Tag.ofPlain s.text == .str) && s.text != ""
      && (Analysis.of s.text.toList).allowsPlain

def write (d : Document) : String :=
  let w := (writeNode none false {} d).toMargin 0
  let w := if needsEnd d then (w.indicator "...".toList true false).toMargin 0 else w
  String.ofList w.written.reverse

end StubTree.Yaml
