/-! # Terminal styling

A styled text stands between control sequences that switch colour, weight and underline
on and off. `plain` takes the control sequences out again, for output that no terminal shows.
-/

namespace StubTree.Text

inductive Colour where
  | black | red | green | yellow | magenta | cyan | brightGreen
  deriving DecidableEq, Repr

def Colour.code : Colour → String
  | .black => "30"
  | .red => "31"
  | .green => "32"
  | .yellow => "33"
  | .magenta => "35"
  | .cyan => "36"
  | .brightGreen => "92"

/-- How a piece of text is shown. -/
structure Style where
  colour : Colour
  bold : Bool := false
  underline : Bool := false

/-- The control sequence that selects one rendition. -/
def rendition (code : String) : String :=
  "\x1b[" ++ code ++ "m"

/-- The text between its style's control sequences. -/
def Style.paint (style : Style) (s : String) : String :=
  rendition style.colour.code
    ++ (if style.bold then rendition "1" else "")
    ++ (if style.underline then rendition "4" else "")
    ++ s ++ rendition "0"

def coloured (c : Colour) (s : String) : String := ({ colour := c } : Style).paint s

def bold (c : Colour) (s : String) : String := ({ colour := c, bold := true } : Style).paint s

def underlined (c : Colour) (s : String) : String :=
  ({ colour := c, underline := true } : Style).paint s

namespace Ansi

/-- A parameter character of a control sequence: a digit or one of `:;<=>?`. -/
def isParameter (c : Char) : Bool := '0' ≤ c && c ≤ '?'

/-- An intermediate character of a control sequence: a space or one of the signs before `0`. -/
def isIntermediate (c : Char) : Bool := ' ' ≤ c && c ≤ '/'

/-- The character that ends a control sequence. -/
def isFinal (c : Char) : Bool := '@' ≤ c && c ≤ '~'

/-- What follows the control sequence at the front, if one stands there: escape, bracket,
parameters, intermediates and one final character. -/
def afterSequence? : List Char → Option (List Char)
  | '\x1b' :: '[' :: body =>
    match (body.dropWhile isParameter).dropWhile isIntermediate with
    | c :: rest => if isFinal c then some rest else none
    | [] => none
  | _ => none

private theorem length_dropWhile_le (p : Char → Bool) (cs : List Char) :
    (cs.dropWhile p).length ≤ cs.length := by
  induction cs with
  | nil => simp
  | cons c cs ih =>
    simp only [List.dropWhile]
    split
    · exact Nat.le_succ_of_le ih
    · exact Nat.le_refl _

theorem length_afterSequence? {cs rest : List Char} (h : afterSequence? cs = some rest) :
    rest.length < cs.length := by
  unfold afterSequence? at h
  split at h
  · next body =>
    have hbody := length_dropWhile_le isIntermediate (body.dropWhile isParameter)
    have hparams := length_dropWhile_le isParameter body
    split at h
    · next c tail heq =>
      split at h
      · cases h
        rw [heq] at hbody
        simp only [List.length_cons] at hbody ⊢
        omega
      · contradiction
    · contradiction
  · contradiction

/-- The characters outside every control sequence, found from the front in one pass. -/
def strip (cs : List Char) : List Char :=
  match _h : afterSequence? cs with
  | some rest => strip rest
  | none =>
    match cs with
    | [] => []
    | c :: rest => c :: strip rest
termination_by cs.length
decreasing_by
  · exact length_afterSequence? (by assumption)
  · simp

end Ansi

/-- A text with every control sequence taken out. -/
def plain (s : String) : String :=
  String.ofList (Ansi.strip s.toList)

end StubTree.Text
