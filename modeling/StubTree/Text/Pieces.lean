/-! # Pieces between separators

A text cut at every occurrence of a separator has one piece more than there are separators;
some of them may be empty.
-/

namespace StubTree.Text

/-- The pieces between the separators. -/
def pieces (sep : Char) : List Char → List (List Char)
  | [] => [[]]
  | c :: cs =>
    if c == sep then [] :: pieces sep cs
    else match pieces sep cs with
      | [] => [[c]]
      | p :: ps => (c :: p) :: ps

theorem pieces_ne_nil (sep : Char) (cs : List Char) : pieces sep cs ≠ [] := by
  cases cs with
  | nil => simp [pieces]
  | cons c cs => unfold pieces; split <;> (try split) <;> simp

def split (sep : Char) (s : String) : List String :=
  (pieces sep s.toList).map String.ofList

/-- What stands before and after the last separator, if there is one. -/
def cutLast? (sep : Char) : List Char → Option (List Char × List Char)
  | [] => none
  | c :: cs =>
    match cutLast? sep cs with
    | some (before, after) => some (c :: before, after)
    | none => if c == sep then some ([], cs) else none

end StubTree.Text
