/-! # Similar words

Two words are compared by the longest run of characters they share, and by the runs shared
before and after it. A word with much in common with what was typed is worth suggesting.
-/

namespace StubTree.Text.Similarity

/-- A run of characters shared by two words: where it starts in each, and how long it is. -/
structure Run where
  left : Nat
  right : Nat
  size : Nat

/-- For each position of `b`, the length of the shared run that ends there and at the
present position of `a`, given the lengths for the position before. -/
def extend (live : Char → Bool) (c : Char) (before : List Nat) (b : List Char) : List Nat :=
  (b.zip (0 :: before)).map fun (d, n) => if live d && c == d then n + 1 else 0

/-- The longest run of the row that is longer than `best`, the first of equals. -/
def bestOfRow (i : Nat) : Nat → Run → List Nat → Run
  | _, best, [] => best
  | j, best, k :: row =>
    bestOfRow i (j + 1) (if best.size < k then ⟨i + 1 - k, j + 1 - k, k⟩ else best) row

/-- The longest run of live characters shared by `a` and `b`, the first of equals. -/
def longestLive (live : Char → Bool) (b : List Char) : Nat → List Nat → Run → List Char → Run
  | _, _, best, [] => best
  | i, before, best, c :: rest =>
    let row := extend live c before b
    longestLive live b (i + 1) row (bestOfRow i 0 best row) rest

/-- How many characters two lists share from their front on. -/
def commonPrefix : List Char → List Char → Nat
  | c :: a, d :: b => if c == d then commonPrefix a b + 1 else 0
  | _, _ => 0

/-- The longest live run, stretched at both ends over whatever characters agree. -/
def longestRun (live : Char → Bool) (a b : List Char) : Run :=
  let run := longestLive live b 0 (b.map fun _ => 0) ⟨0, 0, 0⟩ a
  -- Characters that start no run can still belong to one.
  let back := commonPrefix (a.take run.left).reverse (b.take run.right).reverse
  let size := run.size + back
  let left := run.left - back
  let right := run.right - back
  ⟨left, right, size + commonPrefix (a.drop (left + size)) (b.drop (right + size))⟩

/-- How many characters the words share in runs: the longest run, and the runs on either
side of it. Each round takes a non-empty run out, so `a.length` rounds are enough. -/
def shared (live : Char → Bool) : Nat → List Char → List Char → Nat
  | 0, _, _ => 0
  | fuel + 1, a, b =>
    let run := longestRun live a b
    if run.size == 0 then 0
    else run.size
      + shared live fuel (a.take run.left) (b.take run.right)
      + shared live fuel (a.drop (run.left + run.size)) (b.drop (run.right + run.size))

/-- In a long word, a character that makes up more than a hundredth of it starts no run. -/
def isLive (b : List Char) (c : Char) : Bool :=
  b.length < 200 || b.count c ≤ b.length / 100 + 1

/-- The number of characters that `candidate` has in common with `word`. -/
def score (candidate word : List Char) : Nat :=
  shared (isLive word) candidate.length candidate word

/-- At least three fifths of both words are shared. -/
def isClose (candidate word : List Char) : Bool :=
  10 * score candidate word ≥ 3 * (candidate.length + word.length)

/-- Whether `c` is a better answer for `word` than `d`: the larger share of characters wins,
and the greater text among equals. -/
def beats (word : List Char) (c d : String) : Bool :=
  let here := score c.toList word * (d.length + word.length)
  let there := score d.toList word * (c.length + word.length)
  there < here || (there == here && d < c)

/-- The candidate closest to `word`, if one is close at all. -/
def closest? (candidates : List String) (word : String) : Option String :=
  (candidates.filter fun c => isClose c.toList word.toList).foldl
    (fun best c => match best with
      | none => some c
      | some d => if beats word.toList c d then some c else some d)
    none

end StubTree.Text.Similarity
