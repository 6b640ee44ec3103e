/-! # Totals -/

namespace StubTree

/-- The sum of counts. -/
def total (counts : List Nat) : Nat := counts.foldr (· + ·) 0

@[simp] theorem total_nil : total [] = 0 := rfl

@[simp] theorem total_cons (count : Nat) (counts : List Nat) :
    total (count :: counts) = count + total counts := rfl

end StubTree
