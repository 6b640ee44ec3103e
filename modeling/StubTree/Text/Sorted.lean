/-! # Sorted texts

Texts are ordered by the numbers of their characters, the first difference deciding.
-/

namespace StubTree.Text

/-- The texts in order, each as often as it comes. -/
def sorted (xs : List String) : List String :=
  xs.mergeSort fun a b => decide (a ≤ b)

/-- The texts in order, each once. -/
def sortedDistinct (xs : List String) : List String :=
  sorted xs.eraseDups

theorem mem_sortedDistinct {s : String} {xs : List String} : s ∈ sortedDistinct xs ↔ s ∈ xs := by
  simp [sortedDistinct, sorted]

end StubTree.Text
