import Mathlib.Data.String.Basic
import StubTree.Proofs.Distinct
import StubTree.Text.Sorted

/-! # Texts in order

Sorting leaves texts as they are and puts them in order, so what is sorted depends on nothing but
how often each text comes; texts that differ come out strictly ascending.
-/

namespace StubTree.Text

variable {xs ys : List String} {s : String}

theorem mem_sorted : s ∈ sorted xs ↔ s ∈ xs :=
  (List.mergeSort_perm xs _).mem_iff

theorem pairwise_sorted (xs : List String) : (sorted xs).Pairwise (· ≤ ·) := by
  have htrans : ∀ a b c : String, decide (a ≤ b) = true → decide (b ≤ c) = true →
      decide (a ≤ c) = true := by
    intro a b c hab hbc
    exact decide_eq_true (le_trans (of_decide_eq_true hab) (of_decide_eq_true hbc))
  have htotal : ∀ a b : String, (decide (a ≤ b) || decide (b ≤ a)) = true := by
    intro a b
    simpa using le_total a b
  exact (List.pairwise_mergeSort htrans htotal xs).imp of_decide_eq_true

theorem sorted_eq_of_perm (h : xs.Perm ys) : sorted xs = sorted ys := by
  have hperm : (sorted xs).Perm (sorted ys) :=
    (List.mergeSort_perm xs _).trans (h.trans (List.mergeSort_perm ys _).symm)
  exact hperm.eq_of_pairwise (fun _ _ _ _ => le_antisymm) (pairwise_sorted xs) (pairwise_sorted ys)

theorem ascending_sorted (h : xs.Nodup) : (sorted xs).Pairwise (· < ·) := by
  have hnodup : (sorted xs).Nodup := (List.mergeSort_perm xs _).nodup_iff.mpr h
  exact (pairwise_sorted xs).imp₂ (fun _ _ => lt_of_le_of_ne) hnodup

theorem ascending_sortedDistinct (xs : List String) : (sortedDistinct xs).Pairwise (· < ·) :=
  ascending_sorted (Distinct.nodup_eraseDups xs)

end StubTree.Text
