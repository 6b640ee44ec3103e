import Mathlib.Data.List.Induction

/-! # Lists with every item once

Laws of the list that keeps the first of equal items: what one more item does to it, and that it
commutes with leaving items out.
-/

namespace StubTree.Distinct

variable {α : Type} [BEq α] [LawfulBEq α]

theorem eraseDups_concat_of_mem {l : List α} {a : α} (h : a ∈ l) :
    (l ++ [a]).eraseDups = l.eraseDups := by
  simp [List.eraseDups_append, List.removeAll, h]

theorem eraseDups_concat_of_not_mem {l : List α} {a : α} (h : a ∉ l) :
    (l ++ [a]).eraseDups = l.eraseDups ++ [a] := by
  simp [List.eraseDups_append, List.removeAll, h, List.eraseDups_cons]

theorem nodup_eraseDups (l : List α) : l.eraseDups.Nodup := by
  induction l using List.reverseRecOn with
  | nil => exact List.nodup_nil
  | append_singleton l a ih =>
      by_cases hmem : a ∈ l
      · rwa [eraseDups_concat_of_mem hmem]
      · rw [eraseDups_concat_of_not_mem hmem, List.nodup_append]
        refine ⟨ih, List.pairwise_singleton _ a, ?_⟩
        rintro b hb _ (_ | ⟨_, ⟨⟩⟩) rfl
        exact hmem (List.mem_eraseDups.mp hb)

theorem eraseDups_filter (p : α → Bool) (l : List α) :
    (l.filter p).eraseDups = l.eraseDups.filter p := by
  induction l using List.reverseRecOn with
  | nil => rfl
  | append_singleton l a ih =>
      by_cases hmem : a ∈ l
      · rw [eraseDups_concat_of_mem hmem, List.filter_append]
        cases hp : p a with
        | false => simpa [hp] using ih
        | true =>
            have hkept : a ∈ l.filter p := List.mem_filter.mpr ⟨hmem, hp⟩
            simpa [hp, eraseDups_concat_of_mem hkept] using ih
      · rw [eraseDups_concat_of_not_mem hmem, List.filter_append, List.filter_append, ← ih]
        cases hp : p a with
        | false => simp [hp]
        | true =>
            have hkept : a ∉ l.filter p := fun h => hmem (List.mem_filter.mp h).1
            simp [hp, eraseDups_concat_of_not_mem hkept]

end StubTree.Distinct
