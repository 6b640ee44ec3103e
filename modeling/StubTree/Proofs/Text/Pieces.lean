import Mathlib.Data.String.Basic
import StubTree.Text.Pieces

/-! # Pieces and what they are pieces of

Pieces joined by their separator give the text back, and no piece has a separator in it.
-/

namespace StubTree.Text

variable {sep : Char} {s t : String}

theorem pieces_eq_splitOn (sep : Char) (cs : List Char) : pieces sep cs = cs.splitOn sep := by
  induction cs with
  | nil => rfl
  | cons c cs ih =>
      rw [pieces, List.splitOn_cons_eq_if_modifyHead, ih]
      split
      · rfl
      · cases hrest : cs.splitOn sep with
        | nil => exact absurd hrest (List.splitOn_ne_nil sep cs)
        | cons p ps => rfl

theorem not_mem_of_mem_pieces {cs piece : List Char} (h : piece ∈ pieces sep cs) :
    sep ∉ piece := by
  induction cs generalizing piece with
  | nil =>
      rw [pieces, List.mem_singleton] at h
      rw [h]
      exact List.not_mem_nil
  | cons c cs ih =>
      rw [pieces] at h
      split at h
      · rcases List.mem_cons.mp h with rfl | hrest
        · exact List.not_mem_nil
        · exact ih hrest
      next hc =>
        have hne : sep ≠ c := fun heq => hc (beq_iff_eq.mpr heq.symm)
        cases hpieces : pieces sep cs with
        | nil => exact absurd hpieces (pieces_ne_nil sep cs)
        | cons p ps =>
            rw [hpieces] at h ih
            rcases List.mem_cons.mp h with rfl | hrest
            · rw [List.mem_cons, not_or]
              exact ⟨hne, ih List.mem_cons_self⟩
            · exact ih (List.mem_cons_of_mem p hrest)

theorem split_ne_nil (sep : Char) (s : String) : split sep s ≠ [] := by
  rw [split, ne_eq, List.map_eq_nil_iff]
  exact pieces_ne_nil sep s.toList

theorem not_mem_of_mem_split {piece : String} (h : piece ∈ split sep s) : sep ∉ piece.toList := by
  obtain ⟨cs, hcs, rfl⟩ := List.mem_map.mp h
  rw [String.toList_ofList]
  exact not_mem_of_mem_pieces hcs

/-- Different texts have different pieces. -/
theorem split_injective (sep : Char) : Function.Injective (split sep) := by
  intro s t h
  have hpieces : pieces sep s.toList = pieces sep t.toList :=
    List.map_injective_iff.mpr (fun _ _ hpiece => String.ofList_injective hpiece) h
  rw [pieces_eq_splitOn, pieces_eq_splitOn] at hpieces
  have htext := congrArg [sep].intercalate hpieces
  rw [List.intercalate_splitOn, List.intercalate_splitOn] at htext
  exact String.toList_inj.mp htext

/-- Texts without the separator come back when they are joined by it and split again. -/
theorem split_intercalate {parts : List String} (hne : parts ≠ [])
    (h : ∀ part ∈ parts, sep ∉ part.toList) :
    split sep ((String.singleton sep).intercalate parts) = parts := by
  rw [split, pieces_eq_splitOn, String.toList_intercalate, String.toList_singleton,
    List.splitOn_intercalate]
  · rw [List.map_map]
    exact List.map_id'' (fun part => String.ofList_toList) parts
  · simpa only [List.forall_mem_map] using h
  · simpa only [ne_eq, List.map_eq_nil_iff] using hne

theorem intercalate_split (sep : Char) (s : String) :
    (String.singleton sep).intercalate (split sep s) = s := by
  rw [← String.toList_inj, String.toList_intercalate, String.toList_singleton, split, List.map_map]
  have hchars : String.toList ∘ String.ofList = id := funext fun _ => String.toList_ofList
  rw [hchars, List.map_id, pieces_eq_splitOn, List.intercalate_splitOn]

/-! ## The last separator -/

theorem append_of_cutLast? {cs before after : List Char}
    (h : cutLast? sep cs = some (before, after)) : before ++ sep :: after = cs := by
  induction cs generalizing before with
  | nil => cases h
  | cons c cs ih =>
      rw [cutLast?] at h
      split at h
      next before' after' hcs =>
        cases h
        rw [List.cons_append, ih hcs]
      next =>
        split at h
        next hc =>
          cases h
          rw [List.nil_append, beq_iff_eq.mp hc]
        next => cases h

theorem not_mem_of_cutLast? {cs : List Char} (h : cutLast? sep cs = none) : sep ∉ cs := by
  induction cs with
  | nil => exact List.not_mem_nil
  | cons c cs ih =>
      rw [cutLast?] at h
      split at h
      next => cases h
      next hrest =>
        split at h
        next => cases h
        next hc =>
          rw [List.mem_cons, not_or]
          exact ⟨fun heq => hc (beq_iff_eq.mpr heq.symm), ih hrest⟩

theorem not_mem_after_of_cutLast? {cs before after : List Char}
    (h : cutLast? sep cs = some (before, after)) : sep ∉ after := by
  induction cs generalizing before with
  | nil => cases h
  | cons c cs ih =>
      rw [cutLast?] at h
      split at h
      next before' after' hcs =>
        cases h
        exact ih hcs
      next hrest =>
        split at h
        next =>
          cases h
          exact not_mem_of_cutLast? hrest
        next => cases h

/-- What stands behind the last separator is the last piece, and the other pieces are those of what
stands before it. -/
theorem pieces_of_cutLast? {cs before after : List Char}
    (h : cutLast? sep cs = some (before, after)) :
    pieces sep cs = pieces sep before ++ [after] := by
  simp only [← append_of_cutLast? h, pieces_eq_splitOn]
  rw [List.splitOn_append_cons_self, List.splitOn_eq_singleton (not_mem_after_of_cutLast? h)]

theorem split_of_not_mem (h : sep ∉ s.toList) : split sep s = [s] := by
  rw [split, pieces_eq_splitOn, List.splitOn_eq_singleton h, List.map_singleton,
    String.ofList_toList]

end StubTree.Text
