import Mathlib.Data.List.TakeWhile
import StubTree.Text.Blank

/-! # Trimming

What is left of a text without the blanks around it is the one part of it that has blanks around it
and no blank at either end.
-/

namespace StubTree.Text

variable {cs ds before after : List Char}

/-- Nothing but blanks. -/
def Blanks (cs : List Char) : Prop := ∀ c ∈ cs, isBlank c = true

/-- No blank at either end. -/
structure Trimmed (cs : List Char) : Prop where
  head : ∀ c ∈ cs.head?, isBlank c = false
  last : ∀ c ∈ cs.getLast?, isBlank c = false

theorem blanks_nil : Blanks [] := fun _ h => by cases h

theorem Blanks.append (hbefore : Blanks before) (hafter : Blanks after) :
    Blanks (before ++ after) :=
  fun c hc => (List.mem_append.mp hc).elim (hbefore c) (hafter c)

theorem blanks_reverse : Blanks cs.reverse ↔ Blanks cs := by
  simp only [Blanks, List.mem_reverse]

theorem trimEnd_eq_nil : trimEnd cs = [] ↔ ∀ c ∈ cs, isBlank c = true := by
  rw [trimEnd, List.reverse_eq_nil_iff, List.dropWhile_eq_nil_iff]
  simp only [List.mem_reverse]

theorem trim_eq_nil : trim cs = [] ↔ ∀ c ∈ cs, isBlank c = true := by
  rw [trim, trimEnd_eq_nil]
  constructor
  · intro h c hc
    rw [← List.takeWhile_append_dropWhile (p := isBlank) (l := cs)] at hc
    rcases List.mem_append.mp hc with hbefore | hafter
    · exact List.mem_takeWhile_imp hbefore
    · exact h c hafter
  · exact fun h c hc => h c ((List.dropWhile_sublist _).subset hc)

theorem strip_eq_empty {s : String} : strip s = "" ↔ ∀ c ∈ s.toList, isBlank c = true := by
  rw [strip, ← trim_eq_nil]
  exact ⟨fun h => by simpa using congrArg String.toList h, fun h => by rw [h]⟩

/-! ## Blanks around a text -/

theorem head_dropWhile_isBlank (cs : List Char) :
    ∀ c ∈ (cs.dropWhile isBlank).head?, isBlank c = false := by
  intro c hc
  have hnot := List.head?_dropWhile_not isBlank cs
  rw [hc] at hnot
  exact hnot

theorem exists_blanks_dropWhile (cs : List Char) :
    ∃ before, Blanks before ∧ cs = before ++ cs.dropWhile isBlank :=
  ⟨cs.takeWhile isBlank, fun _ hc => List.mem_takeWhile_imp hc,
    List.takeWhile_append_dropWhile.symm⟩

theorem dropWhile_blanks_append (hbefore : Blanks before)
    (hhead : ∀ c ∈ ds.head?, isBlank c = false) : (before ++ ds).dropWhile isBlank = ds := by
  rw [List.dropWhile_append_of_pos hbefore]
  cases ds with
  | nil => rfl
  | cons d rest => exact List.dropWhile_cons_of_neg (Bool.eq_false_iff.mp (hhead d rfl))

theorem trimEnd_append_blanks (hafter : Blanks after)
    (hlast : ∀ c ∈ ds.getLast?, isBlank c = false) : trimEnd (ds ++ after) = ds := by
  rw [trimEnd, List.reverse_append,
    dropWhile_blanks_append (blanks_reverse.mpr hafter) (by rwa [List.head?_reverse]),
    List.reverse_reverse]

theorem last_trimEnd (cs : List Char) : ∀ c ∈ (trimEnd cs).getLast?, isBlank c = false := by
  rw [trimEnd, List.getLast?_reverse]
  exact head_dropWhile_isBlank cs.reverse

theorem exists_blanks_trimEnd (cs : List Char) :
    ∃ after, Blanks after ∧ cs = trimEnd cs ++ after := by
  obtain ⟨before, hbefore, heq⟩ := exists_blanks_dropWhile cs.reverse
  refine ⟨before.reverse, blanks_reverse.mpr hbefore, ?_⟩
  rw [trimEnd, ← List.reverse_append, ← heq, List.reverse_reverse]

/-- Trimming leaves just the part of a text that is trimmed and has nothing but blanks around it. -/
theorem trim_eq_iff :
    trim cs = ds ↔ Trimmed ds ∧
      ∃ before after, Blanks before ∧ Blanks after ∧ cs = before ++ ds ++ after := by
  constructor
  · rintro rfl
    obtain ⟨before, hbefore, hcs⟩ := exists_blanks_dropWhile cs
    obtain ⟨after, hafter, hrest⟩ := exists_blanks_trimEnd (cs.dropWhile isBlank)
    refine ⟨⟨?_, last_trimEnd _⟩, before, after, hbefore, hafter, ?_⟩
    · -- What is cut off at the end leaves the first character alone.
      intro c hc
      apply head_dropWhile_isBlank cs c
      rw [hrest, List.head?_append, ← trim, Option.mem_def.mp hc]
      rfl
    · rw [List.append_assoc, trim, ← hrest, ← hcs]
  · rintro ⟨htrimmed, before, after, hbefore, hafter, rfl⟩
    by_cases hnil : ds = []
    · subst hnil
      rw [List.append_nil, trim_eq_nil]
      exact hbefore.append hafter
    · rw [trim, List.append_assoc, dropWhile_blanks_append hbefore,
        trimEnd_append_blanks hafter htrimmed.last]
      obtain ⟨d, rest, rfl⟩ := List.exists_cons_of_ne_nil hnil
      exact htrimmed.head

end StubTree.Text
