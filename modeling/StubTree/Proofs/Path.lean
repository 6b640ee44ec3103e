import StubTree.Loader

/-! # Paths from the root

A path that was resolved has no double dots left, and so resolves to itself.
-/

namespace StubTree

namespace Path

theorem dots_not_mem_collapse {done : List String} (hdone : ".." ∉ done) (parts : List String) :
    ".." ∉ collapse done parts := by
  induction parts generalizing done with
  | nil => rwa [collapse, List.mem_reverse]
  | cons part rest ih =>
      rw [collapse]
      apply ih
      split
      next => exact fun hmem => hdone (List.mem_of_mem_drop hmem)
      next hpart =>
        rw [List.mem_cons, not_or]
        exact ⟨fun heq => hpart (beq_iff_eq.mpr heq.symm), hdone⟩

theorem collapse_of_dots_not_mem {parts : List String} (h : ".." ∉ parts) (done : List String) :
    collapse done parts = done.reverse ++ parts := by
  induction parts generalizing done with
  | nil => rw [collapse, List.append_nil]
  | cons part rest ih =>
      rw [List.mem_cons, not_or] at h
      have hpart : ¬ (part == "..") = true := fun heq => h.1 (beq_iff_eq.mp heq).symm
      rw [collapse, if_neg hpart, ih h.2, List.reverse_cons, List.append_assoc,
        List.singleton_append]

theorem resolve_of_dots_not_mem (home : List String) {p : Path} (hroot : p.anchor = .root)
    (hdots : ".." ∉ p.parts) : p.resolve home = p := by
  obtain ⟨anchor, parts⟩ := p
  obtain rfl : anchor = .root := hroot
  calc resolve home ⟨.root, parts⟩
      = ⟨.root, collapse [] parts⟩ := rfl
    _ = ⟨.root, parts⟩ := by
      rw [collapse_of_dots_not_mem hdots, List.reverse_nil, List.nil_append]

theorem dots_not_mem_resolve (home : List String) (p : Path) : ".." ∉ (p.resolve home).parts :=
  dots_not_mem_collapse List.not_mem_nil _

theorem resolve_resolve (home : List String) (p : Path) :
    (p.resolve home).resolve home = p.resolve home :=
  resolve_of_dots_not_mem home rfl (dots_not_mem_resolve home p)

/-- The directory that a resolved path stands in resolves to itself. -/
theorem resolve_parent_resolve (home : List String) (p : Path) :
    (p.resolve home).parent.resolve home = (p.resolve home).parent := by
  apply resolve_of_dots_not_mem home rfl
  exact fun hmem => dots_not_mem_resolve home p (List.dropLast_subset _ hmem)

end Path

namespace Loader

/-- What a path from the root comes to is itself. -/
theorem absolute_absolute {disk : Disk} {p q r : Path} (hp : absolute disk p = .ok q)
    (hq : absolute disk q = .ok r) : r = q := by
  rw [absolute] at hp hq
  split at hp
  · cases hp
  · cases hp
    split at hq
    · cases hq
    · cases hq
      exact Path.resolve_resolve disk.home p

end Loader

end StubTree
