import StubTree.Disk
import StubTree.Proofs.Keyed
import StubTree.Proofs.Outcome

/-! # Disks that change

Making directories leaves every file as it is, and writing changes one file. Directories stay
directories in both, so a path that denotes a location goes on to denote it.
-/

namespace StubTree.Disk

variable {d d' d'' : Disk} {l other : Location} {p : Path} {bytes : ByteArray}

/-- Every directory of the first disk is one of the second. -/
structure Keeps (d d' : Disk) : Prop where
  home : d'.home = d.home
  directory : ∀ l, d.at? l = some .directory → d'.at? l = some .directory

/-- The second disk has some more directories, and is the same otherwise. -/
structure Extends (d d' : Disk) : Prop where
  home : d'.home = d.home
  entry : ∀ l, d'.at? l = d.at? l ∨ (d.at? l = none ∧ d'.at? l = some .directory)

namespace Extends

theorem refl (d : Disk) : d.Extends d where
  home := rfl
  entry _ := Or.inl rfl

theorem trans (h : d.Extends d') (h' : d'.Extends d'') : d.Extends d'' where
  home := h'.home.trans h.home
  entry l := by
    rcases h'.entry l with heq' | ⟨hnone, hmade⟩
    · rw [heq']
      exact h.entry l
    · rcases h.entry l with heq | ⟨_, hmade'⟩
      · exact Or.inr ⟨heq.symm.trans hnone, hmade⟩
      · rw [hmade'] at hnone
        cases hnone

theorem at?_of_some (h : d.Extends d') {e : Entry} (hl : d.at? l = some e) :
    d'.at? l = some e := by
  rcases h.entry l with heq | ⟨hnone, -⟩
  · exact heq.trans hl
  · rw [hl] at hnone
    cases hnone

theorem keeps (h : d.Extends d') : d.Keeps d' where
  home := h.home
  directory _ hl := h.at?_of_some hl

end Extends

theorem Keeps.trans (h : d.Keeps d') (h' : d'.Keeps d'') : d.Keeps d'' where
  home := h'.home.trans h.home
  directory l hl := h'.directory l (h.directory l hl)

/-! ## Walks -/

theorem Keeps.walk (h : d.Keeps d') {here : Location} {parts : List String}
    (hwalk : d.walk here parts = .ok l) : d'.walk here parts = .ok l := by
  induction parts generalizing here with
  | nil => exact hwalk
  | cons part rest ih =>
      rw [Disk.walk] at hwalk ⊢
      split at hwalk
      · cases hwalk
      · cases hwalk
      next hdirectory =>
        obtain ⟨next, hstep, hrest⟩ := exists_of_bind_eq_ok hwalk
        rw [h.directory here hdirectory, hstep]
        exact ih hrest

theorem Keeps.locate (h : d.Keeps d') (hl : d.locate p = .ok l) : d'.locate p = .ok l := by
  rw [Disk.locate] at hl ⊢
  split at hl
  · cases hl
  next hshort =>
    rw [if_neg hshort, h.home]
    exact h.walk hl

theorem locateFor_eq_ok : d.locateFor p = .ok l ↔ p.hasNul = false ∧ d.locate p = .ok l := by
  rw [locateFor]
  split
  next hnul => simp [hnul]
  next hnul =>
    rw [Bool.not_eq_true] at hnul
    cases hlocate : d.locate p with
    | error cause =>
        constructor
        · intro h
          cases h
        · rintro ⟨-, h⟩
          cases h
    | ok here =>
        constructor
        · intro h
          cases h
          exact ⟨hnul, rfl⟩
        · rintro ⟨-, h⟩
          cases h
          rfl

/-- Only a name that is too long keeps a path from being looked up. -/
theorem probe_eq_error {fault : Fault} (h : d.probe p = .error fault) :
    d.locate p = .error .nameTooLong ∧ fault = .system ⟨.nameTooLong, p⟩ := by
  rw [probe] at h
  split at h
  · cases h
  split at h
  · cases h
  next hlocate =>
    cases h
    exact ⟨hlocate, rfl⟩
  · cases h

theorem Keeps.locateFor (h : d.Keeps d') (hl : d.locateFor p = .ok l) :
    d'.locateFor p = .ok l := by
  rw [locateFor_eq_ok] at hl ⊢
  exact ⟨hl.1, h.locate hl.2⟩

/-! ## Entries -/

theorem at?_put (hl : l ≠ []) (d : Disk) (e : Entry) (other : Location) :
    (d.put l e).at? other = if other = l then some e else d.at? other := by
  by_cases hother : other = l
  · subst hother
    simp [at?, put, hl, Keyed.get?_set_self]
  · rw [if_neg hother, at?, at?, put, Keyed.get?_set_of_ne hother]

theorem ne_nil_of_at? (h : d.at? l ≠ some .directory) : l ≠ [] := by
  rintro rfl
  exact h rfl

theorem write_eq_ok (h : d.write p bytes = .ok d') :
    ∃ l, d.locateFor p = .ok l ∧ d.at? l ≠ some .directory ∧ d' = d.put l (.file bytes) := by
  obtain ⟨l, hl, h⟩ := exists_of_bind_eq_ok h
  split at h
  · cases h
  next hentry =>
    cases h
    exact ⟨l, hl, hentry, rfl⟩

theorem keeps_put_file (hl : d.at? l ≠ some .directory) (bytes : ByteArray) :
    d.Keeps (d.put l (.file bytes)) where
  home := rfl
  directory other hother := by
    have hne : other ≠ l := fun heq => hl (heq ▸ hother)
    rw [at?_put (ne_nil_of_at? hl), if_neg hne]
    exact hother

/-- A disk that has the entries of another one has them at the same locations. -/
theorem at?_of_entries (h : ∀ entry ∈ d.entries, d'.at? entry.1 = some entry.2) {e : Entry}
    (hl : d.at? l = some e) : d'.at? l = some e := by
  cases l with
  | nil => exact hl
  | cons => exact h _ (Keyed.mem_of_get? hl)

theorem read_of_at? (hl : d.locateFor p = .ok l) (hfile : d.at? l = some (.file bytes)) :
    d.read p = .ok bytes := by
  rw [read, hl]
  simp only [bind, Except.bind, hfile]

/-! ## Making directories -/

theorem extends_put_directory (hl : d.at? l = none) : d.Extends (d.put l .directory) where
  home := rfl
  entry other := by
    have hentry : d.at? l ≠ some .directory := by simp [hl]
    rw [at?_put (ne_nil_of_at? hentry)]
    split
    next heq => exact Or.inr ⟨heq ▸ hl, rfl⟩
    next => exact Or.inl rfl

theorem extends_of_makeDirectory (h : d.makeDirectory p = .ok d') : d.Extends d' := by
  obtain ⟨l, -, h⟩ := exists_of_bind_eq_ok h
  split at h
  · cases h
  next hnone =>
    cases h
    exact extends_put_directory hnone

theorem extends_of_ensureDirectory (h : d.ensureDirectory p = .ok d') : d.Extends d' := by
  rw [ensureDirectory] at h
  split at h
  · -- What could not be made may be there; then the disk is the one from before.
    split at h
    · cases h
    · cases h
      exact .refl d
    · cases h
  · exact extends_of_makeDirectory h

theorem extends_attempt (d : Disk) (p : Path) : d.Extends (ensureAbove.attempt d p).1 := by
  rw [ensureAbove.attempt]
  split
  next h => exact extends_of_ensureDirectory h
  next => exact .refl d

theorem extends_ensureAbove (d : Disk) (anchor : Anchor) (parts : List String) :
    d.Extends (d.ensureAbove anchor parts).1 := by
  induction parts with
  | nil => exact extends_attempt d _
  | cons part above ih =>
      rw [ensureAbove]
      split
      next h => exact extends_of_ensureDirectory h
      next =>
        split
        next h =>
          rw [h] at ih
          exact ih.trans (extends_attempt _ _)
        next => exact ih
      next => exact .refl d

/-- Making directories leaves every file as it is, also where it fails on the way. -/
theorem extends_makeDirectories (d : Disk) (p : Path) : d.Extends (d.makeDirectories p).1 :=
  extends_ensureAbove d _ _

theorem extends_of_makeDirectories {fault : Option Fault} (h : d.makeDirectories p = (d', fault)) :
    d.Extends d' := by
  have hextends := extends_makeDirectories d p
  rwa [h] at hextends

end StubTree.Disk
