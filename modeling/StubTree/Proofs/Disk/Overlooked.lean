import StubTree.Proofs.Disk

/-! # Files that a path overlooks

A path through a directory that is missing denotes nothing, even if a file stands where it ends:
only when the directory is made does the step back out of it lead to that file. What is removed by
the path before is nothing, and what is appended by it then goes behind what the file held.
-/

namespace StubTree.Disk

variable {d d' : Disk} {l : Location} {p : Path} {bytes : ByteArray}

/-- The bytes of the file at a location; none where no file is. -/
def held (d : Disk) (l : Location) : ByteArray :=
  match d.at? l with
  | some (.file bytes) => bytes
  | _ => .empty

/-- Where a path ends once all its directories are there. -/
def landing (d : Disk) (p : Path) : Location :=
  Path.collapse (if p.anchor == .relative then d.home else []).reverse p.parts

/-- The bytes of a file that the path ends at but does not denote yet, for want of a directory on
its way. -/
def overlooked (d : Disk) (p : Path) : ByteArray :=
  match d.locate p with
  | .ok _ => .empty
  | .error _ => d.held (d.landing p)

theorem held_of_at?_eq_none (h : d.at? l = none) : d.held l = .empty := by rw [held, h]

theorem Extends.held (h : d.Extends d') (l : Location) : d'.held l = d.held l := by
  rw [Disk.held, Disk.held]
  rcases h.entry l with heq | ⟨hnone, hmade⟩
  · rw [heq]
  · rw [hnone, hmade]

/-! ## Where a walk ends -/

theorem walk_eq_collapse {here : Location} {parts : List String} (h : d.walk here parts = .ok l) :
    l = Path.collapse here.reverse parts := by
  induction parts generalizing here with
  | nil =>
      cases h
      rw [Path.collapse, List.reverse_reverse]
  | cons part rest ih =>
      rw [walk] at h
      split at h
      · cases h
      · cases h
      next =>
        obtain ⟨next, hstep, hrest⟩ := exists_of_bind_eq_ok h
        rw [ih hrest, Path.collapse]
        rw [step] at hstep
        congr 1
        split at hstep
        next hback =>
          cases hstep
          rw [if_pos hback, ← List.tail_reverse, List.drop_one]
        next hback =>
          rw [if_neg hback]
          split at hstep
          · cases hstep
          · cases hstep
            rw [List.reverse_append, List.reverse_singleton, List.singleton_append]

theorem locate_eq_landing (h : d.locate p = .ok l) : l = d.landing p := by
  rw [locate] at h
  split at h
  · cases h
  · exact walk_eq_collapse h

theorem landing_of_home (h : d'.home = d.home) (p : Path) : d'.landing p = d.landing p := by
  rw [landing, landing, h]

/-! ## Every location once -/

/-- Every location has one entry. -/
def Distinct (d : Disk) : Prop := d.entries.keys.Nodup

namespace Distinct

theorem put (h : d.Distinct) (l : Location) (e : Entry) : (d.put l e).Distinct :=
  Keyed.nodup_keys_set h l e

theorem makeDirectory (h : d.Distinct) (hmake : d.makeDirectory p = .ok d') : d'.Distinct := by
  obtain ⟨l, -, hmake⟩ := exists_of_bind_eq_ok hmake
  split at hmake
  · cases hmake
  · cases hmake
    exact h.put l _

theorem ensureDirectory (h : d.Distinct) (hensure : d.ensureDirectory p = .ok d') :
    d'.Distinct := by
  rw [Disk.ensureDirectory] at hensure
  split at hensure
  · split at hensure
    · cases hensure
    · cases hensure
      exact h
    · cases hensure
  · exact h.makeDirectory hensure

theorem attempt (h : d.Distinct) (p : Path) : (ensureAbove.attempt d p).1.Distinct := by
  rw [ensureAbove.attempt]
  split
  next hensure => exact h.ensureDirectory hensure
  next => exact h

theorem ensureAbove (h : d.Distinct) (anchor : Anchor) (parts : List String) :
    (d.ensureAbove anchor parts).1.Distinct := by
  induction parts with
  | nil => exact h.attempt _
  | cons part above ih =>
      rw [Disk.ensureAbove]
      split
      next hensure => exact h.ensureDirectory hensure
      next =>
        split
        next hmade =>
          rw [hmade] at ih
          exact Distinct.attempt ih _
        next => exact ih
      next => exact h

theorem makeDirectories (h : d.Distinct) (p : Path) : (d.makeDirectories p).1.Distinct :=
  h.ensureAbove _ _

end Distinct

/-! ## Removing and appending -/

/-- The disk without the file at a location. -/
def without (d : Disk) (l : Location) : Disk := { d with entries := d.entries.erase l }

theorem at?_without (h : d.Distinct) (hl : l ≠ []) : (d.without l).at? l = none := by
  rw [at?, if_neg (fun hnil => hl (List.isEmpty_iff.mp hnil))]
  exact Keyed.get?_erase_self h l

theorem removeFile_of_locate (hl : d.locate p = .ok l) :
    d.removeFile p = if isFile (d.at? l) then d.without l else d := by
  rw [removeFile, hl, without]

/-- After its file is removed a path ends at no bytes but those it overlooks. -/
theorem held_removeFile (h : d.Distinct) (p : Path) :
    (d.removeFile p).held (d.landing p) = d.overlooked p := by
  rw [overlooked]
  cases hlocate : d.locate p with
  | error => rw [removeFile, hlocate]
  | ok l =>
      rw [← locate_eq_landing hlocate, removeFile_of_locate hlocate]
      cases hentry : d.at? l with
      | none => exact held_of_at?_eq_none hentry
      | some e =>
          cases e with
          | directory =>
              rw [isFile, if_neg Bool.false_ne_true, held, hentry]
              rintro _ ⟨⟩
          | file bytes =>
              have hne : l ≠ [] := ne_nil_of_at? (d := d) (by simp [hentry])
              rw [isFile, if_pos rfl]
              exact held_of_at?_eq_none (at?_without h hne)

theorem home_removeFile (d : Disk) (p : Path) : (d.removeFile p).home = d.home := by
  rw [removeFile]
  split
  · split <;> rfl
  · rfl

theorem append_eq_ok (h : d.append p bytes = .ok d') :
    d.locateFor p = .ok (d.landing p) ∧ d.at? (d.landing p) ≠ some .directory ∧
      d' = d.put (d.landing p) (.file (d.held (d.landing p) ++ bytes)) := by
  obtain ⟨l, hl, h⟩ := exists_of_bind_eq_ok h
  obtain rfl := locate_eq_landing (locateFor_eq_ok.mp hl).2
  have hput : ∀ {bytes}, d.write p bytes = .ok d' →
      d.at? (d.landing p) ≠ some .directory ∧ d' = d.put (d.landing p) (.file bytes) := by
    intro bytes hwrite
    obtain ⟨l, hl', hentry⟩ := write_eq_ok hwrite
    obtain rfl := Except.ok.inj (hl'.symm.trans hl)
    exact hentry
  refine ⟨hl, ?_⟩
  rw [held]
  cases hbefore : d.at? (d.landing p) with
  | none =>
      rw [hbefore] at h hput
      rw [ByteArray.empty_append]
      exact hput h
  | some entry =>
      rw [hbefore] at h hput
      cases entry with
      | directory => exact absurd rfl (hput h).1
      | file before => exact hput h

/-- What is appended stands behind what the file held. -/
theorem read_append (h : d.append p bytes = .ok d') :
    d'.read p = .ok (d.held (d.landing p) ++ bytes) := by
  obtain ⟨hl, hentry, rfl⟩ := append_eq_ok h
  have hput := at?_put (ne_nil_of_at? hentry) d (.file (d.held (d.landing p) ++ bytes))
    (d.landing p)
  rw [if_pos rfl] at hput
  exact read_of_at? ((keeps_put_file hentry _).locateFor hl) hput

end StubTree.Disk
