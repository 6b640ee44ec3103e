import Mathlib.Data.List.Basic
import StubTree.Document.Graph

/-! # Values that can be shown

Only a whole number of too many digits keeps a value from being shown: a graph without one has a
literal for every place, however its values share their parts or hold themselves.
-/

namespace StubTree

/-- Whether a whole number is written at all. -/
def Number.IsWritable (i : Int) : Prop := i.natAbs < Nat.pow 10 maxDigits

theorem Number.exists_intText? {i : Int} (h : IsWritable i) : ∃ s, intText? i = some s :=
  ⟨_, if_pos h⟩

namespace Shape

variable {α β : Type} {s : Shape α} {f : α → Option β}

/-- The parts of a collection. -/
def parts : Shape α → List α
  | list items => items
  | pair first second => [first, second]
  | mapping entries => entries.flatMap fun (k, v) => [k, v]
  | set items => items
  | _ => []

theorem exists_mapM_eq_some {γ δ : Type} {f : γ → Option δ} {items : List γ}
    (h : ∀ item ∈ items, ∃ d, f item = some d) : ∃ ds, items.mapM f = some ds := by
  induction items with
  | nil => exact ⟨[], rfl⟩
  | cons item rest ih =>
      obtain ⟨hfirst, hrest⟩ := List.forall_mem_cons.mp h
      obtain ⟨d, hd⟩ := hfirst
      obtain ⟨ds, hds⟩ := ih hrest
      refine ⟨d :: ds, ?_⟩
      rw [List.mapM_cons, hd, hds]
      rfl

theorem mem_parts_of_mem_mapping {entries : List (α × α)} {k v : α} (h : (k, v) ∈ entries) :
    k ∈ (mapping entries).parts ∧ v ∈ (mapping entries).parts :=
  ⟨List.mem_flatMap.mpr ⟨(k, v), h, List.mem_cons_self⟩,
    List.mem_flatMap.mpr ⟨(k, v), h, List.mem_cons_of_mem _ List.mem_cons_self⟩⟩

/-- A value whose parts have images has one. -/
theorem exists_mapM? (h : ∀ part ∈ s.parts, ∃ b, f part = some b) : ∃ t, s.mapM? f = some t := by
  cases s with
  | list items =>
      obtain ⟨images, himages⟩ := exists_mapM_eq_some h
      exact ⟨.list images, congrArg (Shape.list <$> ·) himages⟩
  | set items =>
      obtain ⟨images, himages⟩ := exists_mapM_eq_some h
      exact ⟨.set images, congrArg (Shape.set <$> ·) himages⟩
  | pair first second =>
      obtain ⟨a, ha⟩ := h first List.mem_cons_self
      obtain ⟨b, hb⟩ := h second (List.mem_cons_of_mem _ List.mem_cons_self)
      refine ⟨.pair a b, ?_⟩
      rw [mapM?, ha, hb]
      rfl
  | mapping entries =>
      have hentries : ∀ entry ∈ entries, ∃ image,
          (do return (← f entry.1, ← f entry.2) : Option (β × β)) = some image := by
        intro entry hentry
        obtain ⟨hkey, hvalue⟩ := mem_parts_of_mem_mapping hentry
        obtain ⟨a, ha⟩ := h _ hkey
        obtain ⟨b, hb⟩ := h _ hvalue
        refine ⟨(a, b), ?_⟩
        rw [ha, hb]
        rfl
      obtain ⟨images, himages⟩ := exists_mapM_eq_some hentries
      exact ⟨.mapping images, congrArg (Shape.mapping <$> ·) himages⟩
  | null | bool | int | float | text | date | moment | bytes => exact ⟨_, rfl⟩

/-- Of the values whose parts are shown only a whole number may have no literal. -/
theorem exists_literal?_of_mapM? {f : α → Option String} {t : Shape String}
    (h : s.mapM? f = some t) (hint : ∀ i, s = .int i → Number.IsWritable i) :
    ∃ literal, t.literal? = some literal := by
  cases s with
  | int i =>
      cases h
      exact Number.exists_intText? (hint i rfl)
  | list items | mapping items =>
      obtain ⟨images, -, rfl⟩ := Option.map_eq_some_iff.mp h
      exact ⟨_, rfl⟩
  | set items =>
      obtain ⟨images, -, rfl⟩ := Option.map_eq_some_iff.mp h
      cases images <;> exact ⟨_, rfl⟩
  | pair first second =>
      obtain ⟨a, -, h⟩ := Option.bind_eq_some_iff.mp h
      obtain ⟨b, -, h⟩ := Option.bind_eq_some_iff.mp h
      cases h
      exact ⟨_, rfl⟩
  | null | bool | float | text | date | moment | bytes =>
      cases h
      exact ⟨_, rfl⟩

end Shape

namespace Graph

variable {g : Graph} {around : List Ref} {r : Ref}

/-- No whole number in the graph has too many digits. -/
def Writable (g : Graph) : Prop := ∀ r i, g.cell r = .int i → Number.IsWritable i

theorem cell_of_size_le (h : g.cells.size ≤ r) : g.cell r = .null := by
  rw [cell, Array.getD_eq_getD_getElem?, Array.getElem?_eq_none h, Option.getD_none]

/-- A way down holds every place at most once, so there are enough steps for what is left of it. -/
theorem Writable.exists_literal? (h : g.Writable) {fuel : Nat} (hnodup : around.Nodup)
    (hplaces : ∀ place ∈ around, place < g.cells.size)
    (hfuel : g.cells.size < fuel + around.length) :
    ∃ literal, g.literal? fuel around r = some literal := by
  induction fuel generalizing around r with
  | zero =>
      have hsubset : around ⊆ List.range g.cells.size :=
        fun place hplace => List.mem_range.mpr (hplaces place hplace)
      have hlength := hnodup.length_le_of_subset hsubset
      rw [List.length_range] at hlength
      omega
  | succ fuel ih =>
      rw [Graph.literal?]
      split
      next => exact ⟨_, rfl⟩
      next hnew =>
        have hparts : ∀ part ∈ (g.cell r).parts, ∃ literal,
            g.literal? fuel (r :: around) part = some literal := by
          intro part hpart
          by_cases hr : r < g.cells.size
          · have hfresh : r ∉ around := fun hmem => hnew (List.contains_iff_mem.mpr hmem)
            refine ih (List.nodup_cons.mpr ⟨hfresh, hnodup⟩)
              (List.forall_mem_cons.mpr ⟨hr, hplaces⟩) ?_
            rw [List.length_cons]
            omega
          · rw [cell_of_size_le (Nat.le_of_not_lt hr)] at hpart
            cases hpart
        obtain ⟨shown, hshown⟩ := Shape.exists_mapM? hparts
        rw [hshown]
        exact Shape.exists_literal?_of_mapM? hshown (h r)

end Graph

/-- Values that can be shown, and all their parts with them, unless something stands against it. -/
structure Showable {α : Type} [Readable α] (against : Prop) (fine : α → Prop) : Prop where
  literal : ∀ {v}, fine v → (∃ s, Readable.literal? v = some s) ∨ against
  parts : ∀ {v}, fine v → ∀ part ∈ (Readable.shape v).parts, fine part

namespace Showable

variable {α : Type} [Readable α] {against : Prop} {fine : α → Prop} {v : α}

theorem shown (h : Showable against fine) (hv : fine v) :
    (∃ s, Readable.shown? v = some s) ∨ against := by
  rw [Readable.shown?]
  split
  · exact Or.inl ⟨_, rfl⟩
  · exact Or.inl ⟨_, rfl⟩
  · exact Or.inl ⟨_, rfl⟩
  · exact h.literal hv

theorem of_mapping (h : Showable against fine) (hv : fine v) {entries : List (α × α)}
    (hshape : Readable.shape v = .mapping entries) :
    ∀ entry ∈ entries, fine entry.1 ∧ fine entry.2 := by
  intro entry hentry
  have hparts := h.parts hv
  rw [hshape] at hparts
  obtain ⟨hkey, hvalue⟩ := Shape.mem_parts_of_mem_mapping hentry
  exact ⟨hparts _ hkey, hparts _ hvalue⟩

end Showable

/-- The values of a graph can be shown unless a number in it has too many digits. -/
theorem Graph.showable (g : Graph) :
    Showable (¬ g.Writable) fun v : SharedValue => v.graph = g where
  literal := by
    rintro v rfl
    rw [or_iff_not_imp_right, not_not]
    intro h
    exact h.exists_literal? List.nodup_nil (fun _ hplace => by cases hplace) (by simp)
  parts := by
    rintro v rfl part hpart
    have hmap : ∀ s : Shape Ref, ∀ part ∈ (s.map (SharedValue.mk v.graph)).parts,
        part.graph = v.graph := by
      intro s part hpart
      cases s with
      | list items | set items =>
          obtain ⟨place, -, rfl⟩ := List.mem_map.mp hpart
          rfl
      | pair first second =>
          rcases List.mem_cons.mp hpart with rfl | hpart
          · rfl
          · obtain rfl := List.mem_singleton.mp hpart
            rfl
      | mapping entries =>
          obtain ⟨entry, hentry, hpart⟩ := List.mem_flatMap.mp hpart
          obtain ⟨⟨key, value⟩, -, rfl⟩ := List.mem_map.mp hentry
          rcases List.mem_cons.mp hpart with rfl | hpart
          · rfl
          · obtain rfl := List.mem_singleton.mp hpart
            rfl
      | null | bool | int | float | text | date | moment | bytes => cases hpart
    exact hmap _ part hpart

end StubTree
