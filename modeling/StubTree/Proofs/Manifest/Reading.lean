import Mathlib.Data.List.Forall2
import Mathlib.Data.List.Nodup
import StubTree.Manifest.Load
import StubTree.Proofs.Outcome

/-! # Manifests that were read

A manifest that was read knows the path it was read from, and declares no full name twice.
-/

namespace StubTree

namespace Schema

variable {α : Type} [Readable α]

/-- The types that are read have full names that are new, each once. -/
theorem fullNames_of_typesFrom {path : Path} {seen : List String} {index : Nat} {vs : List α}
    {types : List TypeDecl} (h : typesFrom path seen index vs = .ok types) :
    (types.map TypeDecl.fullName).Nodup ∧ ∀ t ∈ types, t.fullName ∉ seen := by
  induction vs generalizing seen index types with
  | nil =>
      cases h
      exact ⟨List.nodup_nil, fun _ ht => by cases ht⟩
  | cons v rest ih =>
      rw [typesFrom] at h
      obtain ⟨t, -, h⟩ := exists_of_bind_eq_ok h
      split at h
      · cases h
      next hseen =>
        obtain ⟨later, hlater, h⟩ := exists_of_bind_eq_ok h
        cases h
        obtain ⟨hnodup, hnew⟩ := ih hlater
        refine ⟨List.nodup_cons.mpr ⟨?_, hnodup⟩, ?_⟩
        · intro hmem
          obtain ⟨u, hu, heq⟩ := List.mem_map.mp hmem
          exact hnew u hu (heq ▸ List.mem_cons_self)
        · intro u hu
          rcases List.mem_cons.mp hu with rfl | hu
          · exact fun hmem => hseen (List.contains_iff_mem.mpr hmem)
          · exact fun hmem => hnew u hu (List.mem_cons_of_mem _ hmem)

/-- The types are read one by one, each from its value. -/
theorem forall₂_of_typesFrom {path : Path} {seen : List String} {index : Nat} {vs : List α}
    {types : List TypeDecl} (h : typesFrom path seen index vs = .ok types) :
    List.Forall₂ (fun v d => ∃ i, typeOf path i v = .ok d) vs types := by
  induction vs generalizing seen index types with
  | nil =>
      cases h
      exact .nil
  | cons v rest ih =>
      rw [typesFrom] at h
      obtain ⟨t, ht, h⟩ := exists_of_bind_eq_ok h
      split at h
      · cases h
      next =>
        obtain ⟨later, hlater, h⟩ := exists_of_bind_eq_ok h
        cases h
        exact .cons ⟨index, ht⟩ (ih hlater)

end Schema

namespace Manifest

/-- The types of a manifest that was read are read from the items of a list. -/
theorem exists_typesFrom_of_ofValue {α : Type} [Readable α] {path : Path} {v : α} {m : Manifest}
    (h : ofValue path v = .ok m) :
    m.path = path ∧ ∃ entries, Schema.entriesOf (.file path) v = .ok entries ∧
      ∃ items, Schema.itemsOf (.file path) "types" entries = .ok items ∧
        Schema.typesFrom path [] 0 items = .ok m.types := by
  obtain ⟨entries, hentries, h⟩ := exists_of_bind_eq_ok h
  obtain ⟨name, -, h⟩ := exists_of_bind_eq_ok h
  -- The version may be absent; whatever it is, the same steps follow.
  dsimp only at h
  split at h
  all_goals
    obtain ⟨version, -, h⟩ := exists_of_bind_eq_ok h
    obtain ⟨items, -, h⟩ := exists_of_bind_eq_ok h
    obtain ⟨references, -, h⟩ := exists_of_bind_eq_ok h
    obtain ⟨declared, hdeclared, h⟩ := exists_of_bind_eq_ok h
    obtain ⟨types, htypes, h⟩ := exists_of_bind_eq_ok h
    cases h
    exact ⟨rfl, entries, hentries, declared, hdeclared, htypes⟩

theorem ofValue_eq_ok {α : Type} [Readable α] {path : Path} {v : α} {m : Manifest}
    (h : ofValue path v = .ok m) : m.path = path ∧ (m.types.map TypeDecl.fullName).Nodup := by
  obtain ⟨hpath, entries, -, items, -, htypes⟩ := exists_typesFrom_of_ofValue h
  exact ⟨hpath, (Schema.fullNames_of_typesFrom htypes).1⟩

theorem exists_ofValue_of_load {disk : Disk} {path : Path} {m : Manifest}
    (h : load disk path = .ok m) : ∃ v : SharedValue, ofValue path v = .ok m := by
  obtain ⟨bytes, -, h⟩ := exists_of_bind_eq_ok h
  obtain ⟨_, -, h⟩ := exists_of_bind_eq_ok h
  obtain ⟨v, -, h⟩ := exists_of_bind_eq_ok h
  exact ⟨v, h⟩

theorem load_eq_ok {disk : Disk} {path : Path} {m : Manifest} (h : load disk path = .ok m) :
    m.path = path ∧ (m.types.map TypeDecl.fullName).Nodup := by
  obtain ⟨v, hv⟩ := exists_ofValue_of_load h
  exact ofValue_eq_ok hv

end Manifest

end StubTree
