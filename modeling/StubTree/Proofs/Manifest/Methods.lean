import StubTree.Proofs.Manifest.Reading

/-! # The methods of types that were read

Constructors and the call of a delegate give themselves no name: reading gives all constructors
one name, and every call another. Only methods bring names of their own.
-/

namespace StubTree

/-- A declaration whose constructors, and whose call if it has one, are named as reading does. -/
structure TypeDecl.WellNamed (d : TypeDecl) : Prop where
  constructors : ∀ m ∈ d.constructors, m.name = "__init__"
  invoke : ∀ m ∈ d.invoke, m.name = "__call__"

namespace Schema

variable {α : Type} [Readable α] {place : Place} {name : String} {m : Method} {d : TypeDecl}
  {path : Path} {index : Nat} {v : α} {entries : Entries α}

theorem name_of_methodNamed (h : methodNamed place name entries = .ok m) : m.name = name := by
  rw [methodNamed] at h
  obtain ⟨items, -, h⟩ := exists_of_bind_eq_ok h
  obtain ⟨parameters, -, h⟩ := exists_of_bind_eq_ok h
  obtain ⟨returns, -, h⟩ := exists_of_bind_eq_ok h
  obtain ⟨isStatic, -, h⟩ := exists_of_bind_eq_ok h
  cases h
  rfl

theorem name_of_constructorOf (h : constructorOf place v = .ok m) : m.name = "__init__" := by
  obtain ⟨entries, -, h⟩ := exists_of_bind_eq_ok h
  exact name_of_methodNamed h

theorem name_of_invokeOf (h : invokeOf place entries = .ok m) : m.name = "__call__" := by
  rw [invokeOf] at h
  split at h
  next => exact name_of_methodNamed h
  next =>
    obtain ⟨entries, -, h⟩ := exists_of_bind_eq_ok h
    exact name_of_methodNamed h

theorem wellNamed_of_typeOf (h : typeOf path index v = .ok d) : d.WellNamed := by
  obtain ⟨entries, -, h⟩ := exists_of_bind_eq_ok h
  obtain ⟨placed, -, h⟩ := exists_of_bind_eq_ok h
  simp only [bind_eq_ok_iff] at h
  obtain ⟨kind, -, visibility, -, _, -, fields, -, _, -, properties, -, _, -, methods, -, _, -,
    constructors, hconstructors, h⟩ := h
  have hnamed : ∀ m ∈ constructors, m.name = "__init__" := by
    intro m hm
    obtain ⟨w, -, hw⟩ := exists_of_mem_mapM_eq_ok hconstructors hm
    exact name_of_constructorOf hw
  -- What follows the call of a delegate is the same for all kinds of types.
  split at h
  all_goals
    simp only [bind_eq_ok_iff] at h
    obtain ⟨invoke, hinvoke, _, -, values, -, h⟩ := h
    split at h
    next => cases h
    simp only [bind_eq_ok_iff] at h
    obtain ⟨base, -, _, -, interfaces, -, h⟩ := h
    cases h
  · refine ⟨hnamed, ?_⟩
    obtain ⟨m, hm, rfl⟩ := map_eq_ok_iff.mp hinvoke
    rintro _ ⟨⟩
    exact name_of_invokeOf hm
  · refine ⟨hnamed, ?_⟩
    cases hinvoke
    rintro _ ⟨⟩

/-- Every type of a list that is read is read from a value. -/
theorem exists_typeOf_of_mem {seen : List String} {vs : List α} {types : List TypeDecl}
    (h : typesFrom path seen index vs = .ok types) (hd : d ∈ types) :
    ∃ i v, typeOf (α := α) path i v = .ok d := by
  have hall := forall₂_of_typesFrom h
  clear h
  induction hall with
  | nil => cases hd
  | @cons v t _ _ hread _ ih =>
      rcases List.mem_cons.mp hd with rfl | hd
      · obtain ⟨i, hi⟩ := hread
        exact ⟨i, v, hi⟩
      · exact ih hd

end Schema

namespace Manifest

theorem wellNamed_of_ofValue {α : Type} [Readable α] {path : Path} {v : α} {m : Manifest}
    {d : TypeDecl} (h : ofValue path v = .ok m) (hd : d ∈ m.types) : d.WellNamed := by
  obtain ⟨-, entries, -, items, -, htypes⟩ := exists_typesFrom_of_ofValue h
  obtain ⟨index, w, hw⟩ := Schema.exists_typeOf_of_mem htypes hd
  exact Schema.wellNamed_of_typeOf hw

theorem wellNamed_of_load {disk : Disk} {path : Path} {m : Manifest} {d : TypeDecl}
    (h : load disk path = .ok m) (hd : d ∈ m.types) : d.WellNamed := by
  obtain ⟨v, hv⟩ := exists_ofValue_of_load h
  exact wellNamed_of_ofValue hv hd

end Manifest

end StubTree
