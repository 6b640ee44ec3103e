import Mathlib.Data.List.Nodup
import Mathlib.Data.String.Basic
import StubTree.Session.Basic

/-! # The choice of types

The types of a stub are those of its namespace that are wanted, each once and in their order.
-/

namespace StubTree

/-- The order of types in a stub: by name, and by binary where names are equal. -/
def TypeId.Precedes (a b : TypeId) : Prop :=
  a.name < b.name ∨ (a.name = b.name ∧ a.unit < b.unit)

theorem TypeId.Precedes.asymm {a b : TypeId} (hab : a.Precedes b) : ¬ b.Precedes a := by
  rintro (hba | ⟨hba, hunit'⟩)
  · rcases hab with hab | ⟨hab, -⟩
    · exact lt_asymm hab hba
    · exact hba.ne hab.symm
  · rcases hab with hab | ⟨-, hunit⟩
    · exact hab.ne hba.symm
    · exact lt_asymm hunit hunit'

namespace Session

variable {s : Session} {a b c t : TypeId} {ts us : List TypeId}

/-- A type that may stand in a stub: any one, or one of a target if only those are wanted. -/
def Wants (s : Session) (t : TypeId) : Prop :=
  s.options.onlyTargetTypes = true → t.unit ∈ s.loader.targets

/-- Without a choice of targets every type is wanted. -/
theorem wants_of_all (hall : s.options.onlyTargetTypes = false) (t : TypeId) : s.Wants t := by
  intro honly
  rw [hall] at honly
  cases honly

theorem wants_iff (honly : s.options.onlyTargetTypes = true) :
    s.Wants t ↔ t.unit ∈ s.loader.targets := by
  simp [Wants, honly]

theorem comesBefore_iff :
    comesBefore a b = true ↔ a.name < b.name ∨ (a.name = b.name ∧ a.unit ≤ b.unit) := by
  simp only [comesBefore, Bool.or_eq_true, Bool.and_eq_true, decide_eq_true_eq, beq_iff_eq]

theorem comesBefore_trans (a b c : TypeId) (hab : comesBefore a b = true)
    (hbc : comesBefore b c = true) : comesBefore a c = true := by
  rw [comesBefore_iff] at hab hbc ⊢
  rcases hab with hab | ⟨hab, hunit⟩
  · rcases hbc with hbc | ⟨hbc, -⟩
    · exact Or.inl (lt_trans hab hbc)
    · exact Or.inl (hbc ▸ hab)
  · rcases hbc with hbc | ⟨hbc, hunit'⟩
    · exact Or.inl (hab ▸ hbc)
    · exact Or.inr ⟨hab.trans hbc, le_trans hunit hunit'⟩

theorem comesBefore_total (a b : TypeId) : (comesBefore a b || comesBefore b a) = true := by
  rw [Bool.or_eq_true, comesBefore_iff, comesBefore_iff]
  rcases lt_trichotomy a.name b.name with hlt | heq | hgt
  · exact Or.inl (Or.inl hlt)
  · rcases le_total a.unit b.unit with hle | hle
    · exact Or.inl (Or.inr ⟨heq, hle⟩)
    · exact Or.inr (Or.inr ⟨heq.symm, hle⟩)
  · exact Or.inr (Or.inl hgt)

/-- Within a namespace no two types have the same place. -/
theorem precedes_of_comesBefore (hspace : a.space = b.space) (hne : a ≠ b)
    (h : comesBefore a b = true) : a.Precedes b := by
  rcases comesBefore_iff.mp h with hname | ⟨hname, hunit⟩
  · exact Or.inl hname
  · refine Or.inr ⟨hname, lt_of_le_of_ne hunit ?_⟩
    intro heq
    apply hne
    cases a
    cases b
    simp_all

/-- Types that stand in order are told by which of them there are. -/
theorem eq_of_pairwise_precedes (hts : ts.Pairwise TypeId.Precedes)
    (hus : us.Pairwise TypeId.Precedes) (hmem : ∀ t, t ∈ ts ↔ t ∈ us) : ts = us := by
  have hnodup : ∀ {xs : List TypeId}, xs.Pairwise TypeId.Precedes → xs.Nodup := by
    intro xs hxs
    refine hxs.imp ?_
    rintro a b hab rfl
    exact hab.asymm hab
  have hperm := (List.perm_ext_iff_of_nodup (hnodup hts) (hnodup hus)).mpr hmem
  exact hperm.eq_of_pairwise (fun a b _ _ hab hba => absurd hba hab.asymm) hts hus

theorem mem_select : t ∈ s.select ts ↔ t ∈ ts ∧ s.Wants t := by
  rw [select, List.mem_mergeSort, Wants]
  split
  next honly => simp [honly]
  next honly => simp [honly]

theorem mem_select_of_all (hall : s.options.onlyTargetTypes = false) :
    t ∈ s.select ts ↔ t ∈ ts := by
  simp [mem_select, wants_of_all hall]

theorem length_select_of_all (hall : s.options.onlyTargetTypes = false) (ts : List TypeId) :
    (s.select ts).length = ts.length := by
  rw [select, hall, List.length_mergeSort]
  rfl

theorem nodup_select (h : ts.Nodup) (s : Session) : (s.select ts).Nodup := by
  rw [select, (List.mergeSort_perm _ _).nodup_iff]
  split
  · exact h.filter _
  · exact h

/-- The types of a namespace stand in a stub in one order only. -/
theorem pairwise_select {space : Namespace} (hnodup : ts.Nodup)
    (hspace : ∀ t ∈ ts, t.space = space) (s : Session) :
    (s.select ts).Pairwise TypeId.Precedes := by
  have hsorted : (s.select ts).Pairwise fun a b => comesBefore a b = true :=
    List.pairwise_mergeSort comesBefore_trans comesBefore_total _
  have hboth := hsorted.and (nodup_select hnodup s)
  refine hboth.imp_of_mem ?_
  intro a b ha hb ⟨hle, hne⟩
  have hsame := (hspace a (mem_select.mp ha).1).trans (hspace b (mem_select.mp hb).1).symm
  exact precedes_of_comesBefore hsame hne hle

/-- It does not matter in which order the types of a namespace are gone through. -/
theorem select_eq_of_perm {space : Namespace} (hnodup : ts.Nodup)
    (hspace : ∀ t ∈ ts, t.space = space) (hperm : us.Perm ts) (s : Session) :
    s.select us = s.select ts := by
  refine eq_of_pairwise_precedes ?_ (pairwise_select hnodup hspace s) ?_
  · exact pairwise_select (hperm.nodup_iff.mpr hnodup) (fun t ht => hspace t (hperm.subset ht)) s
  · exact fun t => by simp only [mem_select, hperm.mem_iff]

/-- Where types are wanted, they are wanted among more types as well. -/
theorem select_ne_nil_of_subset (hsubset : ts ⊆ us) (h : s.select ts ≠ []) :
    s.select us ≠ [] := by
  obtain ⟨t, ht⟩ := List.exists_mem_of_ne_nil _ h
  obtain ⟨hmem, hwanted⟩ := mem_select.mp ht
  exact List.ne_nil_of_mem (mem_select.mpr ⟨hsubset hmem, hwanted⟩)

end Session

end StubTree
