import StubTree.Proofs.Library.References
import StubTree.Stub.Rendering

/-! # The types that are met in a stub

A stub shows the references of a declaration in another order than the declaration has them, but
it shows the same ones. So the types that are met while it is rendered are those that its types
refer to.
-/

namespace StubTree.Stub

variable {lib : Library} {unit : String} {t u : TypeId} {d : TypeDecl} {refs : List TypeRef}
  {types : List TypeId} {space : Namespace}

theorem mem_methodRefs {m : Method} {ref : TypeRef} : ref ∈ methodRefs m ↔ ref ∈ m.refs := by
  simp [methodRefs, Method.refs, or_comm]

theorem mem_shownRefs {ref : TypeRef} : ref ∈ shownRefs d ↔ ref ∈ d.refs := by
  -- The stub of a method shows its parameters before what it returns.
  have hmethods : ∀ methods : List Method,
      ref ∈ methods.flatMap methodRefs ↔ ref ∈ methods.flatMap Method.refs := by
    intro methods
    simp only [List.mem_flatMap, mem_methodRefs]
  simp only [shownRefs, TypeDecl.refs, List.flatMap_append, List.mem_append, hmethods, or_assoc]

theorem resolves_shownRefs {start : Link} :
    lib.Resolves start (shownRefs d) ↔ lib.Resolves start d.refs := by
  simp only [Library.Resolves, mem_shownRefs]

theorem means_shownRefs {start : Link} :
    lib.Means start (shownRefs d) u ↔ lib.Means start d.refs u := by
  simp only [Library.Means, mem_shownRefs]

/-! ## References -/

theorem meet_eq_none : (meet lib unit refs).2 = none ↔ lib.Resolves (.held unit) refs := by
  induction refs with
  | nil => simp [meet, Library.Resolves]
  | cons ref rest ih =>
      rw [meet]
      split
      next hmeaning => simp [Library.not_resolves_cons hmeaning]
      next hmeaning => rw [Library.resolves_cons hmeaning, ih]
      next hmeaning => rw [Library.resolves_cons hmeaning, ← ih]

theorem mem_meet (h : lib.Resolves (.held unit) refs) :
    u ∈ (meet lib unit refs).1 ↔ lib.Means (.held unit) refs u := by
  induction refs with
  | nil => simp [meet, Library.Means]
  | cons ref rest ih =>
      obtain ⟨meaning, hmeaning⟩ := h ref List.mem_cons_self
      rw [Library.resolves_cons hmeaning] at h
      rw [Library.means_cons hmeaning, ← ih h, meet, hmeaning]
      cases meaning with
      | none => simp
      | some t => simp [eq_comm]

/-- What is met is meant by one of the references, also where a later one means nothing. -/
theorem means_of_mem_meet (h : u ∈ (meet lib unit refs).1) : lib.Means (.held unit) refs u := by
  induction refs with
  | nil => cases h
  | cons ref rest ih =>
      rw [meet] at h
      split at h
      next => cases h
      next hmeaning => exact (Library.means_cons hmeaning).mpr (Or.inr (ih h))
      next t hmeaning =>
        refine (Library.means_cons hmeaning).mpr ?_
        rcases List.mem_cons.mp h with rfl | hlater
        · exact Or.inl ⟨t, rfl, rfl⟩
        · exact Or.inr (ih hlater)

/-! ## Declarations -/

/-- The references that are shown of a type; none of a type that is not declared. -/
def refsOf (lib : Library) (t : TypeId) : List TypeRef := ((lib.decl? t).map shownRefs).getD []

theorem resolves_refsOf : lib.Resolves (.held t.unit) (refsOf lib t) ↔
    ∀ d, lib.decl? t = some d → ∃ us, lib.referenced ⟨.held t.unit, d⟩ = .ok us := by
  rw [refsOf]
  cases hdecl : lib.decl? t with
  | none => simp [Library.Resolves]
  | some d =>
      rw [Option.map_some, Option.getD_some, resolves_shownRefs]
      simp [Library.exists_referenced_iff]

theorem means_refsOf (h : lib.Resolves (.held t.unit) (refsOf lib t)) :
    lib.Means (.held t.unit) (refsOf lib t) u ↔
      ∃ d us, lib.decl? t = some d ∧ lib.referenced ⟨.held t.unit, d⟩ = .ok us ∧ u ∈ us := by
  have hreferenced := resolves_refsOf.mp h
  rw [refsOf]
  cases hdecl : lib.decl? t with
  | none => simp [Library.Means]
  | some d =>
      obtain ⟨us, hus⟩ := hreferenced d hdecl
      rw [Option.map_some, Option.getD_some, means_shownRefs]
      simp [hus, Library.mem_referenced hus]

theorem meetAll_cons_eq_none : (meetAll lib (t :: types)).2 = none ↔
    lib.Resolves (.held t.unit) (refsOf lib t) ∧ (meetAll lib types).2 = none := by
  rw [meetAll, ← meet_eq_none, refsOf]
  split
  next hmeet => simp [hmeet]
  next hmeet => simp [hmeet]

theorem mem_meetAll_cons (h : lib.Resolves (.held t.unit) (refsOf lib t)) :
    u ∈ (meetAll lib (t :: types)).1 ↔
      lib.Means (.held t.unit) (refsOf lib t) u ∨ u ∈ (meetAll lib types).1 := by
  have hmeet := meet_eq_none.mpr h
  rw [← mem_meet h, meetAll]
  rw [refsOf] at hmeet ⊢
  split
  next heq =>
    rw [heq] at hmeet
    cases hmeet
  next heq =>
    rw [heq]
    exact List.mem_append

/-- Rendering gets through where all that the declarations of the types refer to is found. -/
theorem meetAll_eq_none : (meetAll lib types).2 = none ↔
    ∀ t ∈ types, ∀ d, lib.decl? t = some d → ∃ us, lib.referenced ⟨.held t.unit, d⟩ = .ok us := by
  induction types with
  | nil => simp [meetAll]
  | cons t rest ih => rw [meetAll_cons_eq_none, resolves_refsOf, ih, List.forall_mem_cons]

/-- What is met is what the declarations of the types refer to. -/
theorem mem_meetAll (h : (meetAll lib types).2 = none) : u ∈ (meetAll lib types).1 ↔
    ∃ t ∈ types, ∃ d us,
      lib.decl? t = some d ∧ lib.referenced ⟨.held t.unit, d⟩ = .ok us ∧ u ∈ us := by
  induction types with
  | nil => simp [meetAll]
  | cons t rest ih =>
      obtain ⟨hfirst, hrest⟩ := meetAll_cons_eq_none.mp h
      rw [mem_meetAll_cons hfirst, means_refsOf hfirst, ih hrest, List.exists_mem_cons_iff]

/-- A type that refers to another one is declared by an entry. -/
theorem mem_keys_of_means (h : lib.Means (.held t.unit) (refsOf lib t) u) :
    t.unit ∈ Keyed.keys lib := by
  obtain ⟨ref, href, -⟩ := h
  rw [refsOf] at href
  cases hdecl : lib.decl? t with
  | none => simp [hdecl] at href
  | some d =>
      obtain ⟨m, hm, -⟩ := Option.bind_eq_some_iff.mp hdecl
      obtain ⟨links, hget⟩ := Library.exists_get?_of_manifest? hm
      exact Keyed.mem_keys_of_get? hget

/-- What is met is meant by a reference of one of the types, also where rendering breaks off. -/
theorem exists_means_of_mem_meetAll (h : u ∈ (meetAll lib types).1) :
    ∃ t ∈ types, lib.Means (.held t.unit) (refsOf lib t) u := by
  induction types with
  | nil => cases h
  | cons t rest ih =>
      have hfirst : u ∈ (meet lib t.unit (refsOf lib t)).1 →
          lib.Means (.held t.unit) (refsOf lib t) u := means_of_mem_meet
      rw [meetAll] at h
      rw [refsOf] at hfirst
      split at h
      next met fault hmeet =>
        rw [hmeet] at hfirst
        exact ⟨t, List.mem_cons_self, hfirst h⟩
      next met hmeet =>
        rw [hmeet] at hfirst
        rcases List.mem_append.mp h with hmet | hlater
        · exact ⟨t, List.mem_cons_self, hfirst hmet⟩
        · obtain ⟨t', ht', hmeans⟩ := ih hlater
          exact ⟨t', List.mem_cons_of_mem _ ht', hmeans⟩

theorem render_fst (lib : Library) (space : Namespace) (types : List TypeId) :
    (render lib space types).1 = (meetAll lib types).1 := by
  rw [render]
  split
  next hmeet => rw [hmeet]
  next hmeet => rw [hmeet]

theorem render_eq_ok {met : List TypeId} {text : String}
    (h : render lib space types = (met, .ok text)) : meetAll lib types = (met, none) := by
  rw [render] at h
  split at h
  next => cases h
  next hmeet =>
    cases h
    exact hmeet

/-! ## Rendered declarations -/

variable {ref : TypeRef} {meaning : Meaning}

theorem meaningIn_eq_some : meaningIn lib unit ref = some u ↔
    ∃ t, lib.resolveRef (.held unit) ref = .ok (some t) ∧ t.id = u := by
  rw [meaningIn]
  split
  next t hmeaning => simp [hmeaning]
  next hnone =>
    constructor
    · intro h
      cases h
    · rintro ⟨t, hmeaning, -⟩
      exact absurd hmeaning (hnone t)

theorem mem_declarations : (meaning, d) ∈ declarations lib types ↔
    ∃ t ∈ types, lib.decl? t = some d ∧ meaning = meaningIn lib t.unit := by
  simp only [declarations, List.mem_filterMap, Option.map_eq_some_iff, Prod.mk.injEq]
  constructor
  · rintro ⟨t, ht, d, hdecl, rfl, rfl⟩
    exact ⟨t, ht, hdecl, rfl⟩
  · rintro ⟨t, ht, hdecl, rfl⟩
    exact ⟨t, ht, d, hdecl, rfl, rfl⟩

/-- What a shown reference means is among the types that the declaration refers to. -/
theorem mem_referenced_of_shown {us : List TypeId} (hus : lib.referenced ⟨.held t.unit, d⟩ = .ok us)
    (hshown : ref ∈ shownRefs d) (hmeaning : meaningIn lib t.unit ref = some u) : u ∈ us :=
  (Library.mem_referenced hus).mpr (means_shownRefs.mp ⟨ref, hshown, meaningIn_eq_some.mp hmeaning⟩)

theorem text_of_render {space : Namespace} {met : List TypeId} {shown : String}
    (h : render lib space types = (met, .ok shown)) :
    shown = text space (declarations lib types) := by
  rw [render] at h
  split at h
  next => cases h
  next =>
    cases h
    rfl

end StubTree.Stub
