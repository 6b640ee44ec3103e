import StubTree.Proofs.Stub.Imports

/-! # The names at the top of a stub

A stub imports types under their own names and renames none of them, and it declares its types
under their own names, too. So a name can come from two places: from two modules that have a type
of that name, or from a module and from the stub itself. Where none does, every reference shows a
name that comes from the place of the type it means.
-/

namespace StubTree.Stub

/-- Where a name at the top of a stub comes from: the class of a type, or a module. -/
inductive Origin where
  | declared (t : TypeId)
  | imported (source : String)
  deriving DecidableEq, Repr

variable {lib : Library} {space : Namespace} {types : List TypeId} {name source : String}
  {o : Origin} {t u : TypeId}

/-- The class statements and the import lines of a stub give a name. -/
inductive Gives (lib : Library) (space : Namespace) (types : List TypeId) (name : String) :
    Origin → Prop
  | declared {t : TypeId} {d : TypeDecl} (ht : t ∈ types) (hd : lib.Declares t d)
      (hname : identifier t.name = name) : Gives lib space types name (.declared t)
  | imported {source : String} {names : List String}
      (hline : (source, names) ∈ importLines space (declarations lib types))
      (hname : name ∈ names) : Gives lib space types name (.imported source)

/-- No name is imported from two modules, and none that is imported is declared. -/
structure Unambiguous (lib : Library) (space : Namespace) (types : List TypeId) : Prop where
  sources : ∀ name source source', Gives lib space types name (.imported source) →
    Gives lib space types name (.imported source') → source = source'
  apart : ∀ name source t, Gives lib space types name (.imported source) →
    ¬ Gives lib space types name (.declared t)

/-- No two types are declared under one name. -/
def DeclaresOnce (lib : Library) (space : Namespace) (types : List TypeId) : Prop :=
  ∀ name t u, Gives lib space types name (.declared t) → Gives lib space types name (.declared u) →
    t = u

/-- The declaration of one of the types refers to the type. -/
def Shows (lib : Library) (types : List TypeId) (u : TypeId) : Prop :=
  ∃ t ∈ types, ∃ d, lib.Declares t d ∧ lib.Means (.held t.unit) d.refs u

/-- The types of other namespaces that are shown, the marks in use and the types of the stub have
names that do not meet, unless they are imported from one module. -/
structure Apart (lib : Library) (space : Namespace) (types : List TypeId) : Prop where
  shown : ∀ u v, Shows lib types u → u.space ≠ space → Shows lib types v → v.space ≠ space →
    identifier u.name = identifier v.name → u.space.moduleName = v.space.moduleName
  marks : ∀ mark, Marked lib types mark → ∀ u, Shows lib types u → u.space ≠ space →
    identifier u.name = mark → u.space.moduleName = "typing"
  declared : ∀ t ∈ types, (∃ d, lib.Declares t d) → ¬ Marked lib types (identifier t.name) ∧
    ∀ u, Shows lib types u → u.space ≠ space → identifier u.name ≠ identifier t.name

/-! ## Where names come from -/

theorem needs_iff {i : Import} : Needs lib space types i ↔
    (∃ u, Shows lib types u ∧ u.space ≠ space ∧ i = ⟨u.space.moduleName, identifier u.name⟩) ∨
      Marked lib types i.name ∧ i.source = "typing" := by
  constructor
  · intro h
    cases h with
    | @reference t d ref s ht hd href hs hspace =>
        exact Or.inl ⟨s.id, ⟨t, ht, d, hd, ref, href, s, hs, rfl⟩, hspace, rfl⟩
    | mark h => exact Or.inr ⟨h, rfl⟩
  · rintro (⟨_, ⟨t, ht, d, hd, ref, href, s, hs, rfl⟩, hspace, rfl⟩ | ⟨hmark, hsource⟩)
    · exact .reference ht hd href hs hspace
    · cases i
      cases hsource
      exact .mark hmark

theorem gives_declared_iff : Gives lib space types name (.declared t) ↔
    t ∈ types ∧ (∃ d, lib.Declares t d) ∧ identifier t.name = name := by
  constructor
  · rintro ⟨ht, hd, hname⟩
    exact ⟨ht, ⟨_, hd⟩, hname⟩
  · rintro ⟨ht, ⟨d, hd⟩, hname⟩
    exact .declared ht hd hname

/-- A name is imported from the modules that the declarations want it from. -/
theorem gives_imported_iff_mem : Gives lib space types name (.imported source) ↔
    ⟨source, name⟩ ∈ wantedImports space (declarations lib types) := by
  have hlines := (importLines_exact space (declarations lib types)).mem_iff ⟨source, name⟩
  constructor
  · intro hgives
    cases hgives with
    | imported hline hname => exact hlines.mp ⟨_, hline, hname⟩
  · intro hwanted
    obtain ⟨names, hline, hname⟩ := hlines.mpr hwanted
    exact .imported hline hname

section

variable {allowed : Resolver → Prop} {l : Loader}

/-- What is imported is a type of another namespace that is shown, or a mark. -/
theorem gives_imported_iff (h : l.Reached allowed) :
    Gives l.library space types name (.imported source) ↔
      (∃ u, Shows l.library types u ∧ u.space ≠ space ∧ identifier u.name = name ∧
        u.space.moduleName = source) ∨ Marked l.library types name ∧ source = "typing" := by
  rw [gives_imported_iff_mem,
    mem_wantedImports_iff_needs h.sound (fun _ _ => h.wellNamed), needs_iff]
  refine or_congr_left ⟨?_, ?_⟩
  · rintro ⟨u, hu, hspace, heq⟩
    obtain ⟨rfl, rfl⟩ := Import.mk.inj heq
    exact ⟨u, hu, hspace, rfl, rfl⟩
  · rintro ⟨u, hu, hspace, rfl, rfl⟩
    exact ⟨u, hu, hspace, rfl⟩

/-- A stub is unambiguous just where what it brings together has names that do not meet. -/
theorem unambiguous_iff (h : l.Reached allowed) :
    Unambiguous l.library space types ↔ Apart l.library space types := by
  constructor
  · intro hclear
    refine { shown := ?_, marks := ?_, declared := ?_ }
    · intro u v hu huspace hv hvspace hname
      exact hclear.sources (identifier v.name) _ _
        ((gives_imported_iff h).mpr (Or.inl ⟨u, hu, huspace, hname, rfl⟩))
        ((gives_imported_iff h).mpr (Or.inl ⟨v, hv, hvspace, rfl, rfl⟩))
    · intro mark hmark u hu huspace hname
      exact hclear.sources mark _ _
        ((gives_imported_iff h).mpr (Or.inl ⟨u, hu, huspace, hname, rfl⟩))
        ((gives_imported_iff h).mpr (Or.inr ⟨hmark, rfl⟩))
    · intro t ht hd
      have hgives : Gives l.library space types (identifier t.name) (.declared t) :=
        gives_declared_iff.mpr ⟨ht, hd, rfl⟩
      constructor
      · intro hmark
        exact hclear.apart _ _ t ((gives_imported_iff h).mpr (Or.inr ⟨hmark, rfl⟩)) hgives
      · intro u hu huspace hname
        exact hclear.apart _ _ t
          ((gives_imported_iff h).mpr (Or.inl ⟨u, hu, huspace, hname, rfl⟩)) hgives
  · intro hapart
    constructor
    · intro name source source' hsource hsource'
      rw [gives_imported_iff h] at hsource hsource'
      rcases hsource with ⟨u, hu, huspace, huname, rfl⟩ | ⟨hmark, rfl⟩ <;>
        rcases hsource' with ⟨v, hv, hvspace, hvname, rfl⟩ | ⟨hmark', rfl⟩
      · exact hapart.shown u v hu huspace hv hvspace (huname.trans hvname.symm)
      · exact hapart.marks name hmark' u hu huspace huname
      · exact (hapart.marks name hmark v hv hvspace hvname).symm
      · rfl
    · intro name source t hsource hgives
      obtain ⟨ht, hd, rfl⟩ := gives_declared_iff.mp hgives
      obtain ⟨hmarks, hshown⟩ := hapart.declared t ht hd
      rcases (gives_imported_iff h).mp hsource with ⟨u, hu, huspace, huname, -⟩ | ⟨hmark, -⟩
      · exact hshown u hu huspace huname
      · exact hmarks hmark

/-- A reference to a type of another namespace shows a name that comes from the module of that
namespace and from nowhere else. -/
theorem Unambiguous.gives_iff_imported (h : l.Reached allowed)
    (hclear : Unambiguous l.library space types) (hu : Shows l.library types u)
    (hspace : u.space ≠ space) :
    Gives l.library space types (identifier u.name) o ↔ o = .imported u.space.moduleName := by
  have hgives : Gives l.library space types (identifier u.name) (.imported u.space.moduleName) :=
    (gives_imported_iff h).mpr (Or.inl ⟨u, hu, hspace, rfl, rfl⟩)
  constructor
  · intro hother
    cases o with
    | declared t => exact absurd hother (hclear.apart _ _ t hgives)
    | imported source => rw [hclear.sources _ _ _ hother hgives]
  · rintro rfl
    exact hgives

/-- A reference to a type of the stub shows a name that comes from its class and from nowhere
else. -/
theorem Unambiguous.gives_iff_declared (hclear : Unambiguous lib space types)
    (honce : DeclaresOnce lib space types) (ht : t ∈ types) (hd : ∃ d, lib.Declares t d) :
    Gives lib space types (identifier t.name) o ↔ o = .declared t := by
  have hgives : Gives lib space types (identifier t.name) (.declared t) :=
    gives_declared_iff.mpr ⟨ht, hd, rfl⟩
  constructor
  · intro hother
    cases o with
    | declared u => rw [honce _ _ _ hother hgives]
    | imported source => exact absurd hgives (hclear.apart _ source t hother)
  · rintro rfl
    exact hgives

end

/-! ## Checking a stub -/

/-- Whether names that are imported or declared come from one place each, by comparing any two. -/
def isClear (wanted : List Import) (types : List TypeId) : Bool :=
  (wanted.all fun i => wanted.all fun j => i.name != j.name || i.source == j.source) &&
    (wanted.all fun i => types.all fun t => identifier t.name != i.name) &&
    types.all fun t => types.all fun u => identifier t.name != identifier u.name || t == u

theorem clear_of_isClear
    (h : isClear (wantedImports space (declarations lib types)) types = true) :
    Unambiguous lib space types ∧ DeclaresOnce lib space types := by
  simp only [isClear, Bool.and_eq_true, List.all_eq_true, Bool.or_eq_true, bne_iff_ne, beq_iff_eq]
    at h
  obtain ⟨⟨hsources, hapart⟩, honce⟩ := h
  refine ⟨⟨?_, ?_⟩, ?_⟩
  · intro name source source' hsource hsource'
    rw [gives_imported_iff_mem] at hsource hsource'
    exact (hsources _ hsource _ hsource').resolve_left (not_not.mpr rfl)
  · intro name source t hsource hgives
    obtain ⟨ht, -, hname⟩ := gives_declared_iff.mp hgives
    exact hapart _ (gives_imported_iff_mem.mp hsource) t ht hname
  · intro name t u htname huname
    obtain ⟨ht, -, rfl⟩ := gives_declared_iff.mp htname
    obtain ⟨hu, -, hname⟩ := gives_declared_iff.mp huname
    exact (honce t ht u hu).resolve_left (not_not.mpr hname.symm)

end StubTree.Stub
