import StubTree.Proofs.Session.ImportClosure
import StubTree.Proofs.Stub.Names

/-! # Names in the stubs of a build

Whatever a build writes, a name in a stub comes from several places only where types that the stub
brings together, or a type and a mark, are called the same. Where no last stub has such a name, and
none declares two types under one, every reference leads to the class of the type it means, and to
nothing else; it takes one import at most.
-/

namespace StubTree

open Stub (identifier)

/-- The types that a name in the last stub of a namespace leads to: those that are declared under it
there, or in the last stub of a module that it is imported from. -/
inductive Denotes (lib : Library) (events : List Event) (space : Namespace) (name : String) :
    TypeId → Prop
  | here {e : Emission} {t : TypeId} (hlast : lastEmission? space events = some e)
      (hgives : Stub.Gives lib space e.types name (.declared t)) : Denotes lib events space name t
  | there {e e' : Emission} {t : TypeId} {other : Namespace}
      (hlast : lastEmission? space events = some e)
      (himport : Stub.Gives lib space e.types name (.imported other.moduleName))
      (hlast' : lastEmission? other events = some e')
      (hgives : Stub.Gives lib other e'.types name (.declared t)) : Denotes lib events space name t

/-- Every name in every last stub comes from one place, and from one class if it comes from
classes. -/
def Clear (lib : Library) (events : List Event) : Prop :=
  ∀ space e, lastEmission? space events = some e →
    Stub.Unambiguous lib space e.types ∧ Stub.DeclaresOnce lib space e.types

/-- What the names in the stubs of a build come from, in every stub that is written, and what they
lead to in the last ones. -/
structure Built.Naming (b : Built) : Prop where
  text : ∀ e, .emitted e ∈ b.events →
    e.text = Stub.text e.space (Stub.declarations b.session.loader.library e.types)
  sources : ∀ e, .emitted e ∈ b.events → ∀ name source,
    Stub.Gives b.session.loader.library e.space e.types name (.imported source) ↔
      (∃ u, Stub.Shows b.session.loader.library e.types u ∧ u.space ≠ e.space ∧
        identifier u.name = name ∧ u.space.moduleName = source) ∨
      Stub.Marked b.session.loader.library e.types name ∧ source = "typing"
  unambiguous_iff : ∀ e, .emitted e ∈ b.events →
    (Stub.Unambiguous b.session.loader.library e.space e.types ↔
      Stub.Apart b.session.loader.library e.space e.types)
  imported : ∀ e, .emitted e ∈ b.events →
    Stub.Unambiguous b.session.loader.library e.space e.types →
      ∀ u, Stub.Shows b.session.loader.library e.types u → u.space ≠ e.space → ∀ o,
        Stub.Gives b.session.loader.library e.space e.types (identifier u.name) o ↔
          o = .imported u.space.moduleName
  declared : ∀ e, .emitted e ∈ b.events →
    Stub.Unambiguous b.session.loader.library e.space e.types →
      Stub.DeclaresOnce b.session.loader.library e.space e.types →
        ∀ t ∈ e.types, (∃ d, b.session.loader.library.Declares t d) → ∀ o,
          Stub.Gives b.session.loader.library e.space e.types (identifier t.name) o ↔
            o = .declared t
  denoted : ∀ g, b.result = .ok g → b.session.options.onlyTargetTypes = false →
    ∀ space e, lastEmission? space b.events = some e →
      ∀ u, Stub.Shows b.session.loader.library e.types u →
        Denotes b.session.loader.library b.events space (identifier u.name) u ∧
          (Clear b.session.loader.library b.events → ∀ v,
            Denotes b.session.loader.library b.events space (identifier u.name) v → v = u)

namespace Plan

variable {p : Plan} {s s' : Stage} {seed : TypeId → Prop} {space : Namespace} {e : Emission}
  {u v : TypeId}

/-- Every stub that was written was rendered. -/
def Rendered (p : Plan) (s : Stage) : Prop :=
  ∀ e, .emitted e ∈ s.events → ∃ met, Stub.render p.library e.space e.types = (met, .ok e.text)

theorem Round.rendered (h : p.Round s s') (hrendered : p.Rendered s) : p.Rendered s' := by
  intro last hlast
  cases h with
  | skipped hpop =>
      rcases List.mem_append.mp hlast with hold | hnew
      · exact hrendered last hold
      · cases List.mem_singleton.mp hnew
  | emitted _ _ _ _ _ _ _ hrender =>
      rcases List.mem_append.mp hlast with hold | hnew
      · exact hrendered last hold
      · cases List.mem_singleton.mp hnew
        exact ⟨_, hrender⟩

theorem Failed.rendered (h : p.Failed s s') (hrendered : p.Rendered s) : p.Rendered s' := by
  rw [Rendered, h.events]
  exact hrendered

theorem Spared.free_of_last (h : Spared s) (hlast : lastEmission? space s.events = some e) :
    space.isReserved = false := by
  obtain ⟨he, rfl⟩ := mem_events_of_lastEmission? hlast
  exact h e he

namespace Closing

/-- When nothing is queued, what a last stub shows is registered. -/
theorem contains_of_shows (h : p.Closing seed s) (hlibrary : p.library.Sound)
    (hall : p.session.options.onlyTargetTypes = false) (hqueue : s.registry.queue = [])
    (hlast : lastEmission? space s.events = some e) (hu : Stub.Shows p.library e.types u) :
    s.registry.contains u := by
  obtain ⟨t, ht, d, hd, ref, href, hmeaning⟩ := hu
  exact h.contains_of_names hlibrary hqueue ((h.mem_types_iff hall hqueue hlast).mp ht).1
    (hlibrary.decl?_eq_some.mpr hd)
    (.reference (Stub.mem_shownRefs.mpr href) (Stub.meaningIn_eq_some.mpr hmeaning))

/-- When nothing is queued, a registered type is declared in the last stub of its namespace. -/
theorem exists_gives_declared (h : p.Closing seed s)
    (hall : p.session.options.onlyTargetTypes = false) (hqueue : s.registry.queue = [])
    (hu : s.registry.contains u) : ∃ e, lastEmission? u.space s.events = some e ∧
      Stub.Gives p.library u.space e.types (identifier u.name) (.declared u) := by
  obtain ⟨e, hlast⟩ := (h.mem_namespaces_iff hqueue).mp (h.sound.mem_namespaces_of_contains hu)
  exact ⟨e, hlast, Stub.gives_declared_iff.mpr
    ⟨(h.mem_types_iff hall hqueue hlast).mpr ⟨hu, rfl⟩, h.declared u hu, rfl⟩⟩

/-- When nothing is queued, what a last stub shows is denoted there by its name. -/
theorem denotes (h : p.Closing seed s) (hreached : p.session.loader.Reached (· = .searchPaths))
    (hall : p.session.options.onlyTargetTypes = false) (hqueue : s.registry.queue = [])
    (hlast : lastEmission? space s.events = some e) (hu : Stub.Shows p.library e.types u) :
    Denotes p.library s.events space (identifier u.name) u := by
  have hcontains := h.contains_of_shows hreached.sound hall hqueue hlast hu
  obtain ⟨e', hlast', hgives⟩ := h.exists_gives_declared hall hqueue hcontains
  by_cases hspace : u.space = space
  · subst hspace
    exact .here hlast' hgives
  · refine .there hlast ?_ hlast' hgives
    exact (Stub.gives_imported_iff hreached).mpr (Or.inl ⟨u, hu, hspace, rfl, rfl⟩)

/-- Where every name in every last stub comes from one place, that name denotes nothing else. -/
theorem eq_of_denotes (h : p.Closing seed s)
    (hreached : p.session.loader.Reached (· = .searchPaths))
    (hall : p.session.options.onlyTargetTypes = false) (hqueue : s.registry.queue = [])
    (hspared : Spared s) (hclear : Clear p.library s.events)
    (hlast : lastEmission? space s.events = some e) (hu : Stub.Shows p.library e.types u)
    (hv : Denotes p.library s.events space (identifier u.name) v) : v = u := by
  have hcontains := h.contains_of_shows hreached.sound hall hqueue hlast hu
  obtain ⟨e', hlast', hgives'⟩ := h.exists_gives_declared hall hqueue hcontains
  obtain ⟨hunambiguous, -⟩ := hclear space e hlast
  obtain ⟨-, honce⟩ := hclear u.space e' hlast'
  have hsame : ∀ {other : Namespace} {e₁ e₂ : Emission}, lastEmission? other s.events = some e₁ →
      lastEmission? other s.events = some e₂ → e₂ = e₁ :=
    fun h₁ h₂ => Option.some.inj (h₂.symm.trans h₁)
  by_cases hspace : u.space = space
  · -- The class stands in the stub itself, and so nothing of its name is imported.
    subst hspace
    obtain rfl := hsame hlast' hlast
    cases hv with
    | here hlast₁ hgives =>
        obtain rfl := hsame hlast hlast₁
        exact honce _ _ _ hgives hgives'
    | there hlast₁ himport _ _ =>
        obtain rfl := hsame hlast hlast₁
        exact absurd hgives' (hunambiguous.apart _ _ _ himport)
  · -- The name is imported, and from the module of the class alone.
    have himported : Stub.Gives p.library space e.types (identifier u.name)
        (.imported u.space.moduleName) :=
      (Stub.gives_imported_iff hreached).mpr (Or.inl ⟨u, hu, hspace, rfl, rfl⟩)
    cases hv with
    | here hlast₁ hgives =>
        obtain rfl := hsame hlast hlast₁
        exact absurd hgives (hunambiguous.apart _ _ _ himported)
    | there hlast₁ himport hlast₂ hgives =>
        obtain rfl := hsame hlast hlast₁
        have hmodule := hunambiguous.sources _ _ _ himport himported
        obtain rfl := Namespace.moduleName_inj (hspared.free_of_last hlast')
          (hspared.free_of_last hlast₂) hmodule
        obtain rfl := hsame hlast' hlast₂
        exact honce _ _ _ hgives hgives'

end Closing

end Plan

namespace Session

variable {s : Session} {disk : Disk} {destination : Path} {targets searchPaths : List Path}
  {choice : Option Document} {e : Emission}

theorem rendered_generate (s : Session) (disk : Disk) (destination : Path)
    (he : .emitted e ∈ (s.generate disk destination).events) :
    ∃ met, Stub.render s.loader.library e.space e.types = (met, .ok e.text) := by
  rw [generate] at he
  split at he
  next => cases he
  next =>
    have hstart : Plan.Rendered ⟨s, destination⟩ (s.firstStage disk) := by
      intro e he
      cases he
    exact Plan.drain_preserves _ _ Plan.Round.rendered Plan.Failed.rendered hstart e he

/-- Every stub that a build writes it has rendered. -/
theorem rendered_build
    (he : .emitted e ∈ (s.build disk destination targets searchPaths choice).events) :
    ∃ met, Stub.render
      (s.build disk destination targets searchPaths choice).session.loader.library e.space
      e.types = (met, .ok e.text) := by
  obtain ⟨loaded, names, said, hloading, he⟩ := exists_loading_of_mem_events he
  rw [build_of_loading hloading]
  dsimp only
  rw [loader_generate]
  exact rendered_generate loaded disk destination he

/-- One binary with a type of one name in three namespaces, two of which a type of the third refers
to. -/
def meetingDisk : Disk :=
  ⟨[], [(["M.yaml"], .file ("\n".intercalate
    ["name: M", "types:", "- name: A.T", "- name: B.T", "- name: N.T", "- name: N.U",
      "  base: A.T", "  interfaces: [B.T]"]).toUTF8)]⟩

def meetingTarget : Path := ⟨.root, ["M.yaml"]⟩

def meetingDestination : Path := ⟨.root, ["out"]⟩

/-- The stubs that a build writes: their namespaces and types, and what they import. -/
def namesView (b : Built) : List (Namespace × List TypeId × List Stub.Import) :=
  b.events.filterMap fun event => match event with
    | .emitted e => some (e.space, e.types, Stub.wantedImports e.space
        (Stub.declarations b.session.loader.library e.types))
    | .skipped _ => none

theorem mem_namesView {b : Built} {view : Namespace × List TypeId × List Stub.Import} :
    view ∈ namesView b ↔ ∃ e, .emitted e ∈ b.events ∧ view = (e.space, e.types,
      Stub.wantedImports e.space (Stub.declarations b.session.loader.library e.types)) := by
  rw [namesView, List.mem_filterMap]
  constructor
  · rintro ⟨event, hevent, hview⟩
    cases event with
    | emitted e =>
        cases hview
        exact ⟨e, hevent, rfl⟩
    | skipped => cases hview
  · rintro ⟨e, he, rfl⟩
    exact ⟨_, he, rfl⟩

/-- Where every stub passes the check, the last ones are clear. -/
theorem clear_of_namesView {b : Built}
    (h : (namesView b).all (fun view => Stub.isClear view.2.2 view.2.1) = true) :
    Clear b.session.loader.library b.events := by
  intro space e hlast
  obtain ⟨he, rfl⟩ := mem_events_of_lastEmission? hlast
  exact Stub.clear_of_isClear (List.all_eq_true.mp h _ (mem_namesView.mpr ⟨e, he, rfl⟩))

set_option synthInstance.maxSize 1000 in
set_option maxRecDepth 100000 in
theorem meeting_evaluated :
    ((Session.new {}).buildInOrder meetingDisk meetingDestination [meetingTarget] [] none).bind
      (fun b => b.result.toOption.map fun _ =>
        (namesView b, (b.session.loader.library.decl? ⟨.named "N", "T", "M"⟩).isSome)) =
      some ([(.named "A", [⟨.named "A", "T", "M"⟩], []),
        (.named "B", [⟨.named "B", "T", "M"⟩], []),
        (.named "N", [⟨.named "N", "T", "M"⟩, ⟨.named "N", "U", "M"⟩], [⟨"A", "T"⟩, ⟨"B", "T"⟩])],
        true) := by
  decide +kernel

def meetingBuild : Built :=
  (Session.new {}).build meetingDisk meetingDestination [meetingTarget] [] none

/-- What a build of all types shows of the stubs that refer to one another. -/
def crossingView (b : Built) : Bool × Bool × Option (List TypeId) × Bool :=
  (b.session.options.onlyTargetTypes, (namesView b).all fun view => Stub.isClear view.2.2 view.2.1,
    (lastEmission? (.named "M") b.events).map (·.types),
    (b.session.loader.library.decl? ⟨.named "M", "V", "B"⟩).any fun d => d.refs.any fun ref =>
      Stub.meaningIn b.session.loader.library "B" ref == some ⟨.named "N", "class", "A"⟩)

set_option synthInstance.maxSize 1000 in
set_option maxRecDepth 100000 in
theorem crossing_view_evaluated :
    ((Session.new {}).buildInOrder crossingDisk lateDestination [crossingTarget] [] none).bind
      (fun b => b.result.toOption.map fun _ => crossingView b) =
      some (false, true, some [⟨.named "M", "V", "B"⟩], true) := by
  decide +kernel

def crossingBuild : Built :=
  (Session.new {}).build crossingDisk lateDestination [crossingTarget] [] none

end Session

end StubTree
