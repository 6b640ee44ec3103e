import StubTree.Proofs.Registry.Laws
import StubTree.Proofs.Stub.Meeting

/-! # What rendering registers

A declaration is walked through twice, once for the types it refers to and once for the stub. Both
walks go through in the same libraries and come to the same types: the stub of declared types is
rendered where all they refer to is found, and the registry then gains those types and no others.
-/

namespace StubTree

namespace Library

variable {lib : Library} {start : Link}

theorem nodup_resolveAll {found us : List TypeId} {refs : List TypeRef}
    (h : lib.resolveAll start found refs = .ok us) (hfound : found.Nodup) : us.Nodup := by
  induction refs generalizing found with
  | nil =>
      cases h
      exact hfound
  | cons ref rest ih =>
      obtain ⟨meaning, -, h⟩ := exists_of_bind_eq_ok h
      cases meaning with
      | none => exact ih h hfound
      | some t =>
          refine ih h ?_
          split
          next => exact hfound
          next hnew =>
            refine List.nodup_append.mpr ⟨hfound, List.nodup_singleton _, ?_⟩
            rintro u hu _ (_ | ⟨_, ⟨⟩⟩) rfl
            exact hnew hu

/-- No type is referred to twice. -/
theorem nodup_referenced {t : Located} {us : List TypeId} (h : lib.referenced t = .ok us) :
    us.Nodup :=
  nodup_resolveAll h List.nodup_nil

end Library

namespace Stub

variable {lib : Library} {space : Namespace} {types : List TypeId} {u : TypeId}

theorem exists_render_eq_ok :
    (∃ text, (render lib space types).2 = .ok text) ↔ (meetAll lib types).2 = none := by
  rw [render]
  split
  next hmeet => simp [hmeet]
  next hmeet => simp [hmeet]

/-- Rendering gets through where every declaration finds all it refers to. -/
theorem exists_render_iff (h : lib.Sound) :
    (∃ text, (render lib space types).2 = .ok text) ↔
      ∀ t ∈ types, ∀ d, lib.Declares t d → ∃ us, lib.referenced ⟨.held t.unit, d⟩ = .ok us := by
  simp only [exists_render_eq_ok, meetAll_eq_none, h.decl?_eq_some]

/-- A stub that is rendered has met what its types refer to. -/
theorem mem_render_fst (h : lib.Sound) {text : String}
    (hrender : (render lib space types).2 = .ok text) :
    u ∈ (render lib space types).1 ↔ ∃ t ∈ types, lib.Refers t u := by
  have hmeet := exists_render_eq_ok.mp ⟨text, hrender⟩
  simp only [render_fst, mem_meetAll hmeet, h.decl?_eq_some, Library.Refers]

/-- Rendering types of a loader that comes about, from any registry: it gets through just where all
that the types refer to is found, none of it twice, and then the registry has just the types it had
and those. -/
theorem render_registers {l : Loader} (h : l.Reached (· = .searchPaths)) {types : List TypeId}
    (htypes : ∀ t ∈ types, ∃ d, l.library.Declares t d) (r : Registry) (space : Namespace) :
    ((∃ text, (render l.library space types).2 = .ok text) ↔
      ∀ t ∈ types, ∃ d us, l.library.Declares t d ∧
        l.library.referenced ⟨.held t.unit, d⟩ = .ok us) ∧
    (∀ text, (render l.library space types).2 = .ok text → ∀ u other,
      u ∈ (r.addAll (render l.library space types).1).members other ↔
        u ∈ r.members other ∨ (∃ t ∈ types, l.library.Refers t u) ∧ u.space = other) ∧
    ∀ t d us, l.library.referenced ⟨.held t, d⟩ = .ok us → us.Nodup := by
  have hsound := h.sound
  refine ⟨?_, ?_, fun t d us => Library.nodup_referenced⟩
  · rw [exists_render_iff hsound]
    constructor
    · intro hall t ht
      obtain ⟨d, hd⟩ := htypes t ht
      obtain ⟨us, hus⟩ := hall t ht d hd
      exact ⟨d, us, hd, hus⟩
    · intro hall t ht d hd
      obtain ⟨d', us, hd', hus⟩ := hall t ht
      -- Two declarations of a type in one binary are the same one.
      obtain rfl := hsound.declares_unique hd hd'
      exact ⟨us, hus⟩
  · intro text hrender u other
    rw [Registry.mem_members_addAll, mem_render_fst hsound hrender]

/-- Two binaries whose types show references of every kind to one another. -/
def memberDisk : Disk :=
  ⟨[], [(["a"], .directory),
    (["a", "A.yaml"], .file ("name: A\nreferences: [B]\ntypes:\n" ++
      "- name: N.T\n  base: M.Base\n" ++
      "  fields:\n  - name: f\n    type: M.U[]\n" ++
      "  methods:\n  - name: m\n    returns: N.T\n" ++
      "    parameters:\n    - name: p\n      type: M.Base\n").toUTF8),
    (["a", "B.yaml"], .file "name: B\ntypes:\n- name: M.Base\n- name: M.U".toUTF8)]⟩

/-- The loader that has loaded both. -/
def memberLoader : Loader :=
  ((Loader.install { suffix := ".yaml" } .searchPaths).call memberDisk
    (.target ⟨.root, ["a", "A.yaml"]⟩)).1

/-- A type that refers to itself and to two types of another binary. -/
def memberType : TypeId := ⟨.named "N", "T", "A"⟩

set_option maxRecDepth 100000 in
/-- A registry that has the type gains the two others, each once. -/
theorem render_registers_members :
    (∃ d, memberLoader.library.Declares memberType d) ∧
    (∃ text, (render memberLoader.library memberType.space [memberType]).2 = .ok text) ∧
    memberLoader.library.Refers memberType ⟨.named "M", "U", "B"⟩ ∧
    ((({} : Registry).add memberType).addAll
      (render memberLoader.library memberType.space [memberType]).1).found.values =
        [[memberType], [⟨.named "M", "Base", "B"⟩, ⟨.named "M", "U", "B"⟩]] := by
  have hevaluated : (memberLoader.library.decl? memberType).isSome ∧
      (render memberLoader.library memberType.space [memberType]).2.toOption.isSome ∧
      (render memberLoader.library memberType.space [memberType]).1 =
        [⟨.named "M", "Base", "B"⟩, ⟨.named "M", "U", "B"⟩, ⟨.named "M", "Base", "B"⟩,
          memberType] := by
    decide +kernel
  obtain ⟨hdecl, htext, hreported⟩ := hevaluated
  have hreached : memberLoader.Reached (· = .searchPaths) := by
    rw [memberLoader]
    exact .call _ _ (.install (.new ".yaml") rfl)
  obtain ⟨d, hd⟩ := Option.isSome_iff_exists.mp hdecl
  obtain ⟨text, htext⟩ := Option.isSome_iff_exists.mp htext
  have hdeclares := hreached.sound.decl?_eq_some.mp hd
  have htypes : ∀ t ∈ [memberType], ∃ d, memberLoader.library.Declares t d := by
    rintro _ (_ | ⟨_, ⟨⟩⟩)
    exact ⟨d, hdeclares⟩
  obtain ⟨-, hregistered, -⟩ := render_registers hreached htypes {} memberType.space
  have hmember : ⟨.named "M", "U", "B"⟩ ∈ (({} : Registry).addAll
      (render memberLoader.library memberType.space [memberType]).1).members (.named "M") := by
    rw [hreported]
    decide
  have hU := (hregistered text (eq_ok_of_toOption htext) ⟨.named "M", "U", "B"⟩ (.named "M")).mp
    hmember
  rcases hU with hU | ⟨⟨t, ht, hrefers⟩, -⟩
  · cases hU
  · obtain rfl := List.mem_singleton.mp ht
    refine ⟨⟨d, hdeclares⟩, ⟨text, eq_ok_of_toOption htext⟩, hrefers, ?_⟩
    rw [hreported]
    decide

end Stub

end StubTree
