import StubTree.Proofs.Session.Barrier
import StubTree.Proofs.Session.Closure
import StubTree.Proofs.Session.Places
import StubTree.Proofs.Stub.Imports

/-! # Stub trees closed under imports

What a stub imports, another stub of the tree declares, or the same one, however many rounds later.
The module names a namespace since reserved namespaces have no stub.
-/

namespace StubTree

/-- Namespaces that are not reserved differ in their modules. -/
theorem Namespace.moduleName_inj {space other : Namespace} (hspace : space.isReserved = false)
    (hother : other.isReserved = false) (h : other.moduleName = space.moduleName) :
    other = space := by
  have hreserved : (named outsideModule).isReserved = true := by decide
  cases space with
  | outside =>
      cases other with
      | outside => rfl
      | named dotted =>
          obtain rfl : dotted = outsideModule := h
          rw [hreserved] at hother
          cases hother
  | named dotted =>
      cases other with
      | outside =>
          obtain rfl : outsideModule = dotted := h
          rw [hreserved] at hspace
          cases hspace
      | named dotted' => exact congrArg named h

/-- A stub tree whose stubs are what they import: the lines of an import block name modules of the
tree and types that are listed there, apart from the marks, and a type of the stub's own namespace
that is named in it has a class statement there. A reference is shown by the identifier of the type
that it means, alone or as what a list holds, and outside the namespace of the type the identifier
is imported. -/
structure Built.ImportClosed (b : Built) (g : Generation) : Prop where
  text : ∀ space e, lastEmission? space b.events = some e →
    e.text = Stub.text space (Stub.declarations b.session.loader.library e.types)
  modules : ∀ space ∈ g.files.keys, ∀ other ∈ g.files.keys,
    other.moduleName = space.moduleName → other = space
  imports : ∀ space e, lastEmission? space b.events = some e →
    ∀ line ∈ Stub.importLines space (Stub.declarations b.session.loader.library e.types),
      ∀ name ∈ line.2, (⟨line.1, name⟩ : Stub.Import) ≠ Stub.overloadImport →
        (⟨line.1, name⟩ : Stub.Import) ≠ Stub.classVarImport →
          ∃ source file, source.moduleName = line.1 ∧ g.files.get? source = some file ∧
            ∃ listed ∈ file.types, Stub.identifier listed = name
  declared : ∀ space e, lastEmission? space b.events = some e → ∀ t ∈ e.types,
    ∃ d, b.session.loader.library.decl? t = some d ∧
      ∀ u, Stub.Names (Stub.meaningIn b.session.loader.library t.unit) t d u → u.space = space →
        u ∈ e.types ∧ Stub.HasClass e.text u.name
  shown : ∀ space e, lastEmission? space b.events = some e → ∀ t ∈ e.types, ∀ d,
    b.session.loader.library.decl? t = some d → ∀ ref ∈ Stub.shownRefs d, ∀ u,
      Stub.meaningIn b.session.loader.library t.unit ref = some u →
        Stub.hint (Stub.meaningIn b.session.loader.library t.unit) ref =
            (if ref.isArray then "list[" ++ Stub.identifier u.name ++ "]"
              else Stub.identifier u.name) ∧
          (u.space ≠ space → ∃ names, (u.space.moduleName, names) ∈
              Stub.importLines space (Stub.declarations b.session.loader.library e.types) ∧
            Stub.identifier u.name ∈ names)

namespace Plan.Closing

variable {p : Plan} {s : Stage} {seed : TypeId → Prop} {t u : TypeId} {d : TypeDecl}
  {space : Namespace} {e : Emission}

/-- When nothing is queued, what a registered type names is registered. -/
theorem contains_of_names (h : p.Closing seed s) (hlibrary : p.library.Sound)
    (hqueue : s.registry.queue = []) (ht : s.registry.contains t)
    (hdecl : p.library.decl? t = some d)
    (hnames : Stub.Names (Stub.meaningIn p.library t.unit) t d u) : s.registry.contains u := by
  cases hnames with
  | value => exact ht
  | reference hshown hmeaning =>
      obtain ⟨d', us, hdeclares, hus, hall⟩ := (h.followed t ht).resolve_left (by simp [hqueue])
      rw [← hlibrary.decl?_eq_some, hdecl] at hdeclares
      cases hdeclares
      exact hall u (Stub.mem_referenced_of_shown hus hshown hmeaning)

theorem exists_decl?_of_mem_types (h : p.Closing seed s) (hlibrary : p.library.Sound)
    (hall : p.session.options.onlyTargetTypes = false) (hqueue : s.registry.queue = [])
    (hlast : lastEmission? space s.events = some e) (ht : t ∈ e.types) :
    ∃ d, p.library.decl? t = some d := by
  obtain ⟨d, hdeclares⟩ := h.declared t ((h.mem_types_iff hall hqueue hlast).mp ht).1
  exact ⟨d, hlibrary.decl?_eq_some.mpr hdeclares⟩

/-- A registered type is on record in its namespace. -/
theorem exists_file (h : p.Closing seed s) (hall : p.session.options.onlyTargetTypes = false)
    (hqueue : s.registry.queue = []) (ht : s.registry.contains t) {g : Generation}
    (hempty : g.files = []) :
    ∃ file, (s.events.foldl Generation.note g).files.get? t.space = some file ∧
      t.name ∈ file.types := by
  obtain ⟨e, hlast⟩ :=
    (h.mem_namespaces_iff hqueue).mp (h.sound.mem_namespaces_of_contains ht)
  obtain ⟨file, hfile, -⟩ := Generation.exists_get?_files_of_last hempty hlast
  obtain ⟨e', hlast', -, hnames⟩ := Generation.exists_last_of_get?_files hempty hfile
  rw [hlast] at hlast'
  cases hlast'
  have hlisted := (h.mem_types_iff hall hqueue hlast).mpr ⟨ht, rfl⟩
  exact ⟨file, hfile, hnames ▸ List.mem_map_of_mem hlisted⟩

end Plan.Closing

namespace Session

variable {s : Session} {disk : Disk} {destination : Path} {targets searchPaths : List Path}
  {g : Generation}

/-- What was written when nothing is queued is closed under imports. -/
theorem importClosed_of_closing {last : Stage} {seed : TypeId → Prop}
    (hlibrary : s.loader.library.Sound) (hall : s.options.onlyTargetTypes = false)
    (hqueue : last.registry.queue = []) (h : Plan.Closing ⟨s, destination⟩ seed last)
    (hspared : Plan.Spared last) (hresult : (s.builtFrom destination last).result = .ok g) :
    (s.builtFrom destination last).ImportClosed g := by
  cases hresult
  have htext : ∀ space e, lastEmission? space last.events = some e →
      e.text = Stub.text space (Stub.declarations s.loader.library e.types) := by
    intro space e hlast
    obtain ⟨met, hrender, -⟩ := (h.upToDate space e hlast).rendered
    exact Stub.text_of_render hrender
  refine { text := htext, modules := ?_, imports := ?_, declared := ?_, shown := ?_ }
  · have hfree : ∀ space ∈ (last.events.foldl Generation.note
        ⟨destination, s.loader.targetNames, [], []⟩).files.keys, space.isReserved = false := by
      intro space hspace
      obtain ⟨e, hlast⟩ := (Generation.mem_keys_foldl_note rfl).mp hspace
      obtain ⟨he, rfl⟩ := mem_events_of_lastEmission? hlast
      exact hspared e he
    exact fun space hspace other hother =>
      Namespace.moduleName_inj (hfree space hspace) (hfree other hother)
  · intro space e hlast line hline name hname hoverload hclassVar
    have hwanted := Stub.mem_wantedImports_of_importLines hline hname
    obtain ⟨⟨meaning, d⟩, hd, hwanted⟩ := List.mem_flatMap.mp hwanted
    obtain ⟨ref, href, u, hmeaning, -, himport⟩ :=
      Stub.exists_ref_of_mem_importsOf hwanted hoverload hclassVar
    obtain ⟨t, ht, hdecl, rfl⟩ := Stub.mem_declarations.mp hd
    have hu := h.contains_of_names hlibrary hqueue
      ((h.mem_types_iff hall hqueue hlast).mp ht).1 hdecl (.reference href hmeaning)
    obtain ⟨file, hfile, hlisted⟩ := h.exists_file hall hqueue hu
      (g := ⟨destination, s.loader.targetNames, [], []⟩) rfl
    obtain ⟨hsource, hidentifier⟩ := Stub.Import.mk.inj himport
    exact ⟨u.space, file, hsource.symm, hfile, u.name, hlisted, hidentifier.symm⟩
  · intro space e hlast t ht
    obtain ⟨d, hdecl⟩ := h.exists_decl?_of_mem_types hlibrary hall hqueue hlast ht
    refine ⟨d, hdecl, ?_⟩
    intro u hnames hspace
    have hu := h.contains_of_names hlibrary hqueue
      ((h.mem_types_iff hall hqueue hlast).mp ht).1 hdecl hnames
    have hmember := (h.mem_types_iff hall hqueue hlast).mpr ⟨hu, hspace⟩
    refine ⟨hmember, ?_⟩
    obtain ⟨du, hdu⟩ := h.exists_decl?_of_mem_types hlibrary hall hqueue hlast hmember
    obtain ⟨-, -, -, -, hname⟩ := hlibrary.decl?_eq_some.mp hdu
    rw [htext space e hlast, ← hname]
    exact Stub.hasClass_text (Stub.mem_declarations.mpr ⟨u, hmember, hdu, rfl⟩)
  · intro space e hlast t ht d hdecl ref href u hmeaning
    refine ⟨Stub.hint_of_meaning hmeaning, fun hspace => ?_⟩
    have himport := Stub.mem_importsOf.mpr (Or.inl ⟨ref, href, u, hmeaning, hspace, rfl⟩)
    have hwanted : (⟨u.space.moduleName, Stub.identifier u.name⟩ : Stub.Import) ∈
        Stub.wantedImports space (Stub.declarations s.loader.library e.types) :=
      List.mem_flatMap.mpr ⟨_, Stub.mem_declarations.mpr ⟨t, ht, hdecl, rfl⟩, himport⟩
    exact ((Stub.importLines_exact space _).mem_iff _).mpr hwanted

/-- A build with a result that writes all types leaves a stub tree that is closed under imports. -/
theorem build_importClosed {choice : Option Document}
    (hreached : s.loader.Reached (· = .searchPaths))
    (hresult : (s.build disk destination targets searchPaths choice).result = .ok g)
    (hall : (s.build disk destination targets searchPaths
      choice).session.options.onlyTargetTypes = false) :
    (s.build disk destination targets searchPaths choice).ImportClosed g := by
  obtain ⟨loaded, names, said, hloaded, hbuild⟩ := build_eq_ok hreached hresult
  rw [hbuild] at hresult hall ⊢
  obtain ⟨last, hrun, hqueue, hgenerate⟩ := generate_eq_ok hresult
  rw [hgenerate] at hresult hall ⊢
  have hlibrary := hloaded.loader.sound
  have hinv := hrun.closing hall hlibrary hloaded.loader.standard.2 (hloaded.closing destination)
  have hstart : Plan.Spared (loaded.firstStage disk) := by
    intro e he
    cases he
  have hspared := hrun.preserves Plan.Round.spared hstart
  have himports := importClosed_of_closing hlibrary hall hqueue hinv hspared hresult
  exact { himports with }

/-- A type of `N` whose base in another binary has a type of `N` under a keyword for its name. -/
def crossingDisk : Disk :=
  ⟨[], [(["m"], .directory),
    (["m", "A.yaml"], .file ("\n".intercalate
      ["name: A", "references: [B]", "types:", "- name: N.T", "  base: M.V",
        "- name: N.class", "  visibility: internal"]).toUTF8),
    (["m", "B.yaml"], .file ("\n".intercalate
      ["name: B", "references: [A]", "types:", "- name: M.V", "  fields:", "  - name: f",
        "    type: N.class", "    static: true"]).toUTF8)]⟩

def crossingTarget : Path := ⟨.root, ["m", "A.yaml"]⟩

set_option maxRecDepth 100000 in
theorem crossing_evaluated :
    ((Session.new {}).buildInOrder crossingDisk lateDestination [crossingTarget] [] none).bind
      (fun b => b.result.toOption.map fun g =>
        (b.session.options.onlyTargetTypes, g.files.values.map (·.types))) =
      some (false, [["T", "class"], ["V"]]) := by
  decide +kernel

theorem build_importClosed_crossing :
    ∃ g, ((Session.new {}).build crossingDisk lateDestination [crossingTarget] [] none).result =
        .ok g ∧
      ((Session.new {}).build crossingDisk lateDestination [crossingTarget] [] none).ImportClosed
        g ∧
      g.files.values.map (·.types) = [["T", "class"], ["V"]] := by
  obtain ⟨g, hresult, hview⟩ := exists_result_of_buildInOrder crossing_evaluated
  obtain ⟨hall, hfiles⟩ := Prod.mk.inj hview
  exact ⟨g, hresult, build_importClosed (.new ".yaml") hresult hall, hfiles⟩

end Session

end StubTree
