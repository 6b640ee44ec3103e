import StubTree.Proofs.Manifest.Methods
import StubTree.Proofs.Stub.Meeting
import StubTree.Proofs.Stub.Text
import StubTree.Proofs.Text.Sorted

/-! # What a stub imports

A stub imports the types of other namespaces that its declarations refer to, and the marks that
they carry, and nothing else. Whatever the order of the declarations and of their members, and
however often they want an import, it stands once, in one line with all others from its module.
-/

namespace StubTree

/-- Binaries of a library that comes about declare their types as reading does. -/
theorem Loader.Reached.wellNamed {allowed : Resolver → Prop} {l : Loader} (h : l.Reached allowed)
    {t : TypeId} {d : TypeDecl} (hd : l.library.Declares t d) : d.WellNamed := by
  obtain ⟨m, hm, hmem, -⟩ := hd
  obtain ⟨links, hget⟩ := Library.exists_get?_of_manifest? hm
  obtain ⟨disk, hload⟩ := h.wasRead _ (Keyed.mem_of_get? hget)
  exact Manifest.wellNamed_of_load hload hmem

namespace Stub

variable {lib : Library} {space : Namespace} {types : List TypeId} {imports : List Import}
  {i : Import} {d : TypeDecl} {methods : List Method} {source : String}

/-- The marks in use in a stub: for a static member, and for two constructors or two methods of one
name. -/
inductive Marked (lib : Library) (types : List TypeId) : String → Prop
  | classVar {t : TypeId} {d : TypeDecl} (ht : t ∈ types) (hd : lib.Declares t d)
      (hstatic : (∃ f ∈ d.fields, f.isStatic) ∨ ∃ p ∈ d.properties, p.isStatic) :
      Marked lib types "ClassVar"
  | overload {t : TypeId} {d : TypeDecl} (ht : t ∈ types) (hd : lib.Declares t d)
      (hmany : 2 ≤ d.constructors.length ∨ ¬ (d.methods.map (·.name)).Nodup) :
      Marked lib types "overload"

/-- What the stub of a namespace needs an import for: a type of another namespace that one of its
types refers to, and a mark in use. -/
inductive Needs (lib : Library) (space : Namespace) (types : List TypeId) : Import → Prop
  | reference {t : TypeId} {d : TypeDecl} {ref : TypeRef} {s : Located} (ht : t ∈ types)
      (hd : lib.Declares t d) (href : ref ∈ d.refs)
      (hs : lib.resolveRef (.held t.unit) ref = .ok (some s)) (hspace : s.decl.space ≠ space) :
      Needs lib space types ⟨s.decl.space.moduleName, identifier s.decl.name⟩
  | mark {name : String} (h : Marked lib types name) : Needs lib space types ⟨"typing", name⟩

/-- Lines of an import block, each a module with the names from it, that have just the imports that
are needed: one line for each module, modules and names in ascending order. -/
structure ImportsExactly (lines : List (String × List String)) (needed : Import → Prop) :
    Prop where
  modules : (lines.map (·.1)).Pairwise (· < ·)
  names : ∀ line ∈ lines, line.2 ≠ [] ∧ line.2.Pairwise (· < ·)
  mem_iff : ∀ i, (∃ names, (i.source, names) ∈ lines ∧ i.name ∈ names) ↔ needed i

/-! ## Lines -/

theorem bySource_concat (imports : List Import) (i : Import) :
    bySource (imports ++ [i]) = Keyed.set i.source
      ((Keyed.get? i.source (bySource imports)).getD [] ++ [i.name]) (bySource imports) :=
  List.foldl_append

theorem nodup_keys_bySource (imports : List Import) : (bySource imports).keys.Nodup := by
  induction imports using List.reverseRecOn with
  | nil => exact List.nodup_nil
  | append_singleton imports i ih =>
      rw [bySource_concat]
      exact Keyed.nodup_keys_set ih _ _

theorem mem_keys_bySource :
    source ∈ (bySource imports).keys ↔ ∃ name, (⟨source, name⟩ : Import) ∈ imports := by
  induction imports using List.reverseRecOn with
  | nil => simp [bySource]
  | append_singleton imports i ih =>
      simp only [bySource_concat, Keyed.mem_keys_set, ih, List.mem_append, List.mem_singleton]
      constructor
      · rintro (rfl | ⟨name, hname⟩)
        · exact ⟨i.name, Or.inr rfl⟩
        · exact ⟨name, Or.inl hname⟩
      · rintro ⟨name, hname | rfl⟩
        · exact Or.inr ⟨name, hname⟩
        · exact Or.inl rfl

variable {declared : List (Meaning × TypeDecl)}

theorem mem_importLines {names : List String} : (source, names) ∈ importLines space declared ↔
    source ∈ (bySource (wantedImports space declared)).keys ∧
      names = Text.sortedDistinct
        (((bySource (wantedImports space declared)).get? source).getD []) := by
  simp only [importLines, List.mem_map, Text.mem_sorted, Prod.mk.injEq]
  constructor
  · rintro ⟨_, hsource, rfl, rfl⟩
    exact ⟨hsource, rfl⟩
  · rintro ⟨hsource, rfl⟩
    exact ⟨source, hsource, rfl, rfl⟩

/-- The lines have just what the declarations want. -/
theorem importLines_exact (space : Namespace) (declared : List (Meaning × TypeDecl)) :
    ImportsExactly (importLines space declared) (· ∈ wantedImports space declared) where
  modules := by
    have hmodules : (importLines space declared).map (·.1) =
        Text.sorted (bySource (wantedImports space declared)).keys := by
      rw [importLines, List.map_map]
      exact List.map_id _
    rw [hmodules]
    exact Text.ascending_sorted (nodup_keys_bySource _)
  names := by
    rintro ⟨source, names⟩ hline
    obtain ⟨hsource, rfl⟩ := mem_importLines.mp hline
    obtain ⟨name, hname⟩ := mem_keys_bySource.mp hsource
    refine ⟨?_, Text.ascending_sortedDistinct _⟩
    exact List.ne_nil_of_mem (Text.mem_sortedDistinct.mpr (mem_bySource.mpr hname))
  mem_iff i := by
    constructor
    · rintro ⟨names, hline, hname⟩
      exact mem_wantedImports_of_importLines hline hname
    · intro hwanted
      refine ⟨_, mem_importLines.mpr ⟨mem_keys_bySource.mpr ⟨i.name, hwanted⟩, rfl⟩, ?_⟩
      exact Text.mem_sortedDistinct.mpr (mem_bySource.mpr hwanted)

namespace ImportsExactly

variable {lines lines' : List (String × List String)} {needed needed' : Import → Prop}

theorem congr (h : ImportsExactly lines needed) (heq : ∀ i, needed i ↔ needed' i) :
    ImportsExactly lines needed' where
  modules := h.modules
  names := h.names
  mem_iff i := (h.mem_iff i).trans (heq i)

/-- There are no lines just where nothing is needed. -/
theorem eq_nil_iff (h : ImportsExactly lines needed) : lines = [] ↔ ∀ i, ¬ needed i := by
  constructor
  · rintro rfl i hi
    obtain ⟨names, hline, -⟩ := (h.mem_iff i).mpr hi
    cases hline
  · intro hnone
    refine List.eq_nil_iff_forall_not_mem.mpr ?_
    rintro ⟨source, names⟩ hline
    obtain ⟨name, hname⟩ := List.exists_mem_of_ne_nil _ (h.names _ hline).1
    exact hnone ⟨source, name⟩ ((h.mem_iff _).mp ⟨names, hline, hname⟩)

theorem mem_names_iff (h : ImportsExactly lines needed) {names : List String} {name : String}
    (hline : (source, names) ∈ lines) : name ∈ names ↔ needed ⟨source, name⟩ := by
  constructor
  · exact fun hname => (h.mem_iff _).mp ⟨names, hline, hname⟩
  · intro hneeded
    obtain ⟨names', hline', hname⟩ := (h.mem_iff ⟨source, name⟩).mpr hneeded
    -- No module has two lines.
    have hnodup : (lines.map (·.1)).Nodup := h.modules.imp ne_of_lt
    obtain rfl : names = names' :=
      congrArg Prod.snd (List.inj_on_of_nodup_map hnodup hline hline' rfl)
    exact hname

theorem subset (h : ImportsExactly lines needed) (h' : ImportsExactly lines' needed) :
    lines ⊆ lines' := by
  rintro ⟨source, names⟩ hline
  obtain ⟨hne, hascending⟩ := h.names _ hline
  obtain ⟨name, hname⟩ := List.exists_mem_of_ne_nil _ hne
  obtain ⟨names', hline', -⟩ :=
    (h'.mem_iff ⟨source, name⟩).mpr ((h.mem_names_iff hline).mp hname)
  have hascending' := (h'.names _ hline').2
  have hsame : names.Perm names' :=
    (List.perm_ext_iff_of_nodup (hascending.imp ne_of_lt) (hascending'.imp ne_of_lt)).mpr
      fun _ => (h.mem_names_iff hline).trans (h'.mem_names_iff hline').symm
  obtain rfl : names = names' :=
    hsame.eq_of_pairwise (fun _ _ _ _ hlt hgt => absurd hgt hlt.asymm) hascending hascending'
  exact hline'

/-- What is needed decides the lines. -/
theorem unique (h : ImportsExactly lines needed) (h' : ImportsExactly lines' needed) :
    lines = lines' := by
  have hascending := List.pairwise_map.mp h.modules
  have hascending' := List.pairwise_map.mp h'.modules
  have hsame : lines.Perm lines' :=
    (List.perm_ext_iff_of_nodup (hascending.imp fun hlt heq => hlt.ne (congrArg Prod.fst heq))
      (hascending'.imp fun hlt heq => hlt.ne (congrArg Prod.fst heq))).mpr
      fun _ => ⟨fun hline => h.subset h' hline, fun hline => h'.subset h hline⟩
  exact hsame.eq_of_pairwise (fun _ _ _ _ hlt hgt => absurd hgt hlt.asymm) hascending hascending'

end ImportsExactly

/-! ## What is wanted -/

theorem any_isOverloaded :
    methods.any (isOverloaded methods) = true ↔ ¬ (methods.map (·.name)).Nodup := by
  have hcount : ∀ m : Method, methods.countP (fun other => other.name == m.name) =
      (methods.map (·.name)).count m.name := by
    intro m
    rw [List.count, List.countP_map]
    rfl
  simp only [List.any_eq_true, isOverloaded, hcount, decide_eq_true_eq,
    List.nodup_iff_count_le_one, not_forall, not_le]
  constructor
  · rintro ⟨m, -, hm⟩
    exact ⟨m.name, hm⟩
  · rintro ⟨name, hname⟩
    obtain ⟨m, hm, rfl⟩ := List.mem_map.mp (List.count_pos_iff.mp (Nat.zero_lt_of_lt hname))
    exact ⟨m, hm, hname⟩

/-- All constructors have one name, so two of them are enough. -/
theorem any_isOverloaded_constructors (h : d.WellNamed) :
    d.constructors.any (isOverloaded d.constructors) = true ↔ 2 ≤ d.constructors.length := by
  have hnames : d.constructors.map (·.name) = List.replicate d.constructors.length "__init__" :=
    List.eq_replicate_iff.mpr ⟨List.length_map _, List.forall_mem_map.mpr h.constructors⟩
  rw [any_isOverloaded, hnames, List.nodup_replicate, not_le]
  exact Iff.rfl

theorem mem_wantedImports : i ∈ wantedImports space (declarations lib types) ↔
    ∃ t ∈ types, ∃ d, lib.decl? t = some d ∧ i ∈ importsOf (meaningIn lib t.unit) space d := by
  simp only [wantedImports, List.mem_flatMap, Prod.exists, mem_declarations]
  constructor
  · rintro ⟨_, d, ⟨t, ht, hdecl, rfl⟩, himport⟩
    exact ⟨t, ht, d, hdecl, himport⟩
  · rintro ⟨t, ht, d, hdecl, himport⟩
    exact ⟨_, d, ⟨t, ht, hdecl, rfl⟩, himport⟩

/-- The declarations of a stub want just what it needs. -/
theorem mem_wantedImports_iff_needs (hsound : lib.Sound)
    (hnamed : ∀ t d, lib.Declares t d → d.WellNamed) :
    i ∈ wantedImports space (declarations lib types) ↔ Needs lib space types i := by
  simp only [mem_wantedImports, mem_importsOf, mem_markImports, hsound.decl?_eq_some,
    mem_shownRefs, meaningIn_eq_some, Bool.or_eq_true]
  constructor
  · rintro ⟨t, ht, d, hd, ⟨ref, href, _, ⟨s, hs, rfl⟩, hspace, rfl⟩ | ⟨rfl, hmany⟩ |
      ⟨rfl, hstatic⟩⟩
    · exact .reference ht hd href hs hspace
    · rw [any_isOverloaded_constructors (hnamed t d hd), any_isOverloaded] at hmany
      exact .mark (.overload ht hd hmany)
    · rw [List.any_eq_true, List.any_eq_true] at hstatic
      exact .mark (.classVar ht hd hstatic)
  · intro hneeds
    cases hneeds with
    | @reference t d ref s ht hd href hs hspace =>
        exact ⟨t, ht, d, hd, Or.inl ⟨ref, href, s.id, ⟨s, hs, rfl⟩, hspace, rfl⟩⟩
    | mark hmark =>
        cases hmark with
        | @classVar t d ht hd hstatic =>
            rw [← List.any_eq_true, ← List.any_eq_true] at hstatic
            exact ⟨t, ht, d, hd, Or.inr (Or.inr ⟨rfl, hstatic⟩)⟩
        | @overload t d ht hd hmany =>
            rw [← any_isOverloaded_constructors (hnamed t d hd), ← any_isOverloaded] at hmany
            exact ⟨t, ht, d, hd, Or.inr (Or.inl ⟨rfl, hmany⟩)⟩

/-- What the import lines of a stub say is what it needs. -/
theorem importLines_needs {allowed : Resolver → Prop} {l : Loader} (h : l.Reached allowed)
    (space : Namespace) (types : List TypeId) :
    ImportsExactly (importLines space (declarations l.library types))
      (Needs l.library space types) :=
  (importLines_exact space _).congr fun _ =>
    mem_wantedImports_iff_needs h.sound fun _ _ => h.wellNamed

theorem render_eq_of_snd {shown : String} (h : (render lib space types).2 = .ok shown) :
    render lib space types = ((render lib space types).1, .ok shown) :=
  Prod.ext rfl h

/-- A stub that is rendered has just the imports that it needs, between its header and its first
class; where it needs none, it has no import block. -/
theorem render_imports {allowed : Resolver → Prop} {l : Loader} (h : l.Reached allowed)
    {met : List TypeId} {shown : String}
    (hrender : render l.library space types = (met, .ok shown)) :
    ∃ lines, ImportsExactly lines (Needs l.library space types) ∧
      (lines = [] ↔ ∀ i, ¬ Needs l.library space types i) ∧
      shown = "\n\n".intercalate
        (header space ::
          (if lines = [] then [] else ["\n".intercalate
            (lines.map fun line =>
              "from " ++ line.1 ++ " import " ++ ", ".intercalate line.2)]) ++
          (declarations l.library types).map fun (meaning, d) => declaration meaning d)
        ++ "\n" := by
  have hexact := importLines_needs h space types
  refine ⟨_, hexact, hexact.eq_nil_iff, ?_⟩
  have hempty : (wantedImports space (declarations l.library types)).isEmpty = true ↔
      importLines space (declarations l.library types) = [] := by
    rw [(importLines_exact space _).eq_nil_iff, List.isEmpty_iff, List.eq_nil_iff_forall_not_mem]
  rw [text_of_render hrender, text_eq]
  simp only [hempty]

/-- A binary whose type `N.T` needs an import of every kind. The namespace of one of the types that
it refers to has the name of the module of the marks, and the name of that type is kept. -/
def needyDisk : Disk :=
  ⟨[], [(["A.yaml"], .file ("\n".intercalate
    ["name: A", "types:", "- name: G", "- name: typing.is", "- name: N.T", "  base: G",
      "  interfaces: [typing.is]", "  fields:", "  - {name: f, type: typing.is, static: true}",
      "  constructors: [{}, {}]"]).toUTF8)]⟩

/-- What loading it comes to. -/
def needyCall : Loader × Except Fault Link :=
  (Loader.install { suffix := ".yaml" } .searchPaths).call needyDisk (.target ⟨.root, ["A.yaml"]⟩)

def needyType : TypeId := ⟨.named "N", "T", "A"⟩

/-- What the type wants, in order. -/
def needyImports : List Import :=
  [⟨"global_", "G"⟩, ⟨"typing", "is_"⟩, ⟨"typing", "is_"⟩, overloadImport, classVarImport]

def needyClass : String :=
  "class T(G, is_):\n    f: ClassVar[is_]\n" ++
  "    @overload\n    def __init__(self) -> None: ...\n" ++
  "    @overload\n    def __init__(self) -> None: ..."

/-- The stub of the type: what is wanted twice stands once, between the marks of its module. -/
def needyText : String :=
  "# Stubs for namespace 'N'\n\n" ++
  "from global_ import G\nfrom typing import ClassVar, is_, overload\n\n" ++ needyClass ++ "\n"

theorem needyImports_exact :
    ImportsExactly [("global_", ["G"]), ("typing", ["ClassVar", "is_", "overload"])]
      (· ∈ needyImports) where
  modules := by decide
  names := by decide
  mem_iff := by
    rintro ⟨source, name⟩
    simp only [needyImports, overloadImport, classVarImport, List.mem_cons, List.not_mem_nil,
      or_false, Prod.mk.injEq, Import.mk.injEq, or_and_right, exists_or, and_assoc,
      exists_and_left, exists_eq_left]
    tauto

set_option maxRecDepth 100000 in
theorem needy_evaluated :
    (render needyCall.1.library (.named "N") [needyType]).2.toOption.isSome ∧
      wantedImports (.named "N") (declarations needyCall.1.library [needyType]) = needyImports ∧
      ((declarations needyCall.1.library [needyType]).map fun (meaning, d) =>
        declaration meaning d) = [needyClass] := by
  decide +kernel

theorem render_imports_needy :
    ∃ met, render needyCall.1.library (.named "N") [needyType] = (met, .ok needyText) := by
  obtain ⟨hrenders, hwanted, hdeclarations⟩ := needy_evaluated
  have hreached : needyCall.1.Reached (· = .searchPaths) := by
    rw [needyCall]
    exact .call _ _ (.install (.new ".yaml") rfl)
  have hneeds : ∀ i, i ∈ needyImports ↔ Needs needyCall.1.library (.named "N") [needyType] i := by
    intro i
    rw [← hwanted]
    exact mem_wantedImports_iff_needs hreached.sound fun t d => hreached.wellNamed
  obtain ⟨shown, hshown⟩ := Option.isSome_iff_exists.mp hrenders
  have hrender := render_eq_of_snd (eq_ok_of_toOption hshown)
  obtain ⟨lines, hexact, -, htext⟩ := render_imports hreached hrender
  obtain rfl := hexact.unique (needyImports_exact.congr hneeds)
  rw [hdeclarations] at htext
  have hneedy : shown = needyText := htext.trans (by decide +kernel)
  rw [hneedy] at hrender
  exact ⟨_, hrender⟩

end Stub

end StubTree
