import StubTree.Proofs.Library.Within
import StubTree.Proofs.Session.OneDirectory
import StubTree.Proofs.Session.Restriction

/-! # Builds of more targets

Where all types are written, a build of two rows of targets from one directory writes the types
that builds of either of them write, and no others: what a type refers to depends on the binaries
that its own one leads to, and not on what else was loaded.
-/

namespace StubTree

open Loader (Stocked)

/-- What a build writes, compared with two others. -/
structure Built.Unites (b b₁ b₂ : Built) (g g₁ g₂ : Generation) : Prop where
  listed : b.Lists ∧ b₁.Lists ∧ b₂.Lists
  written : ∀ space t, t ∈ b.typesOf space ↔ t ∈ b₁.typesOf space ∨ t ∈ b₂.typesOf space
  mem_keys : ∀ space, space ∈ g.files.keys ↔ space ∈ g₁.files.keys ∨ space ∈ g₂.files.keys

namespace Session

variable {disk : Disk} {dir destination : Path} {s loaded loaded₁ loaded₂ : Session}
  {targets targets₁ targets₂ searchPaths : List Path} {names names₁ names₂ : List String}
  {t : TypeId} {g : Generation} {last : Stage}

/-- Where a library has all that is loaded for targets, what they need is reached in it from what
they export. -/
theorem closure_iff_needs (hloaded : Loaded disk targets₁ loaded₁ names₁)
    (hwithin : loaded₁.loader.library.Within loaded.loader.library) :
    loaded.loader.library.Closure (loaded₁.Seed disk targets₁) t ↔
      loaded₁.Needs disk targets₁ t := by
  apply hwithin.closure_iff hloaded.loader.standard.2
  intro u hu
  obtain ⟨d, hdeclares⟩ := hloaded.declared (hloaded.contains.mpr (hloaded.seed_iff.mp hu))
  exact hdeclares.mem_keys

/-- What two rows of targets export together. -/
theorem seed_append_iff (hloaded : Loaded disk (targets₁ ++ targets₂) loaded names)
    (hloaded₁ : Loaded disk targets₁ loaded₁ names₁)
    (hloaded₂ : Loaded disk targets₂ loaded₂ names₂)
    (hoptions₁ : loaded₁.options = loaded.options) (hoptions₂ : loaded₂.options = loaded.options)
    (hwithin₁ : loaded₁.loader.library.Within loaded.loader.library)
    (hwithin₂ : loaded₂.loader.library.Within loaded.loader.library) :
    loaded.Seed disk (targets₁ ++ targets₂) t ↔
      loaded₁.Seed disk targets₁ t ∨ loaded₂.Seed disk targets₂ t := by
  have hnames : ∀ name, name ∈ names ↔ name ∈ names₁ ∨ name ∈ names₂ := by
    intro name
    rw [hloaded.mem_names, hloaded₁.mem_names, hloaded₂.mem_names, hoptions₁, hoptions₂]
    simp only [List.mem_append, or_and_right, exists_or]
    exact or_or_distrib_right
  have hexported₁ : ∀ name ∈ names₁,
      loaded.loader.library.exported name = loaded₁.loader.library.exported name :=
    fun name hname => hwithin₁.exported (hloaded₁.held name hname)
  have hexported₂ : ∀ name ∈ names₂,
      loaded.loader.library.exported name = loaded₂.loader.library.exported name :=
    fun name hname => hwithin₂.exported (hloaded₂.held name hname)
  rw [hloaded.seed_iff, hloaded₁.seed_iff, hloaded₂.seed_iff]
  simp only [List.mem_flatMap, hnames]
  constructor
  · rintro ⟨name, hname | hname, ht⟩
    · exact Or.inl ⟨name, hname, hexported₁ name hname ▸ ht⟩
    · exact Or.inr ⟨name, hname, hexported₂ name hname ▸ ht⟩
  · rintro (⟨name, hname, ht⟩ | ⟨name, hname, ht⟩)
    · exact ⟨name, Or.inl hname, (hexported₁ name hname).symm ▸ ht⟩
    · exact ⟨name, Or.inr hname, (hexported₂ name hname).symm ▸ ht⟩

/-- What a build of all types writes is what its targets need. -/
theorem mem_typesOf_iff_needs (hlibrary : s.loader.library.Sound)
    (hall : s.options.onlyTargetTypes = false) (hqueue : last.registry.queue = [])
    (h : Plan.Following ⟨s, destination⟩ (s.Seed disk targets) last) {space : Namespace} :
    t ∈ (s.builtFrom destination last).typesOf space ↔
      s.Needs disk targets t ∧ t.space = space := by
  rw [mem_typesOf hlibrary hqueue h, reaches_iff_needs hall]

theorem mem_keys_iff_needs (hlibrary : s.loader.library.Sound)
    (hall : s.options.onlyTargetTypes = false) (hqueue : last.registry.queue = [])
    (h : Plan.Following ⟨s, destination⟩ (s.Seed disk targets) last)
    (hresult : (s.builtFrom destination last).result = .ok g) {space : Namespace} :
    space ∈ g.files.keys ↔ ∃ t, s.Needs disk targets t ∧ t.space = space := by
  cases hresult
  rw [Generation.mem_keys_foldl_note rfl, h.exists_last_iff hlibrary hqueue]
  simp only [reaches_iff_needs hall]

/-- The union law: where all types are written, a build of two rows of targets from one directory
writes the types that the builds of the two write, and has the stubs that either of them has. -/
theorem build_unites {o : Options} {choice : Option Document}
    {destination₁ destination₂ : Path} {b₁ b₂ b : Built} {g₁ g₂ g : Generation}
    (hb₁ : (Session.new o).build disk destination₁ targets₁ searchPaths choice = b₁)
    (hb₂ : (Session.new o).build disk destination₂ targets₂ searchPaths choice = b₂)
    (hb : (Session.new o).build disk destination (targets₁ ++ targets₂) searchPaths choice = b)
    (hdir : OneDirectory disk o.manifestSuffix dir (targets₁ ++ targets₂) searchPaths)
    (hall : b.session.options.onlyTargetTypes = false)
    (hresult₁ : b₁.result = .ok g₁) (hresult₂ : b₂.result = .ok g₂) (hresult : b.result = .ok g) :
    b.Unites b₁ b₂ g g₁ g₂ := by
  rw [← hb] at hresult
  rw [← hb₁] at hresult₁
  rw [← hb₂] at hresult₂
  have hnew := Stocked.new disk o.manifestSuffix dir
  have hregular := regular_new o
  have hdir₁ := hdir.of_subset (List.subset_append_left targets₁ targets₂)
  have hdir₂ := hdir.of_subset (List.subset_append_right targets₁ targets₂)
  obtain ⟨loaded, names, said, last, hloading, hloaded, hfollowing, hqueue, hrecord, hbuild⟩ :=
    exists_following hregular hresult
  obtain ⟨loaded₁, names₁, said₁, last₁, hloading₁, hloaded₁, hfollowing₁, hqueue₁, hrecord₁,
    hbuild₁⟩ := exists_following hregular hresult₁
  obtain ⟨loaded₂, names₂, said₂, last₂, hloading₂, hloaded₂, hfollowing₂, hqueue₂, hrecord₂,
    hbuild₂⟩ := exists_following hregular hresult₂
  rw [hbuild] at hb
  rw [hbuild₁] at hb₁
  rw [hbuild₂] at hb₂
  subst hb hb₁ hb₂
  have hoptions₁ := hloading.options_eq hloading₁ rfl
  have hoptions₂ := hloading.options_eq hloading₂ rfl
  have hall₁ : loaded₁.options.onlyTargetTypes = false := hoptions₁ ▸ hall
  have hall₂ : loaded₂.options.onlyTargetTypes = false := hoptions₂ ▸ hall
  have hstocked := stocked_of_loading hnew hdir hloading
  have hwithin₁ := within_of_subset hnew hdir₁ hloading₁ hstocked hloaded (List.nil_subset _)
    (List.subset_append_left _ _) (congrArg (·.builtinBinaries) hoptions₁.symm)
  have hwithin₂ := within_of_subset hnew hdir₂ hloading₂ hstocked hloaded (List.nil_subset _)
    (List.subset_append_right _ _) (congrArg (·.builtinBinaries) hoptions₂.symm)
  have hneeds : ∀ t, loaded.Needs disk (targets₁ ++ targets₂) t ↔
      loaded₁.Needs disk targets₁ t ∨ loaded₂.Needs disk targets₂ t := by
    intro t
    have hseed : loaded.Seed disk (targets₁ ++ targets₂) = fun t =>
        loaded₁.Seed disk targets₁ t ∨ loaded₂.Seed disk targets₂ t :=
      funext fun t => propext
        (seed_append_iff hloaded hloaded₁ hloaded₂ hoptions₁ hoptions₂ hwithin₁ hwithin₂)
    rw [Needs, hseed, Library.closure_or_iff, closure_iff_needs hloaded₁ hwithin₁,
      closure_iff_needs hloaded₂ hwithin₂]
  refine
    { listed := ⟨lists_builtFrom _ _ _, lists_builtFrom _ _ _, lists_builtFrom _ _ _⟩
      written := ?_
      mem_keys := ?_ }
  · intro space t
    calc t ∈ (loaded.builtFrom destination last).typesOf space
        ↔ loaded.Needs disk (targets₁ ++ targets₂) t ∧ t.space = space :=
          mem_typesOf_iff_needs hloaded.loader.sound hall hqueue hfollowing
      _ ↔ (loaded₁.Needs disk targets₁ t ∧ t.space = space) ∨
          (loaded₂.Needs disk targets₂ t ∧ t.space = space) := by
          rw [hneeds, or_and_right]
      _ ↔ t ∈ (loaded₁.builtFrom destination₁ last₁).typesOf space ∨
          t ∈ (loaded₂.builtFrom destination₂ last₂).typesOf space :=
          or_congr
            (mem_typesOf_iff_needs hloaded₁.loader.sound hall₁ hqueue₁ hfollowing₁).symm
            (mem_typesOf_iff_needs hloaded₂.loader.sound hall₂ hqueue₂ hfollowing₂).symm
  · intro space
    rw [mem_keys_iff_needs hloaded.loader.sound hall hqueue hfollowing hrecord,
      mem_keys_iff_needs hloaded₁.loader.sound hall₁ hqueue₁ hfollowing₁ hrecord₁,
      mem_keys_iff_needs hloaded₂.loader.sound hall₂ hqueue₂ hfollowing₂ hrecord₂]
    simp only [hneeds, or_and_right, exists_or]

/-! ## Two targets, one by one and together -/

/-- The types on record by namespace, and whether the types of targets alone are written. -/
def unionSummary (b : Built) (g : Generation) : Bool × List (Namespace × List String) :=
  (b.session.options.onlyTargetTypes, g.files.map fun f => (f.1, f.2.types))

/-- What a build of all types leaves on record, computed without sorting. -/
def unionRecord? (targets : List Path) : Option (Bool × List (Namespace × List String)) :=
  ((Session.new {}).buildInOrder pairDisk pairDestination targets [] none).bind
    fun b => b.result.toOption.map (unionSummary b)

set_option synthInstance.maxSize 1000 in
set_option maxRecDepth 100000 in
theorem union_evaluated :
    unionRecord? [pairTarget "A"] =
        some (false, [(.named "P", ["X", "Z"]), (.named "R", ["U"]), (.named "Q", ["Y"]),
          (.named "S", ["V"])]) ∧
      unionRecord? [pairTarget "B"] =
        some (false, [(.named "Q", ["Y", "Z"]), (.named "P", ["Z"])]) ∧
      unionRecord? [pairTarget "A", pairTarget "B"] =
        some (false, [(.named "P", ["X", "Z"]), (.named "R", ["U"]), (.named "Q", ["Y", "Z"]),
          (.named "S", ["V"])]) := by
  decide +kernel

/-- The build of all types of some targets. -/
def unionBuild (targets : List Path) : Built :=
  (Session.new {}).build pairDisk pairDestination targets [] none

theorem build_unites_pair :
    ∃ g g₁ g₂, (unionBuild [pairTarget "A", pairTarget "B"]).result = .ok g ∧
      (unionBuild [pairTarget "A"]).result = .ok g₁ ∧
      (unionBuild [pairTarget "B"]).result = .ok g₂ ∧
      (unionBuild [pairTarget "A", pairTarget "B"]).Unites (unionBuild [pairTarget "A"])
        (unionBuild [pairTarget "B"]) g g₁ g₂ ∧
      g.files.map (fun f => (f.1, f.2.types)) =
        [(.named "P", ["X", "Z"]), (.named "R", ["U"]), (.named "Q", ["Y", "Z"]),
          (.named "S", ["V"])] ∧
      g₂.files.map (fun f => (f.1, f.2.types)) =
        [(.named "Q", ["Y", "Z"]), (.named "P", ["Z"])] := by
  obtain ⟨hrecord₁, hrecord₂, hrecord⟩ := union_evaluated
  obtain ⟨g₁, hresult₁, -⟩ := exists_result_of_buildInOrder hrecord₁
  obtain ⟨g₂, hresult₂, hsummary₂⟩ := exists_result_of_buildInOrder hrecord₂
  obtain ⟨g, hresult, hsummary⟩ := exists_result_of_buildInOrder hrecord
  obtain ⟨hall, hfiles⟩ := Prod.mk.inj hsummary
  refine ⟨g, g₁, g₂, hresult, hresult₁, hresult₂, ?_, hfiles, (Prod.mk.inj hsummary₂).2⟩
  exact build_unites (o := {}) rfl rfl rfl pairDirectory hall
    hresult₁ hresult₂ hresult

end Session

end StubTree
