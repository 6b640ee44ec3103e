import StubTree.Proofs.Session.Closure

/-! # Stub trees of targets alone

A build that writes the types of its targets alone follows the references of those types and of no
others. What they refer to beyond the targets is registered, so that its namespaces are known, and
left out.
-/

namespace StubTree

/-- The types that a stub tree of targets alone has: the exported types, and what these types
refer to, as far as targets declare them. -/
def Session.TargetNeeds (s : Session) (disk : Disk) (targets : List Path) : TypeId → Prop :=
  s.loader.library.ClosureWithin (fun t => t.unit ∈ s.loader.targets) (s.Seed disk targets)

/-- A stub tree that lists the types of targets it has to, each once and in its place, and notes
what namespaces it leaves out. -/
structure Built.CompleteForTargets (b : Built) (disk : Disk) (targets : List Path)
    (g : Generation) : Prop where
  queue : b.session.registry.queue = []
  registered : ∀ t, b.session.registry.contains t ↔
    b.session.Seed disk targets t ∨ b.session.TargetNeeds disk targets t ∨
      ∃ r, b.session.TargetNeeds disk targets r ∧ b.session.loader.library.Refers r t
  followed : ∀ t, b.session.TargetNeeds disk targets t → ∃ d us,
    b.session.loader.library.Declares t d ∧
      b.session.loader.library.referenced ⟨.held t.unit, d⟩ = .ok us
  nodup : g.files.keys.Nodup
  mem_keys : ∀ space, space ∈ g.files.keys ↔
    ∃ t, b.session.TargetNeeds disk targets t ∧ t.space = space
  listing : ∀ space file, g.files.get? space = some file → ∃ types : List TypeId,
    file.types = types.map (·.name) ∧ types.Pairwise TypeId.Precedes ∧
      (∀ t, t ∈ types ↔ b.session.TargetNeeds disk targets t ∧ t.space = space) ∧
      ∀ t ∈ types, t.unit ∈ b.session.loader.targets
  skippedNodup : g.skipped.Nodup
  mem_skipped : ∀ space, space ∈ g.skipped ↔ space ∈ b.session.registry.namespaces ∧
    ∀ t, b.session.TargetNeeds disk targets t → t.space ≠ space
  disjoint : g.files.keys.Disjoint g.skipped
  covers : ∀ space, space ∈ b.session.registry.namespaces ↔
    space ∈ g.files.keys ∨ space ∈ g.skipped

namespace Session

variable {s loaded : Session} {disk : Disk} {destination : Path} {targets searchPaths : List Path}
  {names : List String} {g : Generation} {t : TypeId}

theorem reaches_iff_targetNeeds (honly : s.options.onlyTargetTypes = true) :
    Plan.Reaches ⟨s, destination⟩ (s.Seed disk targets) t ↔ s.TargetNeeds disk targets t := by
  constructor
  · exact fun h => h.mono fun _ => (wants_iff honly).mp
  · exact fun h => h.mono fun _ => (wants_iff honly).mpr

/-- Nothing was followed yet, and every namespace that has a type is queued. -/
theorem Loaded.following (h : Loaded disk targets loaded names) (destination : Path) :
    Plan.Following ⟨loaded, destination⟩ (loaded.Seed disk targets) (loaded.firstStage disk) :=
  { fresh_firstStage h.sound disk destination with
    declared := fun _ ht => h.declared ht
    seeds := fun _ ht => h.contains.mpr (h.seed_iff.mp ht)
    met := fun _ ht => Or.inl (h.seed_iff.mpr (h.contains.mp ht))
    followed := fun _ ht _ => Or.inl (h.mem_queue ht)
    listed := fun _ hspace => Or.inl (h.listed hspace)
    known := fun _ hskipped => by cases hskipped }

/-- A build with a result has followed what its targets and built-in binaries export, until nothing
was queued. -/
theorem exists_following {onlyTargetTypes : Option Document} (hregular : s.loader.Regular)
    (hresult : (s.build disk destination targets searchPaths onlyTargetTypes).result = .ok g) :
    ∃ loaded names said last,
      s.Loading disk targets searchPaths onlyTargetTypes loaded names said ∧
      Loaded disk targets loaded names ∧
      Plan.Following ⟨loaded, destination⟩ (loaded.Seed disk targets) last ∧
      last.registry.queue = [] ∧ (loaded.builtFrom destination last).result = .ok g ∧
      s.build disk destination targets searchPaths onlyTargetTypes =
        { loaded.builtFrom destination last with
          said := said ++ (loaded.builtFrom destination last).said } := by
  obtain ⟨loaded, names, said, hloading, hbuild⟩ := exists_loading hresult
  have hloaded := hloading.toLoaded hregular
  rw [hbuild] at hresult ⊢
  obtain ⟨last, hrun, hqueue, hgenerate⟩ := generate_eq_ok hresult
  rw [hgenerate] at hresult ⊢
  have hfollowing := hrun.following hloaded.loader.sound hloaded.loader.standard.2
    (hloaded.following destination)
  exact ⟨loaded, names, said, last, hloading, hloaded, hfollowing, hqueue, hresult, rfl⟩

/-- What was registered and written when nothing is queued is complete for the targets. -/
theorem completeForTargets_of_following {last : Stage} (hlibrary : s.loader.library.Sound)
    (honly : s.options.onlyTargetTypes = true) (hqueue : last.registry.queue = [])
    (h : Plan.Following ⟨s, destination⟩ (s.Seed disk targets) last)
    (hresult : (s.builtFrom destination last).result = .ok g) :
    (s.builtFrom destination last).CompleteForTargets disk targets g := by
  cases hresult
  have hneeds : ∀ t, Plan.Reaches ⟨s, destination⟩ (s.Seed disk targets) t ↔
      s.TargetNeeds disk targets t := fun t => reaches_iff_targetNeeds honly
  have hkeys : ∀ space, space ∈ (last.events.foldl Generation.note
      ⟨destination, s.loader.targetNames, [], []⟩).files.keys ↔
      ∃ t, s.TargetNeeds disk targets t ∧ t.space = space := by
    intro space
    rw [Generation.mem_keys_foldl_note rfl, h.exists_last_iff hlibrary hqueue]
    simp only [hneeds]
  have hskipped : ∀ space, space ∈ (last.events.foldl Generation.note
      ⟨destination, s.loader.targetNames, [], []⟩).skipped ↔
      space ∈ last.registry.namespaces ∧
        ∀ t, s.TargetNeeds disk targets t → t.space ≠ space := by
    intro space
    rw [Generation.mem_skipped_foldl_note rfl rfl, h.left_out_iff hlibrary hqueue]
    simp only [hneeds]
  refine
    { queue := hqueue
      registered := ?_
      followed := ?_
      nodup := Generation.nodup_keys_foldl_note rfl _
      mem_keys := hkeys
      listing := ?_
      skippedNodup := Generation.nodup_skipped_foldl_note rfl _
      mem_skipped := hskipped
      disjoint := ?_
      covers := ?_ }
  · intro t
    constructor
    · intro ht
      rcases (h.contains_iff_met hlibrary hqueue).mp ht with hseed | ⟨r, hr, hrefers⟩
      · exact Or.inl hseed
      · exact Or.inr (Or.inr ⟨r, (hneeds r).mp hr, hrefers⟩)
    · rintro (hseed | ht | ⟨r, hr, hrefers⟩)
      · exact h.seeds t hseed
      · exact ((h.reaches_iff hlibrary hqueue).mp ((hneeds t).mpr ht)).1
      · exact (h.contains_iff_met hlibrary hqueue).mpr (Or.inr ⟨r, (hneeds r).mpr hr, hrefers⟩)
  · intro t ht
    obtain ⟨hold, hwants⟩ := (h.reaches_iff hlibrary hqueue).mp ((hneeds t).mpr ht)
    obtain ⟨d, us, hdeclares, hus, -⟩ :=
      (h.followed t hold hwants).resolve_left (by simp [hqueue])
    exact ⟨d, us, hdeclares, hus⟩
  · intro space file hfile
    obtain ⟨e, hlast, -, hnames⟩ := Generation.exists_last_of_get?_files rfl hfile
    have hmem : ∀ t, t ∈ e.types ↔ s.TargetNeeds disk targets t ∧ t.space = space := by
      intro t
      rw [h.mem_types_iff_reaches hlibrary hqueue hlast, hneeds]
    exact ⟨e.types, hnames, h.pairwise_types hqueue hlast, hmem,
      fun t ht => ((hmem t).mp ht).1.within⟩
  · intro space hspace hleft
    obtain ⟨t, ht, heq⟩ := (hkeys space).mp hspace
    exact ((hskipped space).mp hleft).2 t ht heq
  · intro space
    rw [hkeys, hskipped]
    constructor
    · intro hspace
      by_cases hneeded : ∃ t, s.TargetNeeds disk targets t ∧ t.space = space
      · exact Or.inl hneeded
      · exact Or.inr ⟨hspace, fun t ht heq => hneeded ⟨t, ht, heq⟩⟩
    · rintro (⟨t, ht, rfl⟩ | ⟨hspace, -⟩)
      · have hold := (h.reaches_iff hlibrary hqueue).mp ((hneeds t).mpr ht)
        exact h.sound.mem_namespaces_of_contains hold.1
      · exact hspace

/-- A build with a result that writes the types of targets alone leaves a stub tree that is
complete for them. Whoever was asked for binaries before, it is enough that those of the session
are linked to each other. -/
theorem build_completeForTargets {allowed : Resolver → Prop} {onlyTargetTypes : Option Document}
    (hreached : s.loader.Reached allowed) (hclosed : s.loader.library.Closed)
    (hresult : (s.build disk destination targets searchPaths onlyTargetTypes).result = .ok g)
    (honly : (s.build disk destination targets searchPaths
      onlyTargetTypes).session.options.onlyTargetTypes = true) :
    (s.build disk destination targets searchPaths onlyTargetTypes).CompleteForTargets disk
      targets g := by
  obtain ⟨loaded, names, said, hloading, hbuild⟩ := exists_loading hresult
  have hloaded := loaded_of_loading hreached.sound hclosed hloading
  rw [hbuild] at hresult honly ⊢
  obtain ⟨last, hrun, hqueue, hgenerate⟩ := generate_eq_ok hresult
  rw [hgenerate] at hresult honly ⊢
  have hlibrary := hloaded.loader.sound
  have hinv := hrun.following hlibrary hloaded.loader.standard.2 (hloaded.following destination)
  have hcomplete := completeForTargets_of_following hlibrary honly hqueue hinv hresult
  exact { hcomplete with }

/-! ## Types beyond the targets -/

/-- A target with a type that refers to one of another binary, which refers back to a type of the
target that is not exported. -/
def borderDisk : Disk :=
  ⟨[], [(["m"], .directory),
    (["m", "T.yaml"], .file ("\n".intercalate
      ["name: T", "references: [N]", "types:", "- name: P.A", "  base: S.V", "- name: Y.H",
        "  visibility: internal"]).toUTF8),
    (["m", "N.yaml"], .file ("\n".intercalate
      ["name: N", "references: [T]", "types:", "- name: S.V", "  base: Y.H"]).toUTF8)]⟩

def borderTarget : Path := ⟨.root, ["m", "T.yaml"]⟩

def borderDestination : Path := ⟨.root, ["m", "out"]⟩

set_option synthInstance.maxSize 1000 in
set_option maxRecDepth 100000 in
theorem border_evaluated :
    ((Session.new {}).buildInOrder borderDisk borderDestination [borderTarget] []
      (some (.bool true))).map (fun b => (b.session.options.onlyTargetTypes,
        b.result.toOption.map fun g => (g.files.map fun f => (f.1, f.2.types), g.skipped))) =
      some (true, some ([(.named "P", ["A"])], [.named "S"])) := by
  decide +kernel

theorem build_completeForTargets_border :
    ∃ g, ((Session.new {}).build borderDisk borderDestination [borderTarget] []
        (some (.bool true))).result = .ok g ∧
      ((Session.new {}).build borderDisk borderDestination [borderTarget] []
        (some (.bool true))).CompleteForTargets borderDisk [borderTarget] g ∧
      g.files.map (fun f => (f.1, f.2.types)) = [(.named "P", ["A"])] ∧
      g.skipped = [.named "S"] := by
  obtain ⟨b, hb, hview⟩ := Option.map_eq_some_iff.mp border_evaluated
  obtain ⟨honly, hrecord⟩ := Prod.mk.inj hview
  obtain ⟨g, hg, hfiles⟩ := Option.map_eq_some_iff.mp hrecord
  have hbuild := build_of_buildInOrder hb
  have hreached : (Session.new {}).loader.Reached (· = .searchPaths) := .new ".yaml"
  have hresult := (congrArg Built.result hbuild).trans (eq_ok_of_toOption hg)
  have honly' := (congrArg (·.session.options.onlyTargetTypes) hbuild).trans honly
  exact ⟨g, hresult, build_completeForTargets hreached hreached.standard.2 hresult honly',
    Prod.mk.inj hfiles⟩

end Session

end StubTree
