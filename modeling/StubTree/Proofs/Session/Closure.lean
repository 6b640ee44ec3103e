import StubTree.Proofs.Session.Following
import StubTree.Proofs.Session.Loading

/-! # Complete stub trees

A build that writes all types registers the least set of types that has what the targets and the
built-in binaries export and is closed under references, and its stubs list this set.

Where all types are written, all of them are wanted, and so every registered type has been followed
at every stage, or its namespace is queued.
-/

namespace StubTree

namespace Plan

variable {p : Plan} {s s' : Stage} {seed : TypeId → Prop} {t : TypeId} {space : Namespace}

/-- What holds at every stage of a run that writes all types. -/
structure Closing (p : Plan) (seed : TypeId → Prop) (s : Stage) : Prop extends Fresh p s where
  declared : ∀ t, s.registry.contains t → ∃ d, p.library.Declares t d
  seeds : ∀ t, seed t → s.registry.contains t
  closure : ∀ t, s.registry.contains t → p.library.Closure seed t
  followed : ∀ t, s.registry.contains t → t.space ∈ s.registry.queue ∨ p.Followed s t
  listed : ∀ space ∈ s.registry.namespaces,
    space ∈ s.registry.queue ∨ ∃ e, lastEmission? space s.events = some e
  emitted : ∀ event ∈ s.events, ∃ e, event = .emitted e

/-- Where all types are written, what holds at every stage of a run comes to this. -/
theorem closing_iff (hall : p.session.options.onlyTargetTypes = false) :
    p.Closing seed s ↔ p.Following seed s ∧ ∀ event ∈ s.events, ∃ e, event = .emitted e := by
  have hwants := Session.wants_of_all hall
  constructor
  · intro h
    refine
      ⟨{ h.toFresh with
          declared := h.declared
          seeds := h.seeds
          met := ?_
          followed := fun t ht _ => h.followed t ht
          listed := fun space hspace => (h.listed space hspace).imp_right Or.inl
          known := ?_ }, h.emitted⟩
    · intro t ht
      cases h.closure t ht with
      | seed hseed => exact Or.inl hseed
      | refers hr hrefers => exact Or.inr ⟨_, .of_closure hwants hr, hrefers⟩
    · intro space hskipped
      obtain ⟨e, he⟩ := h.emitted _ hskipped
      cases he
  · rintro ⟨h, hemitted⟩
    refine
      { h.toFresh with
        declared := h.declared
        seeds := h.seeds
        closure := ?_
        followed := fun t ht => h.followed t ht (hwants t)
        listed := ?_
        emitted := hemitted }
    · intro t ht
      rcases h.met t ht with hseed | ⟨r, hr, hrefers⟩
      · exact .seed hseed
      · exact .refers hr.closure hrefers
    · intro space hspace
      refine (h.listed space hspace).imp_right fun hend => hend.resolve_right ?_
      rintro ⟨hskipped, -⟩
      obtain ⟨e, he⟩ := hemitted _ hskipped
      cases he

/-! ## One round -/

/-- A namespace in the queue has types, so none is left out where all types are written. -/
theorem select_ne_nil {members : List TypeId} {registry : Registry}
    (hall : p.session.options.onlyTargetTypes = false) (hsound : s.registry.Sound)
    (hpop : s.registry.pop? = some ((space, members), registry)) :
    p.session.select members ≠ [] := by
  obtain ⟨hqueue, rfl, -⟩ := Registry.pop?_eq_some hpop
  have hspace : space ∈ s.registry.namespaces := hsound.known space (hqueue ▸ List.mem_cons_self)
  obtain ⟨t, ht⟩ := List.exists_mem_of_ne_nil _ ((hsound.inhabited space).mp hspace)
  exact List.ne_nil_of_mem ((Session.mem_select_of_all hall).mpr ht)

theorem Round.all_emitted (h : p.Round s s') (hall : p.session.options.onlyTargetTypes = false)
    (hsound : s.registry.Sound) (hemitted : ∀ event ∈ s.events, ∃ e, event = .emitted e) :
    ∀ event ∈ s'.events, ∃ e, event = .emitted e := by
  cases h with
  | skipped hpop hselect => exact absurd hselect (select_ne_nil hall hsound hpop)
  | @emitted e =>
      intro event hevent
      rcases List.mem_append.mp hevent with hold | hnew
      · exact hemitted event hold
      · exact ⟨e, List.mem_singleton.mp hnew⟩

theorem Round.closing (h : p.Round s s') (hall : p.session.options.onlyTargetTypes = false)
    (hlibrary : p.library.Sound) (hclosed : p.library.Closed) (hinv : p.Closing seed s) :
    p.Closing seed s' := by
  obtain ⟨hfollowing, hemitted⟩ := (closing_iff hall).mp hinv
  exact (closing_iff hall).mpr
    ⟨h.following hlibrary hclosed hfollowing, h.all_emitted hall hinv.sound hemitted⟩

theorem Run.closing (h : p.Run s s') (hall : p.session.options.onlyTargetTypes = false)
    (hlibrary : p.library.Sound) (hclosed : p.library.Closed) (hinv : p.Closing seed s) :
    p.Closing seed s' :=
  h.preserves (fun hround => hround.closing hall hlibrary hclosed) hinv

/-! ## The end of a run -/

namespace Closing

/-- When nothing is queued, the registered types are closed under references. -/
theorem contains_iff (h : p.Closing seed s) (hlibrary : p.library.Sound)
    (hqueue : s.registry.queue = []) : s.registry.contains t ↔ p.library.Closure seed t := by
  refine ⟨h.closure t, ?_⟩
  intro hclosure
  refine hclosure.subset h.seeds ?_
  rintro t u ht ⟨d, us, hdeclares, hus, hu⟩
  obtain ⟨d', us', hdeclares', hus', hall⟩ := (h.followed t ht).resolve_left (by simp [hqueue])
  rw [hlibrary.declares_unique hdeclares' hdeclares, hus] at hus'
  cases hus'
  exact hall u hu

/-- When nothing is queued, the namespaces that have a stub are those that have types. -/
theorem mem_namespaces_iff (h : p.Closing seed s) (hqueue : s.registry.queue = []) :
    space ∈ s.registry.namespaces ↔ ∃ e, lastEmission? space s.events = some e := by
  constructor
  · exact fun hspace => (h.listed space hspace).resolve_left (by simp [hqueue])
  · rintro ⟨e, hlast⟩
    rw [h.sound.inhabited]
    intro hnone
    apply (h.upToDate space e hlast).wanted
    simp [hnone, Session.select]

/-- When nothing is queued, the last stub of a namespace lists its registered types. -/
theorem mem_types_iff (h : p.Closing seed s) (hall : p.session.options.onlyTargetTypes = false)
    (hqueue : s.registry.queue = []) {e : Emission}
    (hlast : lastEmission? space s.events = some e) :
    t ∈ e.types ↔ s.registry.contains t ∧ t.space = space := by
  rw [h.types_eq hqueue hlast, Session.mem_select_of_all hall, h.sound.mem_members_iff]

end Closing

end Plan

/-- What a build starts from: the exported types of the binaries that the targets declare, and of
the built-in binaries. -/
def Session.Seed (s : Session) (disk : Disk) (targets : List Path) (t : TypeId) : Prop :=
  (∃ path ∈ targets, ∃ name, Loader.Declared disk path name ∧
    t ∈ s.loader.library.exported name) ∨
  ∃ identity ∈ s.options.builtinBinaries, t ∈ s.loader.library.exported (shortName identity)

/-- The types that a complete stub tree has. -/
def Session.Needs (s : Session) (disk : Disk) (targets : List Path) : TypeId → Prop :=
  s.loader.library.Closure (s.Seed disk targets)

/-- A stub tree that lists all types it has to, each once and in its place. -/
structure Built.Complete (b : Built) (disk : Disk) (targets : List Path) (g : Generation) :
    Prop where
  queue : b.session.registry.queue = []
  registered : ∀ t, b.session.registry.contains t ↔ b.session.Needs disk targets t
  followed : ∀ t, b.session.Needs disk targets t → ∃ d us,
    b.session.loader.library.Declares t d ∧
      b.session.loader.library.referenced ⟨.held t.unit, d⟩ = .ok us
  nodup : g.files.keys.Nodup
  mem_keys : ∀ space, space ∈ g.files.keys ↔
    ∃ t, b.session.Needs disk targets t ∧ t.space = space
  listing : ∀ space file, g.files.get? space = some file → ∃ types : List TypeId,
    file.types = types.map (·.name) ∧ types.Pairwise TypeId.Precedes ∧
      ∀ t, t ∈ types ↔ b.session.Needs disk targets t ∧ t.space = space
  skipped : g.skipped = []
  size : {t | b.session.Needs disk targets t}.encard = g.typeCount

namespace Session

variable {s loaded : Session} {disk : Disk} {destination : Path} {targets searchPaths : List Path}
  {names : List String} {g : Generation} {t : TypeId}

/-- The types that a build has registered before its first round. -/
theorem Loaded.contains (h : Loaded disk targets loaded names) :
    loaded.registry.contains t ↔ t ∈ names.flatMap loaded.loader.library.exported := by
  rw [h.registry, Registry.contains_addAll]
  simp [Registry.contains, Registry.members, Keyed.get?]

theorem Loaded.seed_iff (h : Loaded disk targets loaded names) :
    loaded.Seed disk targets t ↔ t ∈ names.flatMap loaded.loader.library.exported := by
  obtain ⟨found, hfound, rfl⟩ := h.found
  rw [List.flatMap_append, List.mem_append, Loader.mem_flatMap_of_declared hfound]
  simp [Seed]

theorem Loaded.sound (h : Loaded disk targets loaded names) : loaded.registry.Sound := by
  rw [h.registry]
  exact Registry.Sound.empty.addAll _

/-- Before the first round, every namespace that has a type is queued. -/
theorem Loaded.mem_queue (h : Loaded disk targets loaded names)
    (ht : loaded.registry.contains t) : t.space ∈ loaded.registry.queue := by
  by_contra hnone
  rw [h.registry] at ht hnone
  rw [Registry.contains, Registry.members_addAll_of_not_mem_queue .empty hnone] at ht
  simp [Registry.members, Keyed.get?] at ht

theorem Loaded.listed (h : Loaded disk targets loaded names) {space : Namespace}
    (hspace : space ∈ loaded.registry.namespaces) : space ∈ loaded.registry.queue := by
  obtain ⟨t, ht, rfl⟩ := h.sound.exists_contains_of_mem_namespaces hspace
  exact h.mem_queue ht

theorem Loaded.declared (h : Loaded disk targets loaded names)
    (ht : loaded.registry.contains t) : ∃ d, loaded.loader.library.Declares t d := by
  obtain ⟨name, -, hexported⟩ := List.mem_flatMap.mp (h.contains.mp ht)
  exact Library.declares_of_mem_exported hexported

/-- Nothing was followed yet, and every namespace that has a type is queued. -/
theorem Loaded.closing (h : Loaded disk targets loaded names) (destination : Path) :
    Plan.Closing ⟨loaded, destination⟩ (loaded.Seed disk targets) (loaded.firstStage disk) :=
  { fresh_firstStage h.sound disk destination with
    declared := fun _ ht => h.declared ht
    seeds := fun t ht => h.contains.mpr (h.seed_iff.mp ht)
    closure := fun t ht => .seed (h.seed_iff.mpr (h.contains.mp ht))
    followed := fun t ht => Or.inl (h.mem_queue ht)
    listed := fun _ hspace => Or.inl (h.listed hspace)
    emitted := fun _ hevent => by cases hevent }

/-- The types on record are counted as the registered ones. -/
theorem typeCount_of_closing {last : Stage} (hall : s.options.onlyTargetTypes = false)
    (hqueue : last.registry.queue = []) {seed : TypeId → Prop}
    (h : Plan.Closing ⟨s, destination⟩ seed last)
    (hresult : (s.builtFrom destination last).result = .ok g) :
    {t | last.registry.contains t}.encard = g.typeCount := by
  cases hresult
  have hnodup := Generation.nodup_keys_foldl_note
    (g := ⟨destination, s.loader.targetNames, [], []⟩) rfl last.events
  rw [h.sound.encard_contains hnodup, Generation.typeCount_eq_total hnodup]
  · intro space file hfile
    obtain ⟨e, hlast, -, hnames⟩ := Generation.exists_last_of_get?_files rfl hfile
    rw [hnames, List.length_map, h.types_eq hqueue hlast, length_select_of_all hall]
  · intro t ht
    rw [Generation.mem_keys_foldl_note rfl, ← h.mem_namespaces_iff hqueue]
    exact h.sound.mem_namespaces_of_contains ht

/-- What was registered and written when nothing is queued is complete. -/
theorem complete_of_closing {last : Stage} (hlibrary : s.loader.library.Sound)
    (hall : s.options.onlyTargetTypes = false) (hqueue : last.registry.queue = [])
    (h : Plan.Closing ⟨s, destination⟩ (s.Seed disk targets) last)
    (hresult : (s.builtFrom destination last).result = .ok g) :
    (s.builtFrom destination last).Complete disk targets g := by
  cases hresult
  have hneeds : ∀ t, last.registry.contains t ↔ s.Needs disk targets t :=
    fun t => h.contains_iff hlibrary hqueue
  refine
    { queue := hqueue
      registered := hneeds
      followed := ?_
      nodup := Generation.nodup_keys_foldl_note rfl _
      mem_keys := ?_
      listing := ?_
      skipped := Generation.skipped_foldl_note rfl h.emitted
      size := ?_ }
  · intro t ht
    obtain ⟨d, us, hdeclares, hus, -⟩ :=
      (h.followed t ((hneeds t).mpr ht)).resolve_left (by simp [hqueue])
    exact ⟨d, us, hdeclares, hus⟩
  · intro space
    rw [Generation.mem_keys_foldl_note rfl, ← h.mem_namespaces_iff hqueue]
    constructor
    · intro hspace
      obtain ⟨t, ht, hplaced⟩ := h.sound.exists_contains_of_mem_namespaces hspace
      exact ⟨t, (hneeds t).mp ht, hplaced⟩
    · rintro ⟨t, ht, rfl⟩
      exact h.sound.mem_namespaces_of_contains ((hneeds t).mpr ht)
  · intro space file hfile
    obtain ⟨e, hlast, -, hnames⟩ := Generation.exists_last_of_get?_files rfl hfile
    refine ⟨e.types, hnames, h.pairwise_types hqueue hlast, ?_⟩
    intro t
    rw [h.mem_types_iff hall hqueue hlast, hneeds]
    rfl
  · have hset : {t | s.Needs disk targets t} = {t | last.registry.contains t} := by
      ext t
      exact (hneeds t).symm
    rw [← typeCount_of_closing hall hqueue h rfl, ← hset]
    rfl

/-- A build with a result that writes all types leaves a complete stub tree. -/
theorem build_complete {onlyTargetTypes : Option Document}
    (hreached : s.loader.Reached (· = .searchPaths))
    (hresult : (s.build disk destination targets searchPaths onlyTargetTypes).result = .ok g)
    (hall : (s.build disk destination targets searchPaths
      onlyTargetTypes).session.options.onlyTargetTypes = false) :
    (s.build disk destination targets searchPaths onlyTargetTypes).Complete disk targets g := by
  obtain ⟨loaded, names, said, hloaded, hbuild⟩ := build_eq_ok hreached hresult
  rw [hbuild] at hresult hall ⊢
  obtain ⟨last, hrun, hqueue, hgenerate⟩ := generate_eq_ok hresult
  rw [hgenerate] at hresult hall ⊢
  have hlibrary := hloaded.loader.sound
  have hinv := hrun.closing hall hlibrary hloaded.loader.standard.2 (hloaded.closing destination)
  have hcomplete := complete_of_closing hlibrary hall hqueue hinv hresult
  exact { hcomplete with }

theorem build_complete_late :
    ∃ g, ((Session.new {}).build lateDisk lateDestination [lateTarget] [] none).result = .ok g ∧
      ((Session.new {}).build lateDisk lateDestination [lateTarget] [] none).Complete lateDisk
        [lateTarget] g ∧
      g.files.values.map (·.types) = [["T", "W"], ["V"]] := by
  obtain ⟨hnames, hoptions, -, -⟩ := late_evaluated
  obtain ⟨last, hgenerate, hfiles⟩ := late_generated
  have hprepare : (Session.new {}).prepare lateDisk [] =
      (((Session.new {}).prepare lateDisk []).1, .ok ()) := rfl
  have hok : lateLoading.2.2 = .ok ["A"] := eq_ok_of_toOption hnames
  have htargets : lateLoading = (lateLoading.1, lateLoading.2.1, .ok ["A"]) := by
    rw [← hok]
  have hbuiltins : lateLoading.1.options.builtinBinaries = [] := by rw [hoptions]
  have hbuild : (Session.new {}).build lateDisk lateDestination [lateTarget] [] none = _ :=
    build_of_loadTargets hprepare htargets hbuiltins
  have hresult : ((Session.new {}).build lateDisk lateDestination [lateTarget] [] none).result =
      .ok (lateRecord last) := by
    rw [hbuild, hgenerate]
    rfl
  have hall : ((Session.new {}).build lateDisk lateDestination [lateTarget] []
      none).session.options.onlyTargetTypes = false := by
    rw [hbuild, hgenerate, builtFrom, hoptions]
  have hreached : (Session.new {}).loader.Reached (· = .searchPaths) := .new ".yaml"
  refine ⟨_, hresult, build_complete hreached hresult hall, ?_⟩
  have htypes := congrArg (List.map Prod.fst) hfiles
  rw [List.map_map] at htypes
  exact htypes

end Session

end StubTree
