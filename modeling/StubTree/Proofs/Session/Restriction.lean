import StubTree.Proofs.Session.Targets

/-! # What a stub tree of targets leaves out

A build that writes the types of targets alone writes no type that a build of all types does not,
but it can write fewer of the targets' types: it follows no reference out of the targets, and so
misses the types that are reached only on the way back.
-/

namespace StubTree

namespace Built

/-- The types in the stub of a namespace. -/
def typesOf (b : Built) (space : Namespace) : List TypeId :=
  ((lastEmission? space b.events).map (·.types)).getD []

/-- What the record lists are the types in the stubs, by name. -/
def Lists (b : Built) : Prop :=
  ∀ g space, b.result = .ok g →
    ((g.files.get? space).map (·.types)).getD [] = (b.typesOf space).map (·.name)

/-- What a build of the types of targets writes, compared with a build of all types. It writes all
types of targets that the other one does if and only if no reference from beyond the targets leads
to others of them. -/
structure Restricts (b' b : Built) (disk : Disk) (targets : List Path) : Prop where
  listed : b.Lists ∧ b'.Lists
  loader : b'.session.loader = b.session.loader
  written : ∀ space t, t ∈ b'.typesOf space ↔
    t ∈ b.typesOf space ∧ b.session.TargetNeeds disk targets t
  declared : ∀ space, ∀ t ∈ b'.typesOf space, t.unit ∈ b.session.loader.targets
  all_iff : (∀ space t, t ∈ b'.typesOf space ↔
      t ∈ b.typesOf space ∧ t.unit ∈ b.session.loader.targets) ↔
    ∀ r t, b.session.Needs disk targets r → r.unit ∉ b.session.loader.targets →
      b.session.loader.library.Refers r t → t.unit ∈ b.session.loader.targets →
      b.session.TargetNeeds disk targets t

end Built

namespace Session

variable {s s' : Session} {disk : Disk} {destination destination' : Path}
  {targets searchPaths : List Path} {last last' : Stage} {g g' : Generation} {t : TypeId}
  {space : Namespace}

theorem lists_builtFrom (s : Session) (destination : Path) (last : Stage) :
    (s.builtFrom destination last).Lists := by
  intro g space hresult
  cases hresult
  rw [Generation.get?_files_foldl_note rfl, StubFile.of?, Built.typesOf, builtFrom, lastEmission?]
  cases (emissionsOf space last.events).getLast? <;> rfl

theorem lists_build (s : Session) (disk : Disk) (destination : Path)
    (targets searchPaths : List Path) (choice : Option Document) :
    (s.build disk destination targets searchPaths choice).Lists := by
  intro g space hresult
  obtain ⟨loaded, names, said, -, hbuild⟩ := exists_loading hresult
  rw [hbuild] at hresult ⊢
  obtain ⟨last, -, -, hgenerate⟩ := generate_eq_ok hresult
  rw [hgenerate] at hresult ⊢
  exact lists_builtFrom loaded destination last g space hresult

theorem mem_typesOf {seed : TypeId → Prop} (hlibrary : s.loader.library.Sound)
    (hqueue : last.registry.queue = []) (h : Plan.Following ⟨s, destination⟩ seed last) :
    t ∈ (s.builtFrom destination last).typesOf space ↔
      Plan.Reaches ⟨s, destination⟩ seed t ∧ t.space = space := by
  rw [Built.typesOf]
  constructor
  · intro ht
    cases hlast : lastEmission? space last.events with
    | none =>
        rw [builtFrom, hlast] at ht
        cases ht
    | some e =>
        rw [builtFrom, hlast] at ht
        exact (h.mem_types_iff_reaches hlibrary hqueue hlast).mp ht
  · rintro ⟨ht, rfl⟩
    obtain ⟨e, hlast⟩ := (h.exists_last_iff hlibrary hqueue).mpr ⟨t, ht, rfl⟩
    rw [builtFrom, hlast]
    exact (h.mem_types_iff_reaches hlibrary hqueue hlast).mpr ⟨ht, rfl⟩

theorem reaches_iff_needs (hall : s.options.onlyTargetTypes = false) :
    Plan.Reaches ⟨s, destination⟩ (s.Seed disk targets) t ↔ s.Needs disk targets t := by
  constructor
  · exact Library.ClosureWithin.closure
  · exact Library.ClosureWithin.of_closure (wants_of_all hall)

/-- Two runs from the same seeds, of all types and of the types of targets. -/
theorem restricts_of_following (hlibrary : s.loader.library.Sound)
    (hloader : s'.loader = s.loader) (hseed : s'.Seed disk targets = s.Seed disk targets)
    (hall : s.options.onlyTargetTypes = false) (honly : s'.options.onlyTargetTypes = true)
    (hqueue : last.registry.queue = []) (hqueue' : last'.registry.queue = [])
    (h : Plan.Following ⟨s, destination⟩ (s.Seed disk targets) last)
    (h' : Plan.Following ⟨s', destination'⟩ (s'.Seed disk targets) last') :
    (s'.builtFrom destination' last').Restricts (s.builtFrom destination last) disk targets := by
  have hneeds : s'.TargetNeeds disk targets = s.TargetNeeds disk targets := by
    rw [TargetNeeds, TargetNeeds, hloader, hseed]
  have hwritten : ∀ space t, t ∈ (s.builtFrom destination last).typesOf space ↔
      s.Needs disk targets t ∧ t.space = space := by
    intro space t
    rw [mem_typesOf hlibrary hqueue h, reaches_iff_needs hall]
  have hwritten' : ∀ space t, t ∈ (s'.builtFrom destination' last').typesOf space ↔
      s.TargetNeeds disk targets t ∧ t.space = space := by
    intro space t
    rw [mem_typesOf (hloader ▸ hlibrary) hqueue' h', reaches_iff_targetNeeds honly, hneeds]
  refine
    { listed := ⟨lists_builtFrom _ _ _, lists_builtFrom _ _ _⟩
      loader := hloader
      written := ?_
      declared := fun space t ht => ((hwritten' space t).mp ht).1.within
      all_iff := ?_ }
  · intro space t
    rw [hwritten, hwritten']
    exact ⟨fun ht => ⟨⟨ht.1.closure, ht.2⟩, ht.1⟩, fun ht => ⟨ht.2, ht.1.2⟩⟩
  · constructor
    · intro hequal r t hr _ hrefers ht
      have hmem := (hwritten t.space t).mpr ⟨.refers hr hrefers, rfl⟩
      exact ((hwritten' t.space t).mp ((hequal t.space t).mpr ⟨hmem, ht⟩)).1
    · intro hreturn space t
      rw [hwritten, hwritten']
      constructor
      · exact fun ht => ⟨⟨ht.1.closure, ht.2⟩, ht.1.within⟩
      · exact fun ht => ⟨.of_closure_of_return ht.1.1 ht.2 hreturn, ht.1.2⟩

theorem regular_new (o : Options) : (Session.new o).loader.Regular :=
  (Loader.Reached.new o.manifestSuffix).regular

/-- What two builds of new sessions with the same options write, one of them of all types and the
other one of the types of targets alone. -/
theorem build_restricts {o : Options} {only only' : Bool} {choice choice' : Option Document}
    {b b' : Built}
    (hb : (Session.new { o with onlyTargetTypes := only }).build disk destination targets
      searchPaths choice = b)
    (hb' : (Session.new { o with onlyTargetTypes := only' }).build disk destination' targets
      searchPaths choice' = b')
    (hresult : b.result = .ok g) (hresult' : b'.result = .ok g')
    (hall : b.session.options.onlyTargetTypes = false)
    (honly : b'.session.options.onlyTargetTypes = true) : b'.Restricts b disk targets := by
  rw [← hb] at hresult
  rw [← hb'] at hresult'
  obtain ⟨loaded, names, said, hloading, hbuild⟩ := exists_loading hresult
  obtain ⟨loaded', names', said', hloading', hbuild'⟩ := exists_loading hresult'
  have hloaded := loaded_of_loading (regular_new _).sound (regular_new _).standard.2 hloading
  have hloaded' := loaded_of_loading (regular_new _).sound (regular_new _).standard.2 hloading'
  obtain ⟨hloader, hnames⟩ := hloading.congr hloading' rfl rfl
  have hseed : loaded'.Seed disk targets = loaded.Seed disk targets := by
    ext t
    rw [hloaded.seed_iff, hloaded'.seed_iff, hloader, hnames]
  rw [hbuild] at hb hresult
  rw [hbuild'] at hb' hresult'
  subst hb hb'
  obtain ⟨last, hrun, hqueue, hgenerate⟩ := generate_eq_ok hresult
  obtain ⟨last', hrun', hqueue', hgenerate'⟩ := generate_eq_ok hresult'
  rw [hgenerate] at hall ⊢
  rw [hgenerate'] at honly ⊢
  have hlibrary := hloaded.loader.sound
  have hinv := hrun.following hlibrary hloaded.loader.standard.2 (hloaded.following destination)
  have hinv' := hrun'.following hloaded'.loader.sound hloaded'.loader.standard.2
    (hloaded'.following destination')
  have hrestricts := restricts_of_following hlibrary hloader hseed hall honly hqueue hqueue' hinv
    hinv'
  exact { hrestricts with }

/-! ## A type that is reached on the way back -/

/-- The build of all types of the example. -/
def borderAll : Built :=
  (Session.new {}).build borderDisk borderDestination [borderTarget] [] (some (.bool false))

/-- The build of the types of its target alone. -/
def borderOnly : Built :=
  (Session.new {}).build borderDisk borderDestination [borderTarget] [] (some (.bool true))

set_option synthInstance.maxSize 1000 in
set_option maxRecDepth 100000 in
theorem borderAll_evaluated :
    ((Session.new {}).buildInOrder borderDisk borderDestination [borderTarget] []
      (some (.bool false))).map (fun b => (b.session.options.onlyTargetTypes,
        b.result.toOption.isSome, b.typesOf (.named "Y"), b.session.loader.targets)) =
      some (false, true, [⟨.named "Y", "H", "T"⟩], ["T"]) := by
  decide +kernel

theorem borderAll_result :
    ∃ g, borderAll.result = .ok g ∧ borderAll.session.options.onlyTargetTypes = false ∧
      borderAll.typesOf (.named "Y") = [⟨.named "Y", "H", "T"⟩] ∧
      borderAll.session.loader.targets = ["T"] := by
  obtain ⟨b, hb, hview⟩ := Option.map_eq_some_iff.mp borderAll_evaluated
  rw [borderAll, build_of_buildInOrder hb]
  simp only [Prod.mk.injEq] at hview
  obtain ⟨hall, hsome, htypes, htargets⟩ := hview
  obtain ⟨g, hg⟩ := Option.isSome_iff_exists.mp hsome
  exact ⟨g, eq_ok_of_toOption hg, hall, htypes, htargets⟩

theorem borderOnly_result :
    ∃ g, borderOnly.result = .ok g ∧ borderOnly.session.options.onlyTargetTypes = true ∧
      g.files.keys = [.named "P"] := by
  obtain ⟨b, hb, hview⟩ := Option.map_eq_some_iff.mp border_evaluated
  rw [borderOnly, build_of_buildInOrder hb]
  obtain ⟨honly, hrecord⟩ := Prod.mk.inj hview
  obtain ⟨g, hg, hfiles⟩ := Option.map_eq_some_iff.mp hrecord
  refine ⟨g, eq_ok_of_toOption hg, honly, ?_⟩
  have hkeys := congrArg (List.map Prod.fst) (Prod.mk.inj hfiles).1
  rw [List.map_map] at hkeys
  exact hkeys

theorem build_restricts_border : borderOnly.Restricts borderAll borderDisk [borderTarget] := by
  obtain ⟨g, hresult, hall, -⟩ := borderAll_result
  obtain ⟨g', hresult', honly, -⟩ := borderOnly_result
  have hb : (Session.new { ({} : Options) with onlyTargetTypes := false }).build borderDisk
      borderDestination [borderTarget] [] (some (.bool false)) = borderAll := rfl
  have hb' : (Session.new { ({} : Options) with onlyTargetTypes := false }).build borderDisk
      borderDestination [borderTarget] [] (some (.bool true)) = borderOnly := rfl
  exact build_restricts hb hb' hresult hresult' hall honly

/-- The type that the other binary leads back to is a target's, and only the build of all types
writes it. -/
theorem not_all_targets_border :
    (∃ g, borderAll.result = .ok g) ∧ (∃ g, borderOnly.result = .ok g) ∧
      borderAll.session.options.onlyTargetTypes = false ∧
      borderOnly.session.options.onlyTargetTypes = true ∧
      ¬ ∀ space t, t ∈ borderOnly.typesOf space ↔
        t ∈ borderAll.typesOf space ∧ t.unit ∈ borderAll.session.loader.targets := by
  obtain ⟨g, hresult, hall, htypes, htargets⟩ := borderAll_result
  obtain ⟨g', hresult', honly, hkeys⟩ := borderOnly_result
  refine ⟨⟨g, hresult⟩, ⟨g', hresult'⟩, hall, honly, ?_⟩
  intro hequal
  have hwritten := (hequal (.named "Y") ⟨.named "Y", "H", "T"⟩).mpr
    (by simp [htypes, htargets])
  have hlists : borderOnly.Lists := lists_build _ _ _ _ _ _
  have hnone : g'.files.get? (.named "Y") = none := by
    rw [Keyed.get?_eq_none_iff, hkeys]
    decide
  have hnames := hlists g' (.named "Y") hresult'
  rw [hnone] at hnames
  have hempty := List.map_eq_nil_iff.mp hnames.symm
  rw [hempty] at hwritten
  cases hwritten

end Session

end StubTree
