import StubTree.Proofs.Session.Agreement
import StubTree.Proofs.Session.OneDirectory
import StubTree.Proofs.Session.Restriction

/-! # Sessions that are used again

A session that has built before still has the binaries, the targets and the search paths of its
builds. Where all its manifests stand in one directory, and stay there, a new session loads nothing
that the used one does not have, and has it in the same way. So both register the same types before
the first round, and then every round of the one is a round of the other: the used session cannot be
told from a new one by its stub tree.
-/

namespace StubTree

open Loader (Stocked KeepsManifests Declared)

/-- A build that writes what another one writes, step by step, and has the same record of it. It may
have more targets. -/
structure Built.Repeats (b' b : Built) (g' g : Generation) : Prop where
  events : b'.events = b.events
  record : g' = { g with targets := g'.targets }
  targets : g.targets ⊆ g'.targets

namespace Session

variable {disk disk' : Disk} {dir destination : Path} {suffix : String}
  {s loaded loaded' : Session} {targets searchPaths : List Path} {names names' : List String}
  {said : List Progress} {choice : Option Document} {o : Options} {g g' : Generation}

/-- The sessions that builds from one directory have left, with the disk on which the next one
starts. None of the builds failed to load a binary, though it may have failed later; whatever else
happened to the disk, the manifests of the directory have stayed. -/
inductive Reused (suffix : String) (dir : Path) : Disk → Session → Prop
  | new {o : Options} (disk : Disk) (hsuffix : o.manifestSuffix = suffix) :
      Reused suffix dir disk (.new o)
  | build {disk disk' : Disk} {s : Session} {targets searchPaths : List Path}
      {choice : Option Document} (destination : Path) (h : Reused suffix dir disk s)
      (hdir : OneDirectory disk suffix dir targets searchPaths)
      (hload : ∀ chosen, s.choose choice = .ok chosen →
        s.CanLoad disk targets searchPaths choice)
      (hkeeps : KeepsManifests disk disk' suffix dir) :
      Reused suffix dir disk' (s.build disk destination targets searchPaths choice).session

theorem options_generate (s : Session) (disk : Disk) (destination : Path) :
    (s.generate disk destination).session.options = s.options := by
  rw [generate]
  split <;> rfl

/-- What a session has left from its builds it has looked up in the directory. -/
theorem Reused.stocked (h : Reused suffix dir disk s) :
    Stocked disk suffix dir s.loader ∧ s.options.manifestSuffix = suffix := by
  induction h with
  | new disk hsuffix =>
      subst hsuffix
      exact ⟨.new disk _ dir, rfl⟩
  | @build disk disk' s targets searchPaths choice destination _ hdir hload hkeeps ih =>
      obtain ⟨hstocked, hsuffix⟩ := ih
      cases hchoose : s.choose choice with
      | error fault =>
          rw [Session.build, hchoose]
          exact ⟨hstocked.transfer hkeeps, hsuffix⟩
      | ok chosen =>
          obtain ⟨loaded, names, said, hloading⟩ := hload chosen hchoose
          obtain ⟨only, hoptions⟩ := hloading.options
          rw [build_of_loading hloading destination]
          dsimp only
          rw [loader_generate, options_generate, hoptions]
          exact ⟨(stocked_of_loading hstocked hdir hloading).transfer hkeeps, hsuffix⟩

/-! ## A new session beside a used one -/

/-- What a new session loads makes it agree with one that has loaded the same targets before. -/
theorem agree_of_new (hdir : OneDirectory disk o.manifestSuffix dir targets searchPaths)
    (h : (Session.new o).Loading disk targets searchPaths choice loaded names said)
    (hstocked' : Stocked disk o.manifestSuffix dir loaded'.loader)
    (hloaded' : Loaded disk targets loaded' names') (hoptions : loaded'.options = loaded.options)
    (hall : loaded.options.onlyTargetTypes = false) (destination : Path) :
    loaded'.registry = loaded.registry ∧
      Plan.Agree ⟨loaded, destination⟩ ⟨loaded', destination⟩ (loaded.Seed disk targets)
        (loaded'.Seed disk targets) := by
  have hnew := Stocked.new disk o.manifestSuffix dir
  have hloaded := h.toLoaded (regular_new o)
  have hbuiltins := congrArg (·.builtinBinaries) hoptions
  have hwithin := within_of_subset hnew hdir h hstocked' hloaded' (List.nil_subset _)
    (List.Subset.refl _) hbuiltins
  obtain rfl := hloaded.names_eq hloaded' hbuiltins
  refine ⟨registry_eq_of_within hloaded hloaded' hwithin, ?_⟩
  refine agree_of_within hloaded hloaded' hoptions (fun _ => Iff.rfl) hwithin ?_ destination
  exact fun t => iff_of_true (wants_of_all (hoptions ▸ hall) t) (wants_of_all hall t)

/-- Runs with the same events leave the same record, up to the targets. -/
theorem repeats_builtFrom {last last' : Stage} (hevents : last'.events = last.events)
    (htargets : loaded.loader.targets ⊆ loaded'.loader.targets)
    (hresult : (loaded.builtFrom destination last).result = .ok g)
    (hresult' : (loaded'.builtFrom destination last').result = .ok g') :
    (loaded'.builtFrom destination last').Repeats (loaded.builtFrom destination last) g' g := by
  cases hresult
  cases hresult'
  refine { events := hevents, record := ?_, targets := ?_ }
  · rw [Generation.targets_foldl_note, ← Generation.foldl_note_targets, hevents]
  · rw [Generation.targets_foldl_note, Generation.targets_foldl_note]
    intro name hname
    have hmem : name ∈ loaded.loader.targets := (List.mergeSort_perm _ _).mem_iff.mp hname
    exact (List.mergeSort_perm _ _).mem_iff.mpr (htargets hmem)

section

variable (hreused : Reused suffix dir disk s)
  (hdir : OneDirectory disk suffix dir targets searchPaths)
  (hresult : (s.build disk destination targets searchPaths choice).result = .ok g)
  (hall : (s.build disk destination targets searchPaths
    choice).session.options.onlyTargetTypes = false)

include hreused hdir hresult hall

/-- Whatever a new session builds on a disk with the same manifests, the used one has built. -/
theorem repeats_of_new (hhome : disk'.home = disk.home)
    (hkeeps : KeepsManifests disk disk' suffix dir)
    (hresult' : ((Session.new s.options).build disk' destination targets searchPaths
      choice).result = .ok g') :
    (s.build disk destination targets searchPaths choice).Repeats
      ((Session.new s.options).build disk' destination targets searchPaths choice) g g' := by
  obtain ⟨hstocked, rfl⟩ := hreused.stocked
  have hregular := hstocked.reached.regular
  obtain ⟨loaded, names, said, hloading, hbuild⟩ := exists_loading hresult
  obtain ⟨new, newNames, newSaid, hnewLoading, hnewBuild⟩ := exists_loading hresult'
  have hloaded := hloading.toLoaded hregular
  have hoptions := hnewLoading.options_eq hloading rfl
  rw [hbuild] at hresult hall ⊢
  rw [hnewBuild] at hresult' ⊢
  rw [options_generate, hoptions] at hall
  -- What the used session has loaded it could have loaded from the other disk.
  have htransfer : ∀ path ∈ targets, ∀ name, Declared disk path name → Declared disk' path name :=
    fun path hpath name hname => (hdir.declared_transfer hhome hkeeps hpath hname).2
  have hdir' := hdir.transfer hhome hkeeps fun path hpath => by
    obtain ⟨name, -, hname⟩ := hloaded.exists_declared hpath
    exact ⟨name, hname⟩
  have hloaded' := hloaded.transfer htransfer
  have hstocked' := (stocked_of_loading hstocked hdir hloading).transfer hkeeps
  obtain ⟨hregistry, hagree⟩ :=
    agree_of_new hdir' hnewLoading hstocked' hloaded' hoptions hall destination
  have hnew := hnewLoading.toLoaded (regular_new _)
  obtain ⟨last, hrun, hqueue, hgenerate⟩ := generate_eq_ok hresult
  obtain ⟨newLast, hnewRun, hnewQueue, hnewGenerate⟩ := generate_eq_ok hresult'
  obtain ⟨-, hevents⟩ := hagree.run_eq (hnew.following destination) hnewRun hrun hregistry rfl
    hnewQueue hqueue
  rw [hgenerate] at hresult ⊢
  rw [hnewGenerate] at hresult' ⊢
  refine { repeats_builtFrom hevents ?_ hresult' hresult with }
  intro name hname
  rw [hnewLoading.mem_targets (regular_new _)] at hname
  rw [hloading.mem_targets hregular]
  right
  obtain ⟨path, hpath, hdeclared⟩ := hname.resolve_left List.not_mem_nil
  obtain ⟨other, -, hother⟩ := hloaded.exists_declared hpath
  rw [hdeclared.unique (htransfer path hpath other hother)]
  exact ⟨path, hpath, hother⟩

/-- A used session cannot be told from a new one: where all types are written, its build does what a
build of a new session with the same options does on the same disk, and has the same record of it,
up to the targets. So it does what a new session does on any other disk with the same manifests, if
that build has a result. The build has to name the directory, by a target or a search path, unless
there is no built-in binary to look for: the new session has not heard of it otherwise. -/
theorem build_reused
    (hsearched : targets ≠ [] ∨ searchPaths ≠ [] ∨ s.options.builtinBinaries = []) :
    (∃ g', ((Session.new s.options).build disk destination targets searchPaths
        choice).result = .ok g' ∧
      ((Session.new s.options).build disk destination targets searchPaths choice).disk =
        (s.build disk destination targets searchPaths choice).disk ∧
      (s.build disk destination targets searchPaths choice).Repeats
        ((Session.new s.options).build disk destination targets searchPaths choice) g g') ∧
    ∀ disk' g', disk'.home = disk.home → KeepsManifests disk disk' suffix dir →
      ((Session.new s.options).build disk' destination targets searchPaths
        choice).result = .ok g' →
      (s.build disk destination targets searchPaths choice).Repeats
        ((Session.new s.options).build disk' destination targets searchPaths choice) g g' := by
  refine ⟨?_, fun _ _ => repeats_of_new hreused hdir hresult hall⟩
  obtain ⟨hstocked, rfl⟩ := hreused.stocked
  have hregular := hstocked.reached.regular
  obtain ⟨loaded, names, said, hloading, hbuild⟩ := exists_loading hresult
  have hnew := Stocked.new disk s.options.manifestSuffix dir
  have hcanLoad : (Session.new s.options).CanLoad disk targets searchPaths choice :=
    canLoad_of_loading hstocked hdir hloading hnew rfl (List.Subset.refl _) hsearched
  obtain ⟨new, newNames, newSaid, hnewLoading⟩ := hcanLoad
  have hnewLoaded := hnewLoading.toLoaded (regular_new _)
  have hoptions := hnewLoading.options_eq hloading rfl
  have honly := hall
  rw [hbuild, options_generate, hoptions] at honly
  obtain ⟨hregistry, hagree⟩ := agree_of_new hdir hnewLoading
    (stocked_of_loading hstocked hdir hloading)
    (hloading.toLoaded hregular) hoptions honly destination
  have hgenerated := hresult
  rw [hbuild] at hgenerated
  obtain ⟨last, hgenerate, hgenerate'⟩ :=
    generate_of_agree hagree (hnewLoaded.following destination) hregistry hgenerated
  have hnewBuild := build_of_loading hnewLoading destination
  rw [hgenerate] at hnewBuild
  have hnewResult := congrArg Built.result hnewBuild
  refine ⟨_, hnewResult, ?_, ?_⟩
  · rw [hnewBuild, hbuild, hgenerate']
    rfl
  · exact repeats_of_new hreused hdir hresult hall rfl (fun _ _ => id) hnewResult

end

/-! ## A second build -/

/-- The build of a new session that is used again. -/
def reuseFirst : Built :=
  (Session.new {}).build pairDisk pairDestination [pairTarget "A"] [] none

/-- The second build of it, on the disk that the first one left. -/
def reuseSecond : Built :=
  reuseFirst.session.build reuseFirst.disk pairDestination [pairTarget "B"] [] none

/-- The same build of a new session. -/
def reuseNew : Built :=
  (Session.new reuseFirst.session.options).build reuseFirst.disk pairDestination [pairTarget "B"] []
    none

/-- What a build leaves on record, the targets of the session, and whether their types alone are
written. -/
def reuseSummary (b : Built) (g : Generation) :
    Bool × List String × List (Namespace × List String × Nat) :=
  (b.session.options.onlyTargetTypes, b.session.loader.targets,
    g.files.map fun f => (f.1, f.2.types, f.2.emissions))

set_option synthInstance.maxSize 4000 in
set_option maxRecDepth 100000 in
/-- The first build changes nothing that was there, and the second one has a result. -/
theorem reuse_evaluated :
    ((Session.new {}).buildInOrder pairDisk pairDestination [pairTarget "A"] [] none).map
        (fun b => (b.result.toOption.isSome, b.disk.home,
          decide (∀ entry ∈ pairDisk.entries, b.disk.at? entry.1 = some entry.2),
          (b.session.buildInOrder b.disk pairDestination [pairTarget "B"] [] none).bind fun b' =>
            b'.result.toOption.map (reuseSummary b'))) =
      some (true, [], true, some (false, ["A", "B"],
        [(.named "Q", ["Y", "Z"], 1), (.named "P", ["Z"], 1)])) := by
  decide +kernel

/-- The session that has built before has another target, and yet comes to the same stubs. -/
theorem build_reused_pair :
    ∃ g g', reuseSecond.result = .ok g ∧ reuseNew.result = .ok g' ∧
      reuseNew.disk = reuseSecond.disk ∧ reuseSecond.Repeats reuseNew g g' ∧
      reuseSecond.session.loader.targets = ["A", "B"] ∧
      g.files.map (fun f => (f.1, f.2.types, f.2.emissions)) =
        [(.named "Q", ["Y", "Z"], 1), (.named "P", ["Z"], 1)] := by
  obtain ⟨b, hb, hview⟩ := Option.map_eq_some_iff.mp reuse_evaluated
  obtain rfl : reuseFirst = b := build_of_buildInOrder hb
  simp only [Prod.mk.injEq, decide_eq_true_eq] at hview
  obtain ⟨hfirst, hhome, hentries, hrecord⟩ := hview
  obtain ⟨first, hfirst⟩ := Option.isSome_iff_exists.mp hfirst
  obtain ⟨g, hresult, hsummary⟩ := exists_result_of_buildInOrder hrecord
  simp only [reuseSummary, Prod.mk.injEq] at hsummary
  obtain ⟨hall, htargets, hfiles⟩ := hsummary
  have hkeeps : KeepsManifests pairDisk reuseFirst.disk ".yaml" ⟨.root, ["m"]⟩ :=
    Loader.keepsManifests_of_at? hhome fun l e => Disk.at?_of_entries hentries
  have hreused : Reused ".yaml" ⟨.root, ["m"]⟩ reuseFirst.disk reuseFirst.session := by
    refine .build pairDestination (.new pairDisk rfl) (pairDirectory.of_subset (by simp)) ?_ hkeeps
    intro chosen _
    obtain ⟨loaded, names, said, hloading, -⟩ := exists_loading (eq_ok_of_toOption hfirst)
    exact ⟨loaded, names, said, hloading⟩
  have hdir : OneDirectory reuseFirst.disk ".yaml" ⟨.root, ["m"]⟩ [pairTarget "B"] [] := by
    refine (pairDirectory.of_subset (by simp)).transfer hhome hkeeps ?_
    intro path hpath
    rw [List.mem_singleton.mp hpath]
    exact ⟨"B", (pairTargets (by simp)).2⟩
  obtain ⟨⟨g', hresult', hdisk, hrepeats⟩, -⟩ :=
    build_reused hreused hdir hresult hall (Or.inl (List.cons_ne_nil _ _))
  exact ⟨g, g', hresult, hresult', hdisk, hrepeats, htargets, hfiles⟩

end Session

end StubTree
