import StubTree.Proofs.Session.Ending
import StubTree.Proofs.Session.Names
import StubTree.Proofs.Session.Reuse

/-! # Whole stubs

A file that a run has written holds a stub from its first character to its last, the one that was
written to it last, and all other files are as they were. This holds between any two rounds, and a
round that fails leaves every file alone: what it made before are directories. So it holds wherever
a run breaks off.
-/

namespace StubTree

namespace Disk

variable {d d' d'' : Disk} {l : Location}

/-- The same file stands at a location of both disks, or none does. -/
def SameAt (d d' : Disk) (l : Location) : Prop :=
  ∀ bytes, d'.at? l = some (.file bytes) ↔ d.at? l = some (.file bytes)

theorem SameAt.trans (h : d.SameAt d' l) (h' : d'.SameAt d'' l) : d.SameAt d'' l :=
  fun bytes => (h' bytes).trans (h bytes)

/-- Where directories are made, every file stays and no new one comes. -/
theorem Extends.sameAt (h : d.Extends d') (l : Location) : d.SameAt d' l := by
  intro bytes
  rcases h.entry l with heq | ⟨hnone, hmade⟩
  · rw [heq]
  · simp [hnone, hmade]

end Disk

/-! ## Emissions to a file -/

/-- The emissions to the file at a location, in order. -/
def emissionsTo (d : Disk) (l : Location) (events : List Event) : List Emission :=
  events.filterMap fun
    | .emitted e => if (d.locateFor e.path).toOption = some l then some e else none
    | .skipped _ => none

/-- The last emission to the file at a location. -/
def lastEmissionTo? (d : Disk) (l : Location) (events : List Event) : Option Emission :=
  (emissionsTo d l events).getLast?

section

variable {d d' : Disk} {l : Location} {events : List Event} {e : Emission}

theorem mem_emissionsTo :
    e ∈ emissionsTo d l events ↔ .emitted e ∈ events ∧ d.locateFor e.path = .ok l := by
  rw [emissionsTo, List.mem_filterMap]
  constructor
  · rintro ⟨event, hevent, hto⟩
    cases event with
    | skipped => cases hto
    | emitted e' =>
        dsimp only at hto
        split at hto
        next hl =>
          cases hto
          exact ⟨hevent, eq_ok_of_toOption hl⟩
        next => cases hto
  · rintro ⟨hevent, hl⟩
    exact ⟨_, hevent, if_pos (by rw [hl]; rfl)⟩

theorem mem_of_lastEmissionTo? (h : lastEmissionTo? d l events = some e) :
    .emitted e ∈ events ∧ d.locateFor e.path = .ok l :=
  mem_emissionsTo.mp (List.mem_of_getLast? h)

theorem lastEmissionTo?_skipped (space : Namespace) :
    lastEmissionTo? d l (events ++ [.skipped space]) = lastEmissionTo? d l events := by
  simp [lastEmissionTo?, emissionsTo]

theorem lastEmissionTo?_emitted (h : d.locateFor e.path = .ok l) :
    lastEmissionTo? d l (events ++ [.emitted e]) = some e := by
  simp [lastEmissionTo?, emissionsTo, h, Except.toOption]

theorem lastEmissionTo?_emitted_of_ne {other : Location} (h : d.locateFor e.path = .ok other)
    (hne : l ≠ other) :
    lastEmissionTo? d l (events ++ [.emitted e]) = lastEmissionTo? d l events := by
  simp [lastEmissionTo?, emissionsTo, h, Except.toOption, hne.symm]

/-- Paths that lead somewhere go on to lead there. -/
theorem Disk.Keeps.lastEmissionTo? (h : d.Keeps d')
    (hlocated : ∀ e, .emitted e ∈ events → ∃ l, d.locateFor e.path = .ok l) :
    lastEmissionTo? d' l events = lastEmissionTo? d l events := by
  have hsame : emissionsTo d' l events = emissionsTo d l events := by
    refine List.filterMap_congr fun event hevent => ?_
    cases event with
    | skipped => rfl
    | emitted e =>
        obtain ⟨here, hhere⟩ := hlocated e hevent
        dsimp only
        rw [hhere, h.locateFor hhere]
  rw [StubTree.lastEmissionTo?, hsame, StubTree.lastEmissionTo?]

end

namespace Plan

variable {p : Plan} {s s' : Stage} {start : Disk}

/-- What the files of a stage are made of: whole stubs where stubs were written, and what there was
at the start where none were. -/
structure Whole (p : Plan) (start : Disk) (s : Stage) : Prop where
  placed : ∀ e, .emitted e ∈ s.events → ∃ directory,
    e.space.directory p.destination = .ok directory ∧ e.path = p.stubPath directory
  located : ∀ e, .emitted e ∈ s.events → ∃ l, s.disk.locateFor e.path = .ok l
  written : ∀ l e, lastEmissionTo? s.disk l s.events = some e →
    s.disk.at? l = some (.file e.text.toUTF8)
  untouched : ∀ l, lastEmissionTo? s.disk l s.events = none → start.SameAt s.disk l

theorem whole_start (s : Session) (destination : Path) (start : Disk) :
    Whole ⟨s, destination⟩ start (s.firstStage start) where
  placed _ h := by cases h
  located _ h := by cases h
  written _ _ h := by cases h
  untouched _ _ _ := Iff.rfl

/-- Making directories leaves stubs whole. -/
theorem Whole.extends (h : p.Whole start s) (hextends : s.disk.Extends s'.disk)
    (hevents : s'.events = s.events) : p.Whole start s' where
  placed := hevents ▸ h.placed
  located e he := by
    obtain ⟨l, hl⟩ := h.located e (hevents ▸ he)
    exact ⟨l, hextends.keeps.locateFor hl⟩
  written l e hlast := by
    rw [hevents, hextends.keeps.lastEmissionTo? h.located] at hlast
    exact (hextends.sameAt l _).mpr (h.written l e hlast)
  untouched l hnone := by
    rw [hevents, hextends.keeps.lastEmissionTo? h.located] at hnone
    exact (h.untouched l hnone).trans (hextends.sameAt l)

/-- A round that fails leaves every file alone. -/
theorem Failed.extends (h : p.Failed s s') : s.disk.Extends s'.disk := by
  cases h with
  | refused => exact .refl s.disk
  | unmade _ _ hmade => exact Disk.extends_of_makeDirectories hmade
  | unwritten _ _ hmade => exact Disk.extends_of_makeDirectories hmade

theorem Failed.whole (h : p.Failed s s') (hwhole : p.Whole start s) : p.Whole start s' :=
  hwhole.extends h.extends h.events

/-- A round that ends well writes one file, and in one go. -/
theorem Round.whole (h : p.Round s s') (hwhole : p.Whole start s) : p.Whole start s' := by
  cases h with
  | @skipped space _ _ hpop hselect =>
      have hemitted : ∀ e, .emitted e ∈ s.events ++ [.skipped space] → .emitted e ∈ s.events := by
        intro e he
        rcases List.mem_append.mp he with hold | hnew
        · exact hold
        · cases List.mem_singleton.mp hnew
      exact
        { placed := fun e he => hwhole.placed e (hemitted e he)
          located := fun e he => hwhole.located e (hemitted e he)
          written := fun l e hlast =>
            hwhole.written l e ((lastEmissionTo?_skipped space).symm.trans hlast)
          untouched := fun l hnone =>
            hwhole.untouched l ((lastEmissionTo?_skipped space).symm.trans hnone) }
  | @emitted last members met registry directory made disk hpop htypes hne hdirectory hpath hmade
      hadded hrender hwrite =>
      obtain ⟨here, hhere, hentry, rfl⟩ := Disk.write_eq_ok hwrite
      have hextends := Disk.extends_of_makeDirectories hmade
      have hput := Disk.keeps_put_file hentry last.text.toUTF8
      have hkeeps := hextends.keeps.trans hput
      have hself := hput.locateFor hhere
      have hat := Disk.at?_put (Disk.ne_nil_of_at? hentry) made (.file last.text.toUTF8)
      have hother : ∀ l, l ≠ here → s.disk.SameAt (made.put here (.file last.text.toUTF8)) l := by
        intro l hl bytes
        rw [hat, if_neg hl]
        exact hextends.sameAt l bytes
      have hemitted : ∀ e, .emitted e ∈ s.events ++ [.emitted last] →
          .emitted e ∈ s.events ∨ e = last := by
        intro e he
        rcases List.mem_append.mp he with hold | hnew
        · exact .inl hold
        · cases List.mem_singleton.mp hnew
          exact .inr rfl
      refine { placed := ?_, located := ?_, written := ?_, untouched := ?_ }
      · intro e he
        rcases hemitted e he with hold | rfl
        · exact hwhole.placed e hold
        · exact ⟨directory, hdirectory, hpath⟩
      · intro e he
        rcases hemitted e he with hold | rfl
        · obtain ⟨l, hl⟩ := hwhole.located e hold
          exact ⟨l, hkeeps.locateFor hl⟩
        · exact ⟨here, hself⟩
      · intro l e hlast
        by_cases hl : l = here
        · subst hl
          rw [lastEmissionTo?_emitted hself] at hlast
          cases hlast
          exact (hat l).trans (if_pos rfl)
        · rw [lastEmissionTo?_emitted_of_ne hself hl, hkeeps.lastEmissionTo? hwhole.located]
            at hlast
          exact (hother l hl _).mpr (hwhole.written l e hlast)
      · intro l hnone
        by_cases hl : l = here
        · subst hl
          rw [lastEmissionTo?_emitted hself] at hnone
          cases hnone
        · rw [lastEmissionTo?_emitted_of_ne hself hl, hkeeps.lastEmissionTo? hwhole.located]
            at hnone
          exact (hwhole.untouched l hnone).trans (hother l hl)

/-! ## A round that fails -/

/-- The stages that rounds come to which end well. -/
def Comes (p : Plan) : Stage → Stage → Prop :=
  Relation.ReflTransGen fun s s' => p.round? s = some (s', none)

theorem Comes.ends {last : Stage} {count : Nat} {result : Option Fault} (h : p.Comes s s')
    (hends : p.Ends s' count last result) : ∃ count, p.Ends s count last result := by
  induction h using Relation.ReflTransGen.head_induction_on with
  | refl => exact ⟨count, hends⟩
  | head hround _ ih =>
      obtain ⟨count, hrest⟩ := ih
      exact ⟨count + 1, .round hround hrest⟩

/-- A stub that cannot be rendered fails its round, if nothing has failed it before. -/
theorem exists_failed_of_render {space : Namespace} {members met : List TypeId}
    {registry : Registry} {fault : Fault}
    (hpop : s.registry.pop? = some ((space, members), registry))
    (hrender : Stub.render p.library space (p.session.select members) = (met, .error fault)) :
    ∃ last fault, p.round? s = some (last, some fault) := by
  rw [round?, hpop]
  dsimp only
  cases space.check with
  | error refused => exact ⟨_, refused, rfl⟩
  | ok checked =>
      dsimp only
      rw [Enumeration.members_listed]
      cases hselect : p.session.select members with
      | nil =>
          rw [hselect] at hrender
          cases hrender
      | cons t rest =>
          rw [hselect] at hrender
          simp only [emit, Enumeration.names_listed, hrender]
          cases space.directory p.destination with
          | error nowhere => exact ⟨_, nowhere, rfl⟩
          | ok directory =>
              dsimp only
              cases s.disk.makeDirectories directory with
              | mk made unmade =>
                  cases unmade with
                  | some unmade => exact ⟨_, unmade, rfl⟩
                  | none => exact ⟨_, fault, rfl⟩

end Plan

/-- What the files of a build are made of, wherever it ends. -/
structure Built.Whole (b : Built) (disk : Disk) (destination : Path) : Prop where
  placed : ∀ e, .emitted e ∈ b.events → ∃ directory,
    e.space.directory destination = .ok directory ∧
      e.path = directory.entry b.session.options.stubFileName
  rendered : ∀ e, .emitted e ∈ b.events → ∃ met,
    Stub.render b.session.loader.library e.space e.types = (met, .ok e.text)
  changed : ∀ l bytes, b.disk.at? l = some (.file bytes) → disk.at? l ≠ some (.file bytes) →
    ∃ e, .emitted e ∈ b.events ∧ b.disk.locateFor e.path = .ok l ∧
      lastEmissionTo? b.disk l b.events = some e ∧ bytes = e.text.toUTF8
  kept : ∀ l bytes, disk.at? l = some (.file bytes) → ∃ bytes', b.disk.at? l = some (.file bytes')

/-- A build that has failed, with the events of a stage and with its files. -/
structure Built.BreaksOff (b : Built) (stage : Stage) : Prop where
  result : ∃ fault, b.result = .error fault
  events : b.events = stage.events
  files : ∀ l, stage.disk.SameAt b.disk l

namespace Session

variable {s loaded : Session} {disk : Disk} {destination : Path}
  {targets searchPaths : List Path} {choice : Option Document} {names : List String}
  {said : List Progress}

/-- The stages that a build comes to between its rounds. -/
inductive ComesTo (s : Session) (disk : Disk) (destination : Path)
    (targets searchPaths : List Path) (choice : Option Document) : Plan → Stage → Prop
  | rounds {loaded : Session} {names : List String} {said : List Progress} {stage : Stage}
      (hloading : s.Loading disk targets searchPaths choice loaded names said)
      (hcheck : checkAll loaded.registry.namespaces = .ok ())
      (hcomes : Plan.Comes ⟨loaded, destination⟩ (loaded.firstStage disk) stage) :
      ComesTo s disk destination targets searchPaths choice ⟨loaded, destination⟩ stage

theorem Loading.reached (h : s.Loading disk targets searchPaths choice loaded names said)
    (hreached : s.Reached) : loaded.Reached := by
  cases h with
  | @stages chosen prepared after loaded found builtins said more hchoose hprepare htargets
      hbuiltins =>
      obtain ⟨only, rfl⟩ := choose_eq_ok hchoose
      have hprepared := (hreached.choose { s.options with onlyTargetTypes := only }).reset.prepare
        disk searchPaths
      rw [hprepare] at hprepared
      dsimp only at hprepared
      have hafter := hprepared.loadAll disk .target (targets.map .target)
      rw [← loadTargets, htargets] at hafter
      have hloaded := hafter.loadAll disk .builtin
        (after.options.builtinBinaries.map .identity)
      rw [← loadBuiltins, hbuiltins] at hloaded
      exact hloaded

/-- A generation whose rounds come to one that fails ends there. -/
theorem generate_of_comes {before last : Stage} {fault : Fault} (hreached : s.Reached)
    (hcheck : checkAll s.registry.namespaces = .ok ())
    (hcomes : Plan.Comes ⟨s, destination⟩ (s.firstStage disk) before)
    (hround : Plan.round? ⟨s, destination⟩ before = some (last, some fault)) :
    s.generate disk destination = { s.builtFrom destination last with result := .error fault } := by
  obtain ⟨count, -, hgenerates, -⟩ := exists_generates hreached disk destination
  obtain ⟨count', hends⟩ := hcomes.ends (.failed hround)
  exact (hgenerates.unique (.failed hcheck hends)).2.symm

/-- The files of a generation are those of a stage. -/
theorem exists_whole_generate (s : Session) (disk : Disk) (destination : Path) :
    ∃ last, Plan.Whole ⟨s, destination⟩ disk last ∧
      last.disk = (s.generate disk destination).disk ∧
      last.events = (s.generate disk destination).events := by
  have hstart := Plan.whole_start s destination disk
  rw [generate]
  split
  next => exact ⟨s.firstStage disk, hstart, rfl, rfl⟩
  next =>
    exact ⟨_, Plan.drain_preserves _ _ Plan.Round.whole Plan.Failed.whole hstart, rfl, rfl⟩

/-- The files of a build are those of a stage: of the first one, if it is barred before. -/
theorem exists_whole_build (s : Session) (disk : Disk) (destination : Path)
    (targets searchPaths : List Path) (choice : Option Document) :
    ∃ loaded last, Plan.Whole ⟨loaded, destination⟩ disk last ∧
      last.disk = (s.build disk destination targets searchPaths choice).disk ∧
      last.events = (s.build disk destination targets searchPaths choice).events ∧
      loaded.options =
        (s.build disk destination targets searchPaths choice).session.options := by
  rcases barred_or_loading s disk destination targets searchPaths choice with
    ⟨⟨-, hdisk⟩, hnone⟩ | ⟨loaded, names, said, hloading, -⟩
  · exact ⟨_, _, Plan.whole_start _ destination disk, hdisk.symm, hnone.symm, rfl⟩
  · rw [build_of_loading hloading]
    obtain ⟨last, hwhole, hdisk, hevents⟩ := exists_whole_generate loaded disk destination
    exact ⟨loaded, last, hwhole, hdisk, hevents, (options_generate loaded disk destination).symm⟩

theorem whole_build (s : Session) (disk : Disk) (destination : Path)
    (targets searchPaths : List Path) (choice : Option Document) :
    (s.build disk destination targets searchPaths choice).Whole disk destination := by
  obtain ⟨loaded, last, hwhole, hdisk, hevents, hoptions⟩ :=
    exists_whole_build s disk destination targets searchPaths choice
  refine { placed := ?_, rendered := fun e he => rendered_build he, changed := ?_, kept := ?_ }
  · rw [← hoptions, ← hevents]
    exact hwhole.placed
  · intro l bytes hafter hbefore
    rw [← hdisk] at hafter ⊢
    rw [← hevents]
    cases hlast : lastEmissionTo? last.disk l last.events with
    | none => exact absurd ((hwhole.untouched l hlast bytes).mp hafter) hbefore
    | some e =>
        rw [hwhole.written l e hlast] at hafter
        cases hafter
        obtain ⟨he, hl⟩ := mem_of_lastEmissionTo? hlast
        exact ⟨e, he, hl, rfl, rfl⟩
  · intro l bytes hbefore
    rw [← hdisk]
    cases hlast : lastEmissionTo? last.disk l last.events with
    | none => exact ⟨bytes, (hwhole.untouched l hlast bytes).mpr hbefore⟩
    | some e => exact ⟨_, hwhole.written l e hlast⟩

/-- Wherever a build breaks off, the files whose bytes are others than before hold whole stubs, each
the one that was written there last, and no file is gone. A round that fails leaves all files as it
found them, and a stub that cannot be rendered is a cause to fail. -/
theorem build_whole (hreached : s.Reached) (disk : Disk) (destination : Path)
    (targets searchPaths : List Path) (choice : Option Document) :
    (s.build disk destination targets searchPaths choice).Whole disk destination ∧
    ∀ p before, s.ComesTo disk destination targets searchPaths choice p before →
      (∀ last fault, p.round? before = some (last, some fault) →
        (s.build disk destination targets searchPaths choice).BreaksOff before) ∧
      ∀ space members registry met fault,
        before.registry.pop? = some ((space, members), registry) →
        Stub.render p.library space (p.session.select members) = (met, .error fault) →
        (s.build disk destination targets searchPaths choice).BreaksOff before := by
  refine ⟨whole_build s disk destination targets searchPaths choice, ?_⟩
  intro p before hcomesTo
  cases hcomesTo with
  | @rounds loaded names said _ hloading hcheck hcomes =>
      have hfails : ∀ last fault,
          Plan.round? ⟨loaded, destination⟩ before = some (last, some fault) →
          (s.build disk destination targets searchPaths choice).BreaksOff before := by
        intro last fault hround
        have hfailed := Plan.failed_of_round? hround
        rw [build_of_loading hloading,
          generate_of_comes (hloading.reached hreached) hcheck hcomes hround]
        exact ⟨⟨fault, rfl⟩, hfailed.events, hfailed.extends.sameAt⟩
      refine ⟨hfails, ?_⟩
      intro space members registry met fault hpop hrender
      obtain ⟨last, fault, hround⟩ := Plan.exists_failed_of_render hpop hrender
      exact hfails last fault hround

/-! ## A stub that cannot be rendered -/

/-- Two types, the second of which refers to nothing that is there, and an old stub for each. -/
def brokenDisk : Disk :=
  ⟨[], [(["A.yaml"], .file ("\n".intercalate
      ["name: A", "types:", "- name: N.T", "- name: P.U", "  base: N.V"]).toUTF8),
    (["out"], .directory), (["out", "N"], .directory), (["out", "P"], .directory),
    (["out", "N", "__init__.pyi"], .file "old".toUTF8),
    (["out", "P", "__init__.pyi"], .file "old".toUTF8)]⟩

def brokenTarget : Path := ⟨.root, ["A.yaml"]⟩

def brokenDestination : Path := ⟨.root, ["out"]⟩

def brokenLoading : Outcome (List String) :=
  ((Session.new {}).prepare brokenDisk []).1.loadTargets brokenDisk [brokenTarget]

def brokenPlan : Plan := ⟨brokenLoading.1, brokenDestination⟩

set_option maxRecDepth 100000 in
theorem broken_evaluated :
    brokenLoading.2.2.toOption = some ["A"] ∧ brokenLoading.1.options = {} ∧
    (checkAll brokenLoading.1.registry.namespaces).toOption = some () ∧
    (brokenPlan.nextInOrder? (brokenLoading.1.firstStage brokenDisk)).map (fun s =>
        (s.registry.pop?.map Prod.fst,
          s.disk.at? ["out", "N", "__init__.pyi"], s.disk.at? ["out", "P", "__init__.pyi"])) =
      some (some (.named "P", [⟨.named "P", "U", "A"⟩]),
        some (.file "# Stubs for namespace 'N'\n\nclass T: ...\n".toUTF8),
        some (.file "old".toUTF8)) ∧
    brokenLoading.1.selectInOrder? [⟨.named "P", "U", "A"⟩] = some [⟨.named "P", "U", "A"⟩] ∧
    (Stub.render brokenPlan.library (.named "P") [⟨.named "P", "U", "A"⟩]).2.toOption = none := by
  decide +kernel

def brokenBuild : Built :=
  (Session.new {}).build brokenDisk brokenDestination [brokenTarget] [] none

/-- The first stub is written over the old one, and the second old one stays. -/
theorem build_whole_broken :
    brokenBuild.Whole brokenDisk brokenDestination ∧
    ∃ before, (Session.new {}).ComesTo brokenDisk brokenDestination [brokenTarget] [] none
        brokenPlan before ∧
      brokenBuild.BreaksOff before ∧
      brokenBuild.disk.at? ["out", "N", "__init__.pyi"] =
        some (.file "# Stubs for namespace 'N'\n\nclass T: ...\n".toUTF8) ∧
      brokenBuild.disk.at? ["out", "P", "__init__.pyi"] = some (.file "old".toUTF8) := by
  obtain ⟨hnames, hoptions, hcheck, hstage, hselect, hrender⟩ := broken_evaluated
  have htargets : brokenLoading = (brokenLoading.1, brokenLoading.2.1, .ok ["A"]) :=
    outcome_eq_of_toOption hnames
  have hbuiltins : brokenLoading.1.loadBuiltins brokenDisk
      brokenLoading.1.options.builtinBinaries = (brokenLoading.1, [], .ok []) := by
    rw [hoptions]
    rfl
  have hloading : (Session.new {}).Loading brokenDisk [brokenTarget] [] none brokenLoading.1
      (["A"] ++ []) (brokenLoading.2.1 ++ []) := .stages rfl rfl htargets hbuiltins
  obtain ⟨before, hbefore, hview⟩ := Option.map_eq_some_iff.mp hstage
  simp only [Prod.mk.injEq] at hview
  obtain ⟨hpop, hfirst, hsecond⟩ := hview
  have hcomesTo : (Session.new {}).ComesTo brokenDisk brokenDestination [brokenTarget] [] none
      brokenPlan before :=
    .rounds hloading (eq_ok_of_toOption hcheck) (.single (Plan.round?_of_nextInOrder? hbefore))
  obtain ⟨⟨⟨space, members⟩, registry⟩, hpop, hpopped⟩ := Option.map_eq_some_iff.mp hpop
  cases hpopped
  obtain ⟨fault, hfault⟩ := exists_error_of_toOption hrender
  obtain ⟨hwhole, hbreaks⟩ := build_whole (.new {}) brokenDisk brokenDestination [brokenTarget] []
    none
  have hselected : brokenPlan.session.select [⟨.named "P", "U", "A"⟩] =
      [⟨.named "P", "U", "A"⟩] := select_of_selectInOrder? hselect
  have hrendered : (Stub.render brokenPlan.library (.named "P")
      (brokenPlan.session.select [⟨.named "P", "U", "A"⟩])).2 = .error fault := by
    rw [hselected]
    exact hfault
  have hbroken := (hbreaks brokenPlan before hcomesTo).2 _ _ registry _ fault hpop
    (Prod.ext rfl hrendered)
  exact ⟨hwhole, before, hcomesTo, hbroken, (hbroken.files _ _).mpr hfirst,
    (hbroken.files _ _).mpr hsecond⟩

end Session

end StubTree
