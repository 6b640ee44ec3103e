import StubTree.Proofs.Generation
import StubTree.Proofs.Session.InOrder
import StubTree.Proofs.Session.Reached

/-! # No stale stubs

At every stage of a run the last stub of each namespace either holds all types that the namespace
has by now, or the namespace is queued again. When the queue is empty, every stub is the one that
would be written now.

The types of a namespace can grow while its own stub is rendered, after it was taken from the
queue. Then it is queued anew, and so the round that emits a stub is no exception.
-/

namespace StubTree

namespace Plan

variable {p : Plan} {s s' : Stage} {space : Namespace} {e : Emission}

/-- What holds of the last emission of a namespace at every stage. -/
structure UpToDate (p : Plan) (s : Stage) (space : Namespace) (e : Emission) : Prop where
  placed : ∃ directory, space.directory p.destination = .ok directory ∧
    e.path = p.stubPath directory
  rendered : ∃ met, Stub.render p.library space e.types = (met, .ok e.text) ∧
    ∀ t ∈ met, s.registry.contains t
  wanted : p.session.select (s.registry.members space) ≠ []
  current : space ∈ s.registry.queue ∨ e.types = p.session.select (s.registry.members space)
  written : ∃ l, s.disk.locateFor e.path = .ok l ∧
    (s.disk.at? l = some (.file e.text.toUTF8) ∨
      ∃ other e', other ≠ space ∧ lastEmission? other s.events = some e' ∧
        s.disk.locateFor e'.path = .ok l)

/-- A stage on which no stub is stale. -/
structure Fresh (p : Plan) (s : Stage) : Prop where
  sound : s.registry.Sound
  upToDate : ∀ space e, lastEmission? space s.events = some e → p.UpToDate s space e

/-! ## The registry after a round -/

variable {popped : Namespace} {members met : List TypeId} {registry : Registry}

/-- What a pop leaves in the queue is what was there but the namespace taken. -/
theorem mem_queue_of_pop? (hpop : s.registry.pop? = some ((popped, members), registry))
    (hne : space ≠ popped) (h : space ∈ s.registry.queue) : space ∈ registry.queue := by
  rw [(Registry.pop?_eq_some hpop).1] at h
  exact (List.mem_cons.mp h).resolve_left hne

theorem members_of_pop? (hpop : s.registry.pop? = some ((popped, members), registry))
    (space : Namespace) : registry.members space = s.registry.members space := by
  rw [(Registry.pop?_eq_some hpop).2.2]
  rfl

theorem contains_of_pop? (hpop : s.registry.pop? = some ((popped, members), registry))
    (t : TypeId) : registry.contains t = s.registry.contains t := by
  rw [Registry.contains, Registry.contains, members_of_pop? hpop]

/-- After the additions of a round, a namespace has the types from before or is queued. -/
theorem mem_queue_or_members_eq (hsound : registry.Sound) (cleared space : Namespace)
    (met : List TypeId) :
    space ∈ ((registry.clear cleared).2.addAll met).queue ∨
      ((registry.clear cleared).2.addAll met).members space = registry.members space := by
  by_cases hqueue : space ∈ ((registry.clear cleared).2.addAll met).queue
  · exact Or.inl hqueue
  · exact Or.inr (Registry.members_addAll_of_not_mem_queue (hsound.clear cleared) hqueue)

/-! ## One round -/

theorem UpToDate.skipped (h : p.UpToDate s space e)
    (hpop : s.registry.pop? = some ((popped, members), registry))
    (hselect : p.session.select members = []) :
    p.UpToDate { s with registry, events := s.events ++ [.skipped popped] } space e where
  placed := h.placed
  rendered := by
    obtain ⟨met, hrender, hmet⟩ := h.rendered
    refine ⟨met, hrender, ?_⟩
    intro t ht
    rw [contains_of_pop? hpop]
    exact hmet t ht
  wanted := by
    rw [members_of_pop? hpop]
    exact h.wanted
  current := by
    have hne : space ≠ popped := by
      rintro rfl
      rw [(Registry.pop?_eq_some hpop).2.1] at hselect
      exact h.wanted hselect
    rw [members_of_pop? hpop]
    exact h.current.imp_left (mem_queue_of_pop? hpop hne)
  written := by
    simp only [lastEmission?_skipped]
    exact h.written

/-- The stub that was just written, whatever was met in it. -/
theorem UpToDate.emitted_self {directory : Path} {made disk : Disk}
    (hpop : s.registry.pop? = some ((e.space, members), registry)) (hsound : registry.Sound)
    (htypes : e.types = p.session.select members) (hne : e.types ≠ [])
    (hdirectory : e.space.directory p.destination = .ok directory)
    (hpath : e.path = p.stubPath directory)
    (hrender : Stub.render p.library e.space e.types = (met, .ok e.text))
    (hwrite : made.write e.path e.text.toUTF8 = .ok disk) (events : List Event) :
    p.UpToDate { registry := (registry.clear e.space).2.addAll met, disk, events } e.space e := by
  have hmembers : members = registry.members e.space := by
    rw [members_of_pop? hpop]
    exact (Registry.pop?_eq_some hpop).2.1
  obtain ⟨l, hl, hentry, hdisk⟩ := Disk.write_eq_ok hwrite
  refine
    { placed := ⟨directory, hdirectory, hpath⟩
      rendered := ⟨met, hrender, fun t ht => Registry.contains_addAll.mpr (Or.inr ht)⟩
      wanted := ?_
      current := ?_
      written := ⟨l, ?_, Or.inl ?_⟩ }
  · rw [htypes, hmembers] at hne
    refine Session.select_ne_nil_of_subset ?_ hne
    exact fun t ht => Registry.mem_members_addAll.mpr (Or.inl ht)
  · rw [htypes, hmembers]
    -- Types met in the stub itself can belong to its namespace, which is queued once more then.
    rcases mem_queue_or_members_eq hsound e.space e.space met with hqueue | hsame
    · exact Or.inl hqueue
    · exact Or.inr (congrArg _ hsame.symm)
  · rw [hdisk]
    exact (Disk.keeps_put_file hentry _).locateFor hl
  · rw [hdisk, Disk.at?_put (Disk.ne_nil_of_at? hentry), if_pos rfl]

/-- Another namespace than the one whose stub was written. -/
theorem UpToDate.emitted_of_ne {made disk : Disk} {last : Emission} {bytes : ByteArray}
    (h : p.UpToDate s space e) (hne : space ≠ last.space)
    (hpop : s.registry.pop? = some ((last.space, members), registry)) (hsound : registry.Sound)
    (hmade : s.disk.Extends made) (hwrite : made.write last.path bytes = .ok disk)
    (hbefore : ∀ e', lastEmission? last.space s.events = some e' → e'.path = last.path) :
    p.UpToDate
      { registry := (registry.clear last.space).2.addAll met
        disk
        events := s.events ++ [.emitted last] } space e where
  placed := h.placed
  rendered := by
    obtain ⟨met', hrender, hmet'⟩ := h.rendered
    refine ⟨met', hrender, ?_⟩
    intro t ht
    apply Registry.contains_addAll.mpr
    left
    have hold := hmet' t ht
    rwa [← contains_of_pop? hpop] at hold
  wanted := by
    refine Session.select_ne_nil_of_subset ?_ h.wanted
    intro t ht
    rw [← members_of_pop? hpop] at ht
    exact Registry.mem_members_addAll.mpr (Or.inl ht)
  current := by
    rcases mem_queue_or_members_eq hsound last.space space met with hqueue | hmembers
    · exact Or.inl hqueue
    · rw [hmembers, members_of_pop? hpop]
      refine h.current.imp_left ?_
      intro hqueue
      have hold : space ∈ registry.queue := mem_queue_of_pop? hpop hne hqueue
      exact Registry.queue_subset_addAll (hsound.clear _) met hold
  written := by
    obtain ⟨l, hl, hentry, hdisk⟩ := Disk.write_eq_ok hwrite
    have hput := Disk.keeps_put_file hentry bytes
    have hkeeps : s.disk.Keeps disk := hdisk ▸ hmade.keeps.trans hput
    obtain ⟨l', hl', hfile⟩ := h.written
    refine ⟨l', hkeeps.locateFor hl', ?_⟩
    -- The location is that of the new stub, or it is as before.
    by_cases hsame : l' = l
    · subst hsame
      refine Or.inr ⟨last.space, last, hne.symm, lastEmission?_emitted s.events last, ?_⟩
      rw [hdisk]
      exact hput.locateFor hl
    · rcases hfile with hfile | ⟨other, e', hother, hlast, hl''⟩
      · left
        rw [hdisk, Disk.at?_put (Disk.ne_nil_of_at? hentry), if_neg hsame]
        exact hmade.at?_of_some hfile
      · right
        by_cases hspace : other = last.space
        · subst hspace
          have hpath := hmade.keeps.locateFor hl''
          rw [hbefore e' hlast, hl] at hpath
          cases hpath
          exact absurd rfl hsame
        · refine ⟨other, e', hother, ?_, hkeeps.locateFor hl''⟩
          rw [lastEmission?_emitted_of_ne hspace]
          exact hlast

theorem Round.fresh (h : p.Round s s') (hfresh : p.Fresh s) : p.Fresh s' := by
  refine ⟨h.sound hfresh.sound, ?_⟩
  intro space e hlast
  cases h with
  | skipped hpop hselect =>
      rw [lastEmission?_skipped] at hlast
      exact (hfresh.upToDate space e hlast).skipped hpop hselect
  | @emitted last members met registry directory made disk hpop htypes hne hdirectory hpath hmade
      hadded hrender hwrite =>
      have hpopped := hfresh.sound.pop hpop
      by_cases hspace : space = last.space
      · subst hspace
        rw [lastEmission?_emitted] at hlast
        cases hlast
        exact .emitted_self hpop hpopped htypes hne hdirectory hpath hrender hwrite _
      · rw [lastEmission?_emitted_of_ne hspace] at hlast
        have hextends := Disk.extends_makeDirectories s.disk directory
        rw [hmade] at hextends
        refine (hfresh.upToDate space e hlast).emitted_of_ne hspace hpop hpopped hextends hwrite ?_
        -- The path of a stub depends on its namespace alone.
        intro e' he'
        obtain ⟨directory', hdirectory', hpath'⟩ := (hfresh.upToDate _ e' he').placed
        rw [hdirectory] at hdirectory'
        cases hdirectory'
        rw [hpath, hpath']

theorem Run.fresh (h : p.Run s s') (hfresh : p.Fresh s) : p.Fresh s' :=
  h.preserves Round.fresh hfresh

end Plan

/-- Two paths that denote one location of a disk. -/
def Disk.SameFile (d : Disk) (p q : Path) : Prop :=
  ∃ l, d.locate p = .ok l ∧ d.locate q = .ok l

namespace Built

/-- The emission behind the record of a namespace is its last one, and holds what would be written
now: the types that the namespace has at the end, rendered from the library alone. -/
structure Holds (b : Built) (space : Namespace) (file : StubFile) (e : Emission) : Prop where
  last : lastEmission? space b.events = some e
  path : file.path = e.path
  names : file.types = e.types.map (·.name)
  types : e.types = b.session.select (b.session.registry.members space)
  text : ∃ met, Stub.render b.session.loader.library space
    (b.session.select (b.session.registry.members space)) = (met, .ok e.text)

/-- A run after which no namespace is queued and no stub is stale. The file of a stub has its text,
unless another stub on record has the same file. -/
structure Settled (b : Built) (g : Generation) : Prop where
  queue : b.session.registry.queue = []
  stub : ∀ space file, g.files.get? space = some file → ∃ e, b.Holds space file e ∧
    (b.disk.read file.path = .ok e.text.toUTF8 ∨
      ∃ other otherFile, other ≠ space ∧ g.files.get? other = some otherFile ∧
        b.disk.SameFile file.path otherFile.path)

end Built

namespace Session

variable {s : Session} {disk : Disk} {destination : Path} {g : Generation}

theorem fresh_firstStage (hsound : s.registry.Sound) (disk : Disk) (destination : Path) :
    Plan.Fresh ⟨s, destination⟩ (s.firstStage disk) where
  sound := hsound
  upToDate _ _ hlast := by cases hlast

/-- Whatever a session has been through, a generation that has a result leaves no stub stale. -/
theorem generate_settled (hreached : s.Reached)
    (hresult : (s.generate disk destination).result = .ok g) :
    (s.generate disk destination).Settled g := by
  obtain ⟨last, hrun, hqueue, hbuilt⟩ := generate_eq_ok hresult
  have hfresh := hrun.fresh (fresh_firstStage hreached.registry disk destination)
  rw [hbuilt] at hresult ⊢
  cases hresult
  refine ⟨hqueue, ?_⟩
  intro space file hfile
  obtain ⟨e, hlast, hpath, hnames⟩ := Generation.exists_last_of_get?_files rfl hfile
  have hupToDate := hfresh.upToDate space e hlast
  have hcurrent := hupToDate.current.resolve_left (by simp [hqueue])
  obtain ⟨met, hrender, -⟩ := hupToDate.rendered
  obtain ⟨l, hl, hwritten⟩ := hupToDate.written
  rw [← hpath] at hl
  refine ⟨e, ?_, ?_⟩
  · exact
      { last := hlast
        path := hpath
        names := hnames
        types := hcurrent
        text := ⟨met, hcurrent ▸ hrender⟩ }
  · rcases hwritten with hread | ⟨other, e', hne, hlast', hl'⟩
    · exact Or.inl (Disk.read_of_at? hl hread)
    · right
      obtain ⟨otherFile, hother, hpath'⟩ := Generation.exists_get?_files_of_last
        (g := ⟨destination, s.loader.targetNames, [], []⟩) rfl hlast'
      rw [← hpath'] at hl'
      exact ⟨other, otherFile, hne, hother, l, (Disk.locateFor_eq_ok.mp hl).2,
        (Disk.locateFor_eq_ok.mp hl').2⟩

/-! ## A namespace that gains a type late -/

/-- A type of `N` whose base in `M` has its own base in `N`. -/
def lateDisk : Disk :=
  ⟨[], [(["m"], .directory), (["m", "A.yaml"], .file ("\n".intercalate
    ["name: A", "types:", "- name: N.T", "  base: M.V", "- name: M.V", "  base: N.W",
      "  visibility: internal", "- name: N.W", "  visibility: internal"]).toUTF8)]⟩

def lateTarget : Path := ⟨.root, ["m", "A.yaml"]⟩

def lateDestination : Path := ⟨.root, ["m", "out"]⟩

/-- A new session that loads the manifest as a target. -/
def lateLoading : Outcome (List String) :=
  ((Session.new {}).prepare lateDisk []).1.loadTargets lateDisk [lateTarget]

/-- Where the rounds of the session end. -/
def lateLast? : Option Stage :=
  Plan.drainInOrder ⟨lateLoading.1, lateDestination⟩
    (Plan.roundBound ⟨lateLoading.1, lateDestination⟩ lateLoading.1.registry)
    (lateLoading.1.firstStage lateDisk)

/-- What is on record after the last round. -/
def lateRecord (last : Stage) : Generation :=
  last.events.foldl Generation.note ⟨lateDestination, lateLoading.1.loader.targetNames, [], []⟩

set_option maxRecDepth 100000 in
theorem late_evaluated :
    lateLoading.2.2.toOption = some ["A"] ∧
    lateLoading.1.options = {} ∧
    (checkAll lateLoading.1.registry.namespaces).toOption = some () ∧
    lateLast?.map (fun last => (lateRecord last).files.values.map fun file =>
      (file.types, file.emissions)) = some [(["T", "W"], 2), (["V"], 1)] := by
  decide +kernel

/-- The stub of `N` is written twice. -/
theorem late_generated :
    ∃ last, lateLoading.1.generate lateDisk lateDestination =
        lateLoading.1.builtFrom lateDestination last ∧
      (lateRecord last).files.values.map (fun file => (file.types, file.emissions)) =
        [(["T", "W"], 2), (["V"], 1)] := by
  obtain ⟨-, -, hcheck, hlast⟩ := late_evaluated
  obtain ⟨last, hdrain, hfiles⟩ := Option.map_eq_some_iff.mp hlast
  exact ⟨last, generate_of_drainInOrder (eq_ok_of_toOption hcheck) hdrain, hfiles⟩

theorem generate_settled_late :
    ∃ g, (lateLoading.1.generate lateDisk lateDestination).result = .ok g ∧
      (lateLoading.1.generate lateDisk lateDestination).Settled g ∧
      g.files.values.map (fun file => (file.types, file.emissions)) =
        [(["T", "W"], 2), (["V"], 1)] := by
  obtain ⟨last, hgenerate, hfiles⟩ := late_generated
  have hreached : lateLoading.1.Reached := ((Reached.new {}).prepare _ _).loadAll _ _ _
  have hresult : (lateLoading.1.generate lateDisk lateDestination).result =
      .ok (lateRecord last) := by
    rw [hgenerate]
    rfl
  exact ⟨_, hresult, generate_settled hreached hresult, hfiles⟩

end Session

end StubTree
