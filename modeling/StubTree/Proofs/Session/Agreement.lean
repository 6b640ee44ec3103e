import StubTree.Proofs.Library.Within
import StubTree.Proofs.Session.Targets
import StubTree.Proofs.Session.Termination

/-! # Plans that agree

Two plans agree where the types that both start from mean the same in their libraries. They come to
the same types, and write the same stubs of them in the end, in whatever order. If they start with
the same registry as well, they write them in the same order: every round of the one is a round of
the other.
-/

namespace StubTree

/-- What an emission leaves of a namespace, whenever it comes and whatever came before it. -/
def Emission.content (e : Emission) : Path × List TypeId × String := (e.path, e.types, e.text)

/-- Runs with the same stubs in the end, whatever was written before. -/
def SameContents (events events' : List Event) : Prop :=
  ∀ space, (lastEmission? space events').map Emission.content =
    (lastEmission? space events).map Emission.content

/-! ## The same stubs in the end -/

namespace SameContents

variable {events events' : List Event} {space : Namespace} {e : Emission} {g g' : Generation}

theorem symm (h : SameContents events events') : SameContents events' events :=
  fun space => (h space).symm

theorem exists_last (h : SameContents events events')
    (hlast : lastEmission? space events = some e) :
    ∃ e', lastEmission? space events' = some e' ∧ e'.path = e.path ∧ e'.types = e.types ∧
      e'.text = e.text := by
  have hspace := h space
  rw [hlast] at hspace
  obtain ⟨e', hlast', hcontent⟩ := Option.map_eq_some_iff.mp hspace
  simp only [Emission.content, Prod.mk.injEq] at hcontent
  exact ⟨e', hlast', hcontent⟩

theorem mem_keys_iff (h : SameContents events events') (hempty : g.files = [])
    (hempty' : g'.files = []) :
    space ∈ (events'.foldl Generation.note g').files.keys ↔
      space ∈ (events.foldl Generation.note g).files.keys := by
  rw [Generation.mem_keys_foldl_note hempty, Generation.mem_keys_foldl_note hempty']
  constructor
  · rintro ⟨e', hlast'⟩
    obtain ⟨e, hlast, -⟩ := h.symm.exists_last hlast'
    exact ⟨e, hlast⟩
  · rintro ⟨e, hlast⟩
    obtain ⟨e', hlast', -⟩ := h.exists_last hlast
    exact ⟨e', hlast'⟩

/-- The records of both have the same path and the same types under every namespace. -/
theorem exists_file (h : SameContents events events') (hempty : g.files = [])
    (hempty' : g'.files = []) {file : StubFile}
    (hfile : (events.foldl Generation.note g).files.get? space = some file) :
    ∃ file', (events'.foldl Generation.note g').files.get? space = some file' ∧
      file'.path = file.path ∧ file'.types = file.types := by
  have hspace := (h.mem_keys_iff hempty hempty').mpr (Keyed.mem_keys_of_get? hfile)
  obtain ⟨file', hfile'⟩ := Keyed.exists_get?_of_mem_keys hspace
  obtain ⟨e, hlast, hpath, hnames⟩ := Generation.exists_last_of_get?_files hempty hfile
  obtain ⟨e', hlast', hpath', hnames'⟩ := Generation.exists_last_of_get?_files hempty' hfile'
  obtain ⟨e'', hlast'', hsamePath, hsameTypes, -⟩ := h.exists_last hlast
  rw [hlast'] at hlast''
  cases hlast''
  refine ⟨file', hfile', ?_, ?_⟩
  · rw [hpath', hpath, hsamePath]
  · rw [hnames', hnames, hsameTypes]

theorem perm_keys (h : SameContents events events') (hempty : g.files = [])
    (hempty' : g'.files = []) :
    (events'.foldl Generation.note g').files.keys.Perm
      (events.foldl Generation.note g).files.keys := by
  rw [List.perm_ext_iff_of_nodup (Generation.nodup_keys_foldl_note hempty' events')
    (Generation.nodup_keys_foldl_note hempty events)]
  exact fun _ => h.mem_keys_iff hempty hempty'

/-- Both have as many types on record. -/
theorem typeCount_eq (h : SameContents events events') (hempty : g.files = [])
    (hempty' : g'.files = []) :
    (events'.foldl Generation.note g').typeCount = (events.foldl Generation.note g).typeCount := by
  let count (space : Namespace) : Nat :=
    (((events.foldl Generation.note g).files.get? space).map (·.types.length)).getD 0
  have hcount : ∀ space file, (events.foldl Generation.note g).files.get? space = some file →
      file.types.length = count space := by
    intro space file hfile
    simp only [count, hfile, Option.map_some, Option.getD_some]
  have hcount' : ∀ space file', (events'.foldl Generation.note g').files.get? space = some file' →
      file'.types.length = count space := by
    intro space file' hfile'
    obtain ⟨file, hfile, -, htypes⟩ := h.symm.exists_file hempty' hempty hfile'
    rw [← hcount space file hfile, htypes]
  rw [Generation.typeCount_eq_total (Generation.nodup_keys_foldl_note hempty events) count hcount,
    Generation.typeCount_eq_total (Generation.nodup_keys_foldl_note hempty' events') count hcount']
  exact ((h.perm_keys hempty hempty').map count).sum_eq

end SameContents

/-! ## Plans that agree -/

namespace Plan

/-- Two plans that write the same stubs once they have come to the same types. -/
structure Agree (p p' : Plan) (seed seed' : TypeId → Prop) : Prop where
  destination : p'.destination = p.destination
  options : p'.session.options = p.session.options
  sound : p.library.Sound
  closed : p.library.Closed
  sound' : p'.library.Sound
  within : p.library.Within p'.library
  seeds : ∀ t, seed t → t.unit ∈ Keyed.keys p.library
  seed_iff : ∀ t, seed' t ↔ seed t
  wants_iff : ∀ t, p'.session.Wants t ↔ p.session.Wants t

namespace Agree

variable {p p' : Plan} {seed seed' : TypeId → Prop} {s s' : Stage} {t : TypeId} {space : Namespace}
  {e e' : Emission}

theorem reaches_iff (h : p.Agree p' seed seed') : p'.Reaches seed' t ↔ p.Reaches seed t := by
  obtain rfl : seed' = seed := funext fun t => propext (h.seed_iff t)
  have hwants : p'.session.Wants = p.session.Wants := funext fun t => propext (h.wants_iff t)
  rw [Reaches, Reaches, hwants]
  exact h.within.closureWithin_iff h.closed h.seeds

theorem mem_keys_of_reaches (h : p.Agree p' seed seed') (ht : p.Reaches seed t) :
    t.unit ∈ Keyed.keys p.library := by
  cases ht with
  | seed hseed => exact h.seeds t hseed
  | refers _ hrefers =>
      obtain ⟨d, hdeclares⟩ := h.closed.declares_of_refers hrefers
      exact hdeclares.mem_keys

section

variable (h : p.Agree p' seed seed') (hs : p.Following seed s) (hs' : p'.Following seed' s')
  (hqueue : s.registry.queue = []) (hqueue' : s'.registry.queue = [])

include h hs hs' hqueue hqueue'

theorem contains_iff : s'.registry.contains t ↔ s.registry.contains t := by
  rw [hs.contains_iff_met h.sound hqueue, hs'.contains_iff_met h.sound' hqueue', h.seed_iff]
  refine or_congr_right (exists_congr fun r => ?_)
  rw [h.reaches_iff]
  refine and_congr_right fun hr => ?_
  exact h.within.refers_iff h.closed (h.mem_keys_of_reaches hr)

theorem content_eq (hlast : lastEmission? space s.events = some e)
    (hlast' : lastEmission? space s'.events = some e') : e'.content = e.content := by
  have htypes : e'.types = e.types := by
    apply Session.eq_of_pairwise_precedes (hs'.pairwise_types hqueue' hlast')
      (hs.pairwise_types hqueue hlast)
    intro t
    rw [hs.mem_types_iff_reaches h.sound hqueue hlast,
      hs'.mem_types_iff_reaches h.sound' hqueue' hlast', h.reaches_iff]
  have hup := hs.upToDate space e hlast
  have hup' := hs'.upToDate space e' hlast'
  have hpath : e'.path = e.path := by
    obtain ⟨directory, hdirectory, hpath⟩ := hup.placed
    obtain ⟨directory', hdirectory', hpath'⟩ := hup'.placed
    rw [h.destination, hdirectory] at hdirectory'
    cases hdirectory'
    rw [hpath, hpath', stubPath, stubPath, h.options]
  have htext : e'.text = e.text := by
    obtain ⟨met, hrender, -⟩ := hup.rendered
    obtain ⟨met', hrender', -⟩ := hup'.rendered
    have hunits : ∀ t ∈ e.types, t.unit ∈ Keyed.keys p.library := fun t ht =>
      h.mem_keys_of_reaches ((hs.mem_types_iff_reaches h.sound hqueue hlast).mp ht).1
    rw [htypes, Stub.render_within h.within h.closed hunits, hrender] at hrender'
    exact (Except.ok.inj (Prod.mk.inj hrender').2).symm
  rw [Emission.content, Emission.content, hpath, htypes, htext]

/-- In the end both have written the same stub of every namespace, or none. -/
theorem sameContents : SameContents s.events s'.events := by
  intro space
  have hsome : (∃ e', lastEmission? space s'.events = some e') ↔
      ∃ e, lastEmission? space s.events = some e := by
    rw [hs.exists_last_iff h.sound hqueue, hs'.exists_last_iff h.sound' hqueue']
    simp only [h.reaches_iff]
  cases hlast : lastEmission? space s.events with
  | none =>
      cases hlast' : lastEmission? space s'.events with
      | none => rfl
      | some e' =>
          obtain ⟨e, he⟩ := hsome.mp ⟨e', hlast'⟩
          rw [hlast] at he
          cases he
  | some e =>
      obtain ⟨e', hlast'⟩ := hsome.mpr ⟨e, hlast⟩
      rw [hlast', Option.map_some, Option.map_some, h.content_eq hs hs' hqueue hqueue' hlast hlast']

/-- In the end both have left out the same namespaces. -/
theorem left_out_iff :
    .skipped space ∈ s'.events ∧ lastEmission? space s'.events = none ↔
      .skipped space ∈ s.events ∧ lastEmission? space s.events = none := by
  have hspaces : space ∈ s'.registry.namespaces ↔ space ∈ s.registry.namespaces := by
    constructor
    · intro hspace
      obtain ⟨t, ht, rfl⟩ := hs'.sound.exists_contains_of_mem_namespaces hspace
      exact hs.sound.mem_namespaces_of_contains
        ((h.contains_iff hs hs' hqueue hqueue').mp ht)
    · intro hspace
      obtain ⟨t, ht, rfl⟩ := hs.sound.exists_contains_of_mem_namespaces hspace
      exact hs'.sound.mem_namespaces_of_contains
        ((h.contains_iff hs hs' hqueue hqueue').mpr ht)
  rw [hs.left_out_iff h.sound hqueue, hs'.left_out_iff h.sound' hqueue', hspaces]
  simp only [h.reaches_iff]

end

/-! ### Round by round -/

theorem select_eq (h : p.Agree p' seed seed') (members : List TypeId) :
    p'.session.select members = p.session.select members := by
  rw [Session.select, Session.select, h.options]
  split
  next honly =>
    have honly' : p'.session.options.onlyTargetTypes = true := h.options ▸ honly
    have hfilter : members.filter (·.unit ∈ p'.session.loader.targets) =
        members.filter (·.unit ∈ p.session.loader.targets) := by
      apply List.filter_congr
      intro t _
      rw [decide_eq_decide, ← Session.wants_iff honly', ← Session.wants_iff honly]
      exact h.wants_iff t
    rw [hfilter]
  next => rfl

theorem emit_eq (h : p.Agree p' seed seed') {types : List TypeId}
    (htypes : ∀ t ∈ types, t.unit ∈ Keyed.keys p.library) :
    p'.emit s space types = p.emit s space types := by
  simp only [emit, stubPath, h.destination, h.options, Enumeration.names_listed,
    Stub.render_within h.within h.closed htypes]

/-- The types that a round writes are declared in the library of the first plan. -/
theorem mem_keys_of_mem_select (hs : p.Following seed s) {members : List TypeId}
    {registry : Registry} (hpop : s.registry.pop? = some ((space, members), registry))
    (ht : t ∈ p.session.select members) : t.unit ∈ Keyed.keys p.library := by
  have hmember := (Session.mem_select.mp ht).1
  rw [(Registry.pop?_eq_some hpop).2.1, hs.sound.mem_members_iff] at hmember
  obtain ⟨d, hdeclares⟩ := hs.declared t hmember.1
  exact hdeclares.mem_keys

theorem round?_eq (h : p.Agree p' seed seed') (hs : p.Following seed s) :
    p'.round? s = p.round? s := by
  rw [round?, round?]
  split
  next => rfl
  next space members registry hpop =>
    have hemit : p'.emit { s with registry } space (p.session.select members) =
        p.emit { s with registry } space (p.session.select members) :=
      h.emit_eq fun t ht => mem_keys_of_mem_select hs hpop ht
    dsimp only [Enumeration.members_listed]
    rw [h.select_eq]
    cases hselect : p.session.select members with
    | nil => rfl
    | cons t types =>
        rw [hselect] at hemit
        dsimp only
        rw [hemit]

/-- From one stage both go through the same stages. -/
theorem drain_eq (h : p.Agree p' seed seed') (hs : p.Following seed s) (fuel : Nat) :
    p'.drain fuel s = p.drain fuel s := by
  induction fuel generalizing s with
  | zero => rfl
  | succ fuel ih =>
      rw [drain, drain, h.round?_eq hs]
      split
      next => rfl
      next => rfl
      next next hround =>
        exact ih ((round_of_round? hround).following h.sound h.closed hs)

/-- What a round registers and writes depends on the registry alone, and not on the disk. -/
theorem round_eq (h : p.Agree p' seed seed') (hs : p.Following seed s) {t t' : Stage}
    (hround : p.Round s t) (hround' : p'.Round s' t') (hregistry : s'.registry = s.registry)
    (hevents : s'.events = s.events) : t'.registry = t.registry ∧ t'.events = t.events := by
  cases hround with
  | skipped hpop hselect =>
      cases hround' with
      | skipped hpop' hselect' =>
          rw [hregistry, hpop] at hpop'
          cases hpop'
          exact ⟨rfl, by rw [hevents]⟩
      | emitted hpop' htypes' hne' =>
          rw [hregistry, hpop] at hpop'
          cases hpop'
          rw [h.select_eq, hselect] at htypes'
          exact absurd htypes' hne'
  | @emitted e members met registry directory made disk hpop htypes hne hdirectory hpath hmade
      hadded hrender hwrite =>
      cases hround' with
      | skipped hpop' hselect' =>
          rw [hregistry, hpop] at hpop'
          cases hpop'
          rw [h.select_eq, ← htypes] at hselect'
          exact absurd hselect' hne
      | @emitted e' members' met' registry' directory' made' disk' hpop' htypes' hne' hdirectory'
          hpath' hmade' hadded' hrender' hwrite' =>
          obtain ⟨space, path, types, added, text⟩ := e
          obtain ⟨space', path', types', added', text'⟩ := e'
          dsimp only at *
          rw [hregistry, hpop] at hpop'
          cases hpop'
          rw [h.destination, hdirectory] at hdirectory'
          cases hdirectory'
          have hsame : types' = types := by rw [htypes', htypes, h.select_eq]
          have hunits : ∀ t ∈ types, t.unit ∈ Keyed.keys p.library := by
            rw [htypes]
            exact fun t ht => mem_keys_of_mem_select hs hpop ht
          rw [hsame, Stub.render_within h.within h.closed hunits, hrender] at hrender'
          cases hrender'
          refine ⟨rfl, ?_⟩
          rw [hevents, hsame, hpath', hpath, hadded', hadded, stubPath, stubPath, h.options]

/-- Runs to the end from one registry do the same, whatever the disks are. -/
theorem run_eq (h : p.Agree p' seed seed') {last last' : Stage} (hs : p.Following seed s)
    (hrun : p.Run s last) (hrun' : p'.Run s' last') (hregistry : s'.registry = s.registry)
    (hevents : s'.events = s.events) (hqueue : last.registry.queue = [])
    (hqueue' : last'.registry.queue = []) :
    last'.registry = last.registry ∧ last'.events = last.events := by
  -- A stage with an empty queue has no next round.
  have hstuck : ∀ {p : Plan} {s t : Stage}, p.Round s t → s.registry.queue ≠ [] := by
    intro p s t hround
    cases hround with
    | skipped hpop => simp [(Registry.pop?_eq_some hpop).1]
    | emitted hpop => simp [(Registry.pop?_eq_some hpop).1]
  induction hrun using Relation.ReflTransGen.head_induction_on generalizing s' with
  | refl =>
      rcases hrun'.cases_head with rfl | ⟨t', hround', -⟩
      · exact ⟨hregistry, hevents⟩
      · exact absurd (hregistry ▸ hqueue) (hstuck hround')
  | head hround _ ih =>
      rcases hrun'.cases_head with rfl | ⟨t', hround', hrest'⟩
      · exact absurd (hregistry ▸ hqueue') (hstuck hround)
      · obtain ⟨hregistry', hevents'⟩ := h.round_eq hs hround hround' hregistry hevents
        exact ih (hround.following h.sound h.closed hs) hrest' hregistry' hevents'

end Agree

end Plan

namespace Session

variable {loaded loaded' : Session} {disk disk' : Disk} {destination : Path}
  {targets targets' : List Path} {names names' : List String} {seed seed' : TypeId → Prop}
  {g : Generation}

/-- Sessions that have loaded the same names agree, if one of them has all that the other one
has. -/
theorem agree_of_within (hloaded : Loaded disk targets loaded names)
    (hloaded' : Loaded disk' targets' loaded' names') (hoptions : loaded'.options = loaded.options)
    (hnames : ∀ name, name ∈ names' ↔ name ∈ names)
    (hwithin : loaded.loader.library.Within loaded'.loader.library)
    (hwants : ∀ t, loaded'.Wants t ↔ loaded.Wants t) (destination : Path) :
    Plan.Agree ⟨loaded, destination⟩ ⟨loaded', destination⟩ (loaded.Seed disk targets)
      (loaded'.Seed disk' targets') where
  destination := rfl
  options := hoptions
  sound := hloaded.loader.sound
  closed := hloaded.loader.standard.2
  sound' := hloaded'.loader.sound
  within := hwithin
  seeds t ht := by
    obtain ⟨d, hdeclares⟩ := hloaded.declared (hloaded.contains.mpr (hloaded.seed_iff.mp ht))
    exact hdeclares.mem_keys
  seed_iff t := by
    rw [hloaded.seed_iff, hloaded'.seed_iff, List.mem_flatMap, List.mem_flatMap]
    refine exists_congr fun name => ?_
    rw [hnames]
    refine and_congr_right fun hname => ?_
    rw [hwithin.exported (hloaded.held name hname)]
  wants_iff := hwants

/-- Where both have loaded the names in one order, they start with the same registry. -/
theorem registry_eq_of_within (hloaded : Loaded disk targets loaded names)
    (hloaded' : Loaded disk' targets' loaded' names)
    (hwithin : loaded.loader.library.Within loaded'.loader.library) :
    loaded'.registry = loaded.registry := by
  rw [hloaded.registry, hloaded'.registry]
  congr 1
  exact List.flatMap_congr fun name hname => hwithin.exported (hloaded.held name hname)

/-- Where the second session comes to an end, so does the first one, with the same last stage: its
library leaves room for every round. -/
theorem generate_of_agree {s s' : Session}
    (h : Plan.Agree ⟨s, destination⟩ ⟨s', destination⟩ seed seed')
    (hs : Plan.Following ⟨s, destination⟩ seed (s.firstStage disk))
    (hregistry : s'.registry = s.registry)
    (hresult : (s'.generate disk destination).result = .ok g) :
    ∃ last, s.generate disk destination = s.builtFrom destination last ∧
      s'.generate disk destination = s'.builtFrom destination last := by
  obtain ⟨hcheck, last, hdrain⟩ := drain_of_generate hresult
  refine ⟨last, ?_, generate_of_drain hcheck hdrain⟩
  rw [hregistry] at hcheck hdrain
  rw [firstStage, hregistry, ← firstStage, h.drain_eq hs] at hdrain
  have hlast := (Plan.drain_eq_none hdrain).1.following h.sound h.closed hs
  apply generate_of_drain hcheck
  apply Plan.drain_of_drain hdrain
  have hsize := hlast.size_le
  change s.registry.queue.length + last.registry.size ≤
    Plan.roundBound ⟨s, destination⟩ s.registry + s.registry.size
  rw [Plan.roundBound]
  omega

end Session

end StubTree
