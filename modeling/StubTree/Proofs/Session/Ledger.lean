import StubTree.Proofs.Session.Barrier
import StubTree.Proofs.Session.UpToDate

/-! # The ledger of emissions

At every stage of a run the types of a namespace are what its emissions reported as added, one
after the other, and behind them the additions that wait for the next one. No type is registered
twice, so each is reported once: by the first stub that holds it.

A namespace is left out without its additions being taken, and they wait on. Once it was written
it has types that are wanted, and from then on it is written whenever it is taken from the queue.
-/

namespace StubTree

namespace Registry

variable {r r' : Registry} {space popped : Namespace}

/-- What additions do to one namespace: its types and its additions grow alike, and it is queued if
they do. -/
theorem exists_gain_addAll (h : r.Sound) (ts : List TypeId) (space : Namespace) :
    ∃ gain, (r.addAll ts).members space = r.members space ++ gain ∧
      (r.addAll ts).pending space = r.pending space ++ gain ∧
      (space ∈ (r.addAll ts).queue ↔ space ∈ r.queue ∨ gain ≠ []) := by
  induction ts generalizing r with
  | nil => exact ⟨[], by simp [addAll]⟩
  | cons t rest ih =>
      obtain ⟨gain, hmembers, hpending, hqueue⟩ := ih (h.add t)
      change ∃ gain, ((r.add t).addAll rest).members space = r.members space ++ gain ∧
        ((r.add t).addAll rest).pending space = r.pending space ++ gain ∧
        (space ∈ ((r.add t).addAll rest).queue ↔ space ∈ r.queue ∨ gain ≠ [])
      rw [hmembers, hpending, hqueue]
      by_cases hold : t ∈ r.members t.space
      · rw [add_of_mem hold]
        exact ⟨gain, rfl, rfl, Iff.rfl⟩
      by_cases hspace : space = t.space
      · subst hspace
        refine ⟨t :: gain, ?_, ?_, ?_⟩
        · rw [members_add_self hold, List.append_assoc, List.singleton_append]
        · rw [pending_add_self hold, List.append_assoc, List.singleton_append]
        · simp [h.mem_queue_add hold]
      · refine ⟨gain, ?_, ?_, ?_⟩
        · rw [members_add_of_ne hspace]
        · rw [pending_add_of_ne hspace]
        · simp [h.mem_queue_add hold, hspace]

theorem pending_of_pop? {types : List TypeId} (h : r.pop? = some ((popped, types), r'))
    (space : Namespace) : r'.pending space = r.pending space := by
  rw [(pop?_eq_some h).2.2]
  rfl

/-- A namespace that is taken from the queue does not stand there a second time. -/
theorem Sound.mem_queue_iff_of_pop? {types : List TypeId} (h : r.Sound)
    (hpop : r.pop? = some ((popped, types), r')) :
    space ∈ r'.queue ↔ space ∈ r.queue ∧ space ≠ popped := by
  have hnodup := h.queueNodup
  rw [(pop?_eq_some hpop).1, List.nodup_cons] at hnodup
  rw [(pop?_eq_some hpop).1, List.mem_cons]
  constructor
  · intro hspace
    refine ⟨Or.inr hspace, ?_⟩
    rintro rfl
    exact hnodup.1 hspace
  · rintro ⟨rfl | hspace, hne⟩
    · exact absurd rfl hne
    · exact hspace

/-- No namespace was cleared yet: all types it has are additions, and it is queued for them. -/
structure Unopened (r : Registry) : Prop where
  sound : r.Sound
  members : ∀ space, r.members space = r.pending space
  waiting : ∀ space ∈ r.queue, r.pending space ≠ []

theorem Unopened.empty : Unopened {} where
  sound := .empty
  members _ := rfl
  waiting _ h := by cases h

theorem Unopened.addAll (h : r.Unopened) (ts : List TypeId) : (r.addAll ts).Unopened where
  sound := h.sound.addAll ts
  members := by
    intro space
    obtain ⟨gain, hmembers, hpending, -⟩ := exists_gain_addAll h.sound ts space
    rw [hmembers, hpending, h.members]
  waiting := by
    intro space hspace
    obtain ⟨gain, -, hpending, hqueue⟩ := exists_gain_addAll h.sound ts space
    rw [hpending, Ne, List.append_eq_nil_iff, not_and_or]
    exact (hqueue.mp hspace).imp_left (h.waiting space)

end Registry

theorem mem_emissionsOf {space : Namespace} {events : List Event} {e : Emission} :
    e ∈ emissionsOf space events ↔ .emitted e ∈ events ∧ e.space = space := by
  rw [emissionsOf, List.mem_filterMap]
  constructor
  · rintro ⟨event, hevent, hsome⟩
    cases event with
    | skipped => cases hsome
    | emitted e' =>
        dsimp only at hsome
        split at hsome
        next hspace =>
          cases hsome
          exact ⟨hevent, hspace⟩
        next => cases hsome
  · rintro ⟨hevent, hspace⟩
    exact ⟨.emitted e, hevent, if_pos hspace⟩

namespace Plan

variable {p : Plan} {s s' : Stage} {space : Namespace} {e last : Emission} {t : TypeId}

/-- What holds of the emissions of every namespace at every stage. -/
structure Balanced (p : Plan) (s : Stage) : Prop where
  sound : s.registry.Sound
  members : ∀ space, s.registry.members space =
    (emissionsOf space s.events).flatMap (·.added) ++ s.registry.pending space
  waiting : ∀ space ∈ s.registry.queue, s.registry.pending space ≠ []
  taken : ∀ space, emissionsOf space s.events ≠ [] → space ∉ s.registry.queue →
    s.registry.pending space = []
  types : ∀ space before e, before ++ [e] <+: emissionsOf space s.events →
    e.types = p.session.select ((before ++ [e]).flatMap (·.added))
  filled : ∀ space, ∀ e ∈ emissionsOf space s.events, e.types ≠ [] ∧ e.added ≠ []

/-- Before the first round nothing was emitted, and all types are additions. -/
theorem balanced_of_unopened (h : s.registry.Unopened) (hevents : s.events = []) :
    p.Balanced s := by
  have hnone : ∀ space, emissionsOf space s.events = [] := by
    intro space
    rw [hevents]
    rfl
  refine
    { sound := h.sound, members := ?_, waiting := h.waiting, taken := ?_, types := ?_
      filled := ?_ }
  · intro space
    rw [hnone, h.members]
    rfl
  · exact fun space hsome => absurd (hnone space) hsome
  · intro space before e hprefix
    rw [hnone, List.prefix_nil] at hprefix
    exact absurd hprefix (by simp)
  · intro space e he
    rw [hnone] at he
    cases he

/-- A namespace that has an emission has types that are wanted. -/
theorem Balanced.select_ne_nil (h : p.Balanced s) (hsome : emissionsOf space s.events ≠ []) :
    p.session.select (s.registry.members space) ≠ [] := by
  obtain ⟨before, last, hlast⟩ := (List.eq_nil_or_concat' _).resolve_left hsome
  have hprefix : before ++ [last] <+: emissionsOf space s.events := hlast ▸ List.prefix_refl _
  have hmem : last ∈ emissionsOf space s.events := hlast ▸ by simp
  have hne := (h.filled space last hmem).1
  rw [h.types space before last hprefix, ← hlast] at hne
  refine Session.select_ne_nil_of_subset ?_ hne
  rw [h.members]
  exact List.subset_append_left _ _

theorem Balanced.skipped {popped : Namespace} {members : List TypeId} {registry : Registry}
    (h : p.Balanced s) (hpop : s.registry.pop? = some ((popped, members), registry))
    (hselect : p.session.select members = []) :
    p.Balanced { s with registry, events := s.events ++ [.skipped popped] } := by
  refine
    { sound := h.sound.pop hpop, members := ?_, waiting := ?_, taken := ?_, types := ?_
      filled := ?_ }
  all_goals simp only [emissionsOf_skipped]
  · intro space
    rw [members_of_pop? hpop, Registry.pending_of_pop? hpop, h.members]
  · intro space hspace
    rw [Registry.pending_of_pop? hpop]
    exact h.waiting space (h.sound.mem_queue_iff_of_pop? hpop |>.mp hspace).1
  · intro space hsome hqueue
    -- What was emitted before is never left out.
    have hne : space ≠ popped := by
      rintro rfl
      rw [(Registry.pop?_eq_some hpop).2.1] at hselect
      exact h.select_ne_nil hsome hselect
    rw [Registry.pending_of_pop? hpop]
    exact h.taken space hsome fun hold =>
      hqueue ((h.sound.mem_queue_iff_of_pop? hpop).mpr ⟨hold, hne⟩)
  · exact h.types
  · exact h.filled

theorem Balanced.emitted {members met : List TypeId} {registry : Registry} {disk : Disk}
    (h : p.Balanced s) (hpop : s.registry.pop? = some ((last.space, members), registry))
    (htypes : last.types = p.session.select members) (hne : last.types ≠ [])
    (hadded : last.added = (registry.clear last.space).1) :
    p.Balanced
      { registry := (registry.clear last.space).2.addAll met
        disk
        events := s.events ++ [.emitted last] } := by
  have hsound := h.sound.pop hpop
  have hcleared := hsound.clear last.space
  have hadded' : last.added = s.registry.pending last.space := by
    rw [hadded, ← Registry.pending_of_pop? hpop]
    rfl
  have hmembers : members =
      (emissionsOf last.space s.events ++ [last]).flatMap (·.added) := by
    rw [(Registry.pop?_eq_some hpop).2.1, h.members, ← hadded']
    simp
  have hqueued : last.space ∈ s.registry.queue := by
    rw [(Registry.pop?_eq_some hpop).1]
    exact List.mem_cons_self
  refine
    { sound := hcleared.addAll met, members := ?_, waiting := ?_, taken := ?_, types := ?_
      filled := ?_ }
  · intro space
    obtain ⟨gain, hgain, hpending, -⟩ := Registry.exists_gain_addAll hcleared met space
    rw [hgain, hpending, Registry.members_clear, members_of_pop? hpop, h.members]
    by_cases hspace : space = last.space
    · subst hspace
      rw [emissionsOf_emitted, hsound.pending_clear_self, hadded'.symm]
      simp
    · rw [emissionsOf_emitted_of_ne hspace, Registry.pending_clear_of_ne hspace,
        Registry.pending_of_pop? hpop, List.append_assoc]
  · intro space hspace
    obtain ⟨gain, -, hpending, hqueue⟩ := Registry.exists_gain_addAll hcleared met space
    rw [hpending, Ne, List.append_eq_nil_iff, not_and_or]
    refine (hqueue.mp hspace).imp_left fun hold => ?_
    obtain ⟨hold, hother⟩ := (h.sound.mem_queue_iff_of_pop? hpop).mp hold
    rw [Registry.pending_clear_of_ne hother, Registry.pending_of_pop? hpop]
    exact h.waiting space hold
  · intro space hsome hspace
    obtain ⟨gain, -, hpending, hqueue⟩ := Registry.exists_gain_addAll hcleared met space
    rw [hqueue, not_or, not_not] at hspace
    rw [hpending, hspace.2, List.append_nil]
    by_cases hsame : space = last.space
    · subst hsame
      exact hsound.pending_clear_self _
    · rw [emissionsOf_emitted_of_ne hsame] at hsome
      rw [Registry.pending_clear_of_ne hsame, Registry.pending_of_pop? hpop]
      exact h.taken space hsome fun hold =>
        hspace.1 ((h.sound.mem_queue_iff_of_pop? hpop).mpr ⟨hold, hsame⟩)
  · intro space before e hprefix
    by_cases hspace : space = last.space
    · subst hspace
      rw [emissionsOf_emitted, List.prefix_concat_iff] at hprefix
      rcases hprefix with hnew | hold
      · obtain rfl := List.singleton_inj.mp (List.append_inj' hnew rfl).2
        rw [hnew, htypes, hmembers]
      · exact h.types _ _ _ hold
    · rw [emissionsOf_emitted_of_ne hspace] at hprefix
      exact h.types _ _ _ hprefix
  · intro space e he
    rw [mem_emissionsOf, List.mem_append, List.mem_singleton] at he
    obtain ⟨hold | hnew, hspace⟩ := he
    · exact h.filled space e (mem_emissionsOf.mpr ⟨hold, hspace⟩)
    · cases hnew
      exact ⟨hne, hadded' ▸ h.waiting _ hqueued⟩

theorem Round.balanced (hround : p.Round s s') (h : p.Balanced s) : p.Balanced s' := by
  cases hround with
  | skipped hpop hselect => exact h.skipped hpop hselect
  | emitted hpop htypes hne _ _ _ hadded => exact h.emitted hpop htypes hne hadded

theorem Run.balanced (hrun : p.Run s s') (h : p.Balanced s) : p.Balanced s' :=
  hrun.preserves Round.balanced h

end Plan

/-- Of the emissions just one reports the type as added, the first that holds it. -/
def ReportedOnce (t : TypeId) (emissions : List Emission) : Prop :=
  ∃ before first after, emissions = before ++ first :: after ∧ t ∈ first.types ∧ t ∈ first.added ∧
    (∀ e ∈ before, t ∉ e.types ∧ t ∉ e.added) ∧ ∀ e ∈ after, t ∉ e.added

namespace Plan.Balanced

variable {p : Plan} {s : Stage} {space : Namespace} {e : Emission} {t : TypeId}

/-- No type is reported as added twice. -/
theorem nodup_added (h : p.Balanced s) (space : Namespace) :
    ((emissionsOf space s.events).flatMap (·.added)).Nodup := by
  have hnodup := h.sound.membersNodup space
  rw [h.members] at hnodup
  exact (List.nodup_append.mp hnodup).1

theorem types_of_last (h : p.Balanced s) (hlast : lastEmission? space s.events = some e) :
    e.types = p.session.select ((emissionsOf space s.events).flatMap (·.added)) := by
  obtain ⟨before, hbefore⟩ := List.getLast?_eq_some_iff.mp hlast
  rw [hbefore]
  exact h.types space before e (hbefore ▸ List.prefix_refl _)

/-- A type that a stub holds was added by it or before. -/
theorem mem_types_iff {before after : List Emission} (h : p.Balanced s)
    (hemissions : emissionsOf space s.events = before ++ e :: after) :
    t ∈ e.types ↔ (t ∈ before.flatMap (·.added) ∨ t ∈ e.added) ∧ p.session.Wants t := by
  have hprefix : before ++ [e] <+: emissionsOf space s.events :=
    ⟨after, by rw [hemissions, List.append_assoc, List.singleton_append]⟩
  rw [h.types space before e hprefix, Session.mem_select, List.flatMap_append, List.mem_append,
    List.flatMap_singleton]

theorem reportedOnce (h : p.Balanced s) (hlast : lastEmission? space s.events = some e)
    (ht : t ∈ e.types) : ReportedOnce t (emissionsOf space s.events) := by
  rw [h.types_of_last hlast, Session.mem_select] at ht
  obtain ⟨hadded, hwants⟩ := ht
  obtain ⟨first, hfirst, hnew⟩ := List.mem_flatMap.mp hadded
  obtain ⟨before, after, hsplit⟩ := List.append_of_mem hfirst
  have hnodup := h.nodup_added space
  rw [hsplit, List.flatMap_append, List.flatMap_cons, List.nodup_append] at hnodup
  obtain ⟨-, hlater, hapart⟩ := hnodup
  have hbefore : t ∉ before.flatMap (·.added) := fun hold =>
    hapart t hold t (List.mem_append_left _ hnew) rfl
  refine ⟨before, first, after, hsplit, (h.mem_types_iff hsplit).mpr ⟨Or.inr hnew, hwants⟩, hnew,
    ?_, ?_⟩
  · intro other hother
    have hother' : t ∉ other.added := fun hold =>
      hbefore (List.mem_flatMap.mpr ⟨other, hother, hold⟩)
    refine ⟨?_, hother'⟩
    obtain ⟨former, later, rfl⟩ := List.append_of_mem hother
    rw [List.append_assoc, List.cons_append] at hsplit
    rw [h.mem_types_iff hsplit]
    rintro ⟨hold | hold, -⟩
    · exact hbefore (by rw [List.flatMap_append]; exact List.mem_append_left _ hold)
    · exact hother' hold
  · intro other hother hold
    have hmem : t ∈ after.flatMap (·.added) := List.mem_flatMap.mpr ⟨other, hother, hold⟩
    exact (List.nodup_append.mp hlater).2.2 t hnew t hmem rfl

/-- Where every type is wanted, every stub holds a type that is new. -/
theorem filter_added_ne_nil (h : p.Balanced s) (hall : p.session.options.onlyTargetTypes = false)
    (he : e ∈ emissionsOf space s.events) : e.types.filter (· ∈ e.added) ≠ [] := by
  obtain ⟨t, ht⟩ := List.exists_mem_of_ne_nil _ (h.filled space e he).2
  obtain ⟨before, after, hsplit⟩ := List.append_of_mem he
  have htypes := (h.mem_types_iff hsplit).mpr ⟨Or.inr ht, Session.wants_of_all hall t⟩
  exact List.ne_nil_of_mem (List.mem_filter.mpr ⟨htypes, decide_eq_true ht⟩)

/-- Where every type is wanted, a stub is written no more often than it has types. -/
theorem length_emissionsOf_le (h : p.Balanced s)
    (hall : p.session.options.onlyTargetTypes = false)
    (hlast : lastEmission? space s.events = some e) :
    (emissionsOf space s.events).length ≤ e.types.length := by
  have hone : ∀ n ∈ (emissionsOf space s.events).map (·.added.length), 1 ≤ n := by
    intro n hn
    obtain ⟨other, hother, rfl⟩ := List.mem_map.mp hn
    exact List.length_pos_of_ne_nil (h.filled space other hother).2
  have hsum := List.length_le_sum_of_one_le _ hone
  rw [h.types_of_last hlast, Session.length_select_of_all hall, List.length_flatMap]
  rwa [List.length_map] at hsum

end Plan.Balanced

/-- A run whose record accounts for every type. The types of a stub are reported as added once each,
and where the run ends no addition waits but those of the namespaces that were left out. -/
structure Built.Accounted (b : Built) (g : Generation) : Prop where
  record : ∀ space, g.files.get? space = StubFile.of? (emissionsOf space b.events)
  reported : ∀ space e, lastEmission? space b.events = some e → ∀ t ∈ e.types,
    ReportedOnce t (emissionsOf space b.events)
  news : b.session.options.onlyTargetTypes = false → ∀ space, ∀ e ∈ emissionsOf space b.events,
    e.types.filter (· ∈ e.added) ≠ []
  count : b.session.options.onlyTargetTypes = false → ∀ space file,
    g.files.get? space = some file → file.emissions ≤ file.types.length
  taken : ∀ space ∈ g.files.keys, b.session.registry.pending space = []
  kept : ∀ space ∈ g.skipped,
    b.session.registry.pending space = b.session.registry.members space

namespace Session

variable {s loaded : Session} {disk : Disk} {destination : Path} {targets searchPaths : List Path}
  {choice : Option Document} {names : List String} {said : List Progress} {g : Generation}

theorem Row.unopened {calls : List Loader.Call} (h : Row disk s calls loaded)
    (hs : s.registry.Unopened) : loaded.registry.Unopened := by
  induction h with
  | nil => exact hs
  | cons _ _ ih => exact ih (hs.addAll _)

/-- A build starts its first round with additions alone, whatever was registered before it. -/
theorem Loading.unopened (h : s.Loading disk targets searchPaths choice loaded names said) :
    loaded.registry.Unopened := by
  obtain ⟨chosen, prepared, -, -, hregistry, hrow⟩ := h.exists_row
  apply hrow.unopened
  rw [hregistry]
  exact .empty

theorem accounted_of_balanced {last : Stage} (h : Plan.Balanced ⟨s, destination⟩ last)
    (hqueue : last.registry.queue = []) (hresult : (s.builtFrom destination last).result = .ok g) :
    (s.builtFrom destination last).Accounted g := by
  cases hresult
  have hrecord : ∀ space, (last.events.foldl Generation.note
      ⟨destination, s.loader.targetNames, [], []⟩).files.get? space =
        StubFile.of? (emissionsOf space last.events) :=
    fun space => Generation.get?_files_foldl_note rfl space last.events
  refine
    { record := hrecord
      reported := fun space e hlast t ht => h.reportedOnce hlast ht
      news := fun hall space e he => h.filter_added_ne_nil hall he
      count := ?_
      taken := ?_
      kept := ?_ }
  · intro hall space file hfile
    rw [hrecord, StubFile.of?] at hfile
    obtain ⟨e, hlast, rfl⟩ := Option.map_eq_some_iff.mp hfile
    rw [List.length_map]
    exact h.length_emissionsOf_le hall hlast
  · intro space hspace
    obtain ⟨e, hlast⟩ := (Generation.mem_keys_foldl_note rfl).mp hspace
    refine h.taken space ?_ (by simp [hqueue])
    intro hnone
    rw [lastEmission?, hnone] at hlast
    cases hlast
  · intro space hspace
    obtain ⟨-, hnone⟩ := (Generation.mem_skipped_foldl_note rfl rfl).mp hspace
    rw [lastEmission?, List.getLast?_eq_none_iff] at hnone
    have hmembers := h.members space
    rw [hnone] at hmembers
    exact hmembers.symm

/-- Every build that has a result accounts for all types it wrote. -/
theorem build_accounted
    (hresult : (s.build disk destination targets searchPaths choice).result = .ok g) :
    (s.build disk destination targets searchPaths choice).Accounted g := by
  obtain ⟨loaded, names, said, hloading, hbuild⟩ := exists_loading hresult
  rw [hbuild] at hresult ⊢
  obtain ⟨last, hrun, hqueue, hgenerate⟩ := generate_eq_ok hresult
  rw [hgenerate] at hresult ⊢
  have hstart : Plan.Balanced ⟨loaded, destination⟩ (loaded.firstStage disk) :=
    Plan.balanced_of_unopened hloading.unopened rfl
  have haccounted := accounted_of_balanced (hrun.balanced hstart) hqueue hresult
  exact { haccounted with }

/-- A target whose types refer to types of another binary, one of them in a namespace that the
target has a type in, too, which is met late. -/
def ledgerDisk : Disk :=
  ⟨[], [(["m"], .directory),
    (["m", "T.yaml"], .file ("\n".intercalate
      ["name: T", "references: [N]", "types:",
        "- name: P.A", "  base: Y.C", "  interfaces: [Q.B, Z.W]",
        "- name: Q.B", "  base: Y.H", "  visibility: internal",
        "- name: Y.H", "  visibility: internal"]).toUTF8),
    (["m", "N.yaml"], .file ("\n".intercalate
      ["name: N", "types:", "- name: Y.C", "- name: Z.W"]).toUTF8)]⟩

def ledgerDestination : Path := ⟨.root, ["m", "out"]⟩

def ledgerTarget : Path := ⟨.root, ["m", "T.yaml"]⟩

/-- What is on record of the stubs, the namespaces left out, and what waits in the last of them. -/
def ledgerView (b : Built) (g : Generation) :
    List (String × List String × Nat × List String) × List Namespace × List TypeId :=
  (g.files.map fun f => (f.1.moduleName, f.2.types, f.2.emissions, f.2.added), g.skipped,
    b.session.registry.pending (.named "Z"))

/-- That view of a build, computed without sorting. -/
def ledgerRecord? (choice : Option Document) :
    Option (List (String × List String × Nat × List String) × List Namespace × List TypeId) :=
  ((Session.new {}).buildInOrder ledgerDisk ledgerDestination [ledgerTarget] [] choice).bind
    fun b => b.result.toOption.map (ledgerView b)

set_option synthInstance.maxSize 1000 in
set_option maxRecDepth 100000 in
theorem ledger_evaluated :
    ledgerRecord? none =
        some ([("P", ["A"], 1, ["A"]), ("Y", ["C", "H"], 2, ["H"]), ("Q", ["B"], 1, ["B"]),
          ("Z", ["W"], 1, ["W"])], [], []) ∧
      ledgerRecord? (some (.bool true)) =
        some ([("P", ["A"], 1, ["A"]), ("Q", ["B"], 1, ["B"]), ("Y", ["H"], 1, ["H"])],
          [.named "Z"], [⟨.named "Z", "W", "N"⟩]) := by
  decide +kernel

def ledgerBuild (choice : Option Document) : Built :=
  (Session.new {}).build ledgerDisk ledgerDestination [ledgerTarget] [] choice

/-- With all types, `Y` is written twice. With those of the target alone it is left out first, and
then written once. -/
theorem build_accounted_late :
    (∃ g, (ledgerBuild none).result = .ok g ∧ (ledgerBuild none).Accounted g ∧
      g.files.values.map (fun file => (file.types, file.emissions)) =
        [(["A"], 1), (["C", "H"], 2), (["B"], 1), (["W"], 1)]) ∧
    ∃ g, (ledgerBuild (some (.bool true))).result = .ok g ∧
      (ledgerBuild (some (.bool true))).Accounted g ∧ g.skipped = [.named "Z"] := by
  obtain ⟨hall, htargets⟩ := ledger_evaluated
  constructor
  · obtain ⟨g, hresult, hview⟩ := exists_result_of_buildInOrder hall
    refine ⟨g, hresult, build_accounted hresult, ?_⟩
    have hfiles := congrArg (·.1.map fun f => (f.2.1, f.2.2.1)) hview
    simp only [ledgerView, List.map_map] at hfiles
    rw [Keyed.values, List.map_map]
    exact hfiles
  · obtain ⟨g, hresult, hview⟩ := exists_result_of_buildInOrder htargets
    exact ⟨g, hresult, build_accounted hresult, congrArg (·.2.1) hview⟩

end Session

end StubTree
