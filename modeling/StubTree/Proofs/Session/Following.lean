import StubTree.Proofs.Library.References
import StubTree.Proofs.Session.UpToDate
import StubTree.Proofs.Stub.Meeting

/-! # What a run follows

The references of a type are followed while the stub of its namespace is rendered, if the type is
wanted there. At every stage a wanted type that is registered has been followed, or its namespace
is queued; a type that joins a namespace while the stub of that namespace is rendered queues it
once more.
-/

namespace StubTree.Plan

variable {p : Plan} {s s' : Stage} {seed : TypeId → Prop} {t u : TypeId} {space : Namespace}

/-- The types that a run writes. -/
def Reaches (p : Plan) (seed : TypeId → Prop) : TypeId → Prop :=
  p.library.ClosureWithin p.session.Wants seed

/-- All that the declaration of a type refers to is registered. -/
def Followed (p : Plan) (s : Stage) (t : TypeId) : Prop :=
  ∃ d us, p.library.Declares t d ∧ p.library.referenced ⟨.held t.unit, d⟩ = .ok us ∧
    ∀ u ∈ us, s.registry.contains u

/-- What holds at every stage of a run. -/
structure Following (p : Plan) (seed : TypeId → Prop) (s : Stage) : Prop extends Fresh p s where
  declared : ∀ t, s.registry.contains t → ∃ d, p.library.Declares t d
  seeds : ∀ t, seed t → s.registry.contains t
  met : ∀ t, s.registry.contains t → seed t ∨ ∃ r, p.Reaches seed r ∧ p.library.Refers r t
  followed : ∀ t, s.registry.contains t → p.session.Wants t →
    t.space ∈ s.registry.queue ∨ p.Followed s t
  listed : ∀ space ∈ s.registry.namespaces, space ∈ s.registry.queue ∨
    (∃ e, lastEmission? space s.events = some e) ∨
      (.skipped space ∈ s.events ∧ p.session.select (s.registry.members space) = [])
  known : ∀ space, .skipped space ∈ s.events → space ∈ s.registry.namespaces

theorem Followed.mono (h : p.Followed s t)
    (hmono : ∀ u, s.registry.contains u → s'.registry.contains u) : p.Followed s' t := by
  obtain ⟨d, us, hdeclares, hreferenced, hus⟩ := h
  exact ⟨d, us, hdeclares, hreferenced, fun u hu => hmono u (hus u hu)⟩

/-- A type that is met and wanted is written. -/
theorem reaches_of_met (hwants : p.session.Wants t)
    (hmet : seed t ∨ ∃ r, p.Reaches seed r ∧ p.library.Refers r t) : p.Reaches seed t := by
  rcases hmet with hseed | ⟨r, hr, hrefers⟩
  · exact .seed hseed hwants
  · exact .refers hr hrefers hwants

/-! ## One round -/

section

variable {e : Emission} {members met : List TypeId} {registry : Registry}
  (hpop : s.registry.pop? = some ((e.space, members), registry))

include hpop

/-- A round registers what it met, and nothing else. -/
theorem contains_after (met : List TypeId) (u : TypeId) :
    ((registry.clear e.space).2.addAll met).contains u ↔ s.registry.contains u ∨ u ∈ met := by
  rw [Registry.contains_addAll, ← contains_of_pop? hpop]
  rfl

/-- The types of a stub are the wanted types of its namespace. -/
theorem mem_types (hsound : s.registry.Sound) (htypes : e.types = p.session.select members) :
    t ∈ e.types ↔ s.registry.contains t ∧ t.space = e.space ∧ p.session.Wants t := by
  rw [htypes, Session.mem_select, (Registry.pop?_eq_some hpop).2.1, hsound.mem_members_iff,
    and_assoc]

/-- A namespace that is not queued after a round has the types from before. -/
theorem contains_of_not_mem_queue (hsound : s.registry.Sound)
    (hqueue : t.space ∉ ((registry.clear e.space).2.addAll met).queue)
    (ht : ((registry.clear e.space).2.addAll met).contains t) : s.registry.contains t := by
  have hpopped := hsound.pop hpop
  have hmembers := (mem_queue_or_members_eq hpopped e.space t.space met).resolve_left hqueue
  rw [Registry.contains, hmembers, members_of_pop? hpop] at ht
  exact ht

theorem mem_queue_after (hsound : s.registry.Sound) (hne : space ≠ e.space)
    (hqueue : space ∈ s.registry.queue) :
    space ∈ ((registry.clear e.space).2.addAll met).queue := by
  have hpopped : space ∈ registry.queue := mem_queue_of_pop? hpop hne hqueue
  exact Registry.queue_subset_addAll ((hsound.pop hpop).clear _) met hpopped

end

/-- What is met in a stub is what the types in it refer to. -/
theorem followed_of_render {types met : List TypeId} {text : String} (hlibrary : p.library.Sound)
    (hrender : Stub.render p.library space types = (met, .ok text))
    (hmet : ∀ u ∈ met, s.registry.contains u) (ht : t ∈ types)
    (hdeclared : ∃ d, p.library.Declares t d) : p.Followed s t := by
  have hmeet := Stub.render_eq_ok hrender
  obtain ⟨d, hdeclares⟩ := hdeclared
  have hdecl := hlibrary.decl?_eq_some.mpr hdeclares
  obtain ⟨us, hus⟩ := Stub.meetAll_eq_none.mp (congrArg Prod.snd hmeet) t ht d hdecl
  refine ⟨d, us, hdeclares, hus, ?_⟩
  intro u hu
  apply hmet
  have hmem := (Stub.mem_meetAll (congrArg Prod.snd hmeet)).mpr ⟨t, ht, d, us, hdecl, hus, hu⟩
  rwa [hmeet] at hmem

theorem refers_of_render {types met : List TypeId} {text : String} (hlibrary : p.library.Sound)
    (hrender : Stub.render p.library space types = (met, .ok text)) (hu : u ∈ met) :
    ∃ t ∈ types, p.library.Refers t u := by
  have hmeet := Stub.render_eq_ok hrender
  have hmem : u ∈ (Stub.meetAll p.library types).1 := by
    rw [hmeet]
    exact hu
  obtain ⟨t, ht, d, us, hdecl, hus, hmem'⟩ :=
    (Stub.mem_meetAll (congrArg Prod.snd hmeet)).mp hmem
  exact ⟨t, ht, d, us, hlibrary.decl?_eq_some.mp hdecl, hus, hmem'⟩

theorem Following.skipped {members : List TypeId} {registry : Registry}
    (hinv : p.Following seed s) (hpop : s.registry.pop? = some ((space, members), registry))
    (hselect : p.session.select members = [])
    (hfresh : p.Fresh { s with registry, events := s.events ++ [.skipped space] }) :
    p.Following seed { s with registry, events := s.events ++ [.skipped space] } := by
  obtain ⟨hqueue, hmembers, hregistry⟩ := Registry.pop?_eq_some hpop
  have hnamespaces : registry.namespaces = s.registry.namespaces := by
    rw [hregistry]
    rfl
  refine
    { hfresh with
      declared := ?_
      seeds := ?_
      met := ?_
      followed := ?_
      listed := ?_
      known := ?_ }
  · intro t ht
    rw [contains_of_pop? hpop] at ht
    exact hinv.declared t ht
  · intro t ht
    rw [contains_of_pop? hpop]
    exact hinv.seeds t ht
  · intro t ht
    rw [contains_of_pop? hpop] at ht
    exact hinv.met t ht
  · intro t ht hwants
    rw [contains_of_pop? hpop] at ht
    -- A namespace that is left out has no type that is wanted.
    have hne : t.space ≠ space := by
      intro heq
      have hmem := Session.mem_select.mpr ⟨hinv.sound.mem_members_iff.mpr ⟨ht, heq⟩, hwants⟩
      rw [← hmembers, hselect] at hmem
      cases hmem
    refine (hinv.followed t ht hwants).imp (mem_queue_of_pop? hpop hne) fun hfollowed => ?_
    refine hfollowed.mono fun u hu => ?_
    rw [contains_of_pop? hpop]
    exact hu
  · intro other hother
    rw [hnamespaces] at hother
    rw [members_of_pop? hpop, lastEmission?_skipped]
    by_cases hsame : other = space
    · rw [hsame, ← hmembers]
      exact Or.inr (Or.inr ⟨List.mem_append_right _ List.mem_cons_self, hselect⟩)
    · exact (hinv.listed other hother).imp (mem_queue_of_pop? hpop hsame)
        fun hend => hend.imp_right fun ⟨hskipped, hnone⟩ => ⟨List.mem_append_left _ hskipped, hnone⟩
  · intro other hother
    rw [hnamespaces]
    rcases List.mem_append.mp hother with hold | hnew
    · exact hinv.known other hold
    · cases List.mem_singleton.mp hnew
      exact hinv.sound.known space (hqueue ▸ List.mem_cons_self)

theorem Following.emitted {e : Emission} {members met : List TypeId} {registry : Registry}
    {disk : Disk} (hinv : p.Following seed s) (hlibrary : p.library.Sound)
    (hclosed : p.library.Closed)
    (hpop : s.registry.pop? = some ((e.space, members), registry))
    (htypes : e.types = p.session.select members)
    (hrender : Stub.render p.library e.space e.types = (met, .ok e.text))
    (hfresh : p.Fresh
      { registry := (registry.clear e.space).2.addAll met
        disk
        events := s.events ++ [.emitted e] }) :
    p.Following seed
      { registry := (registry.clear e.space).2.addAll met
        disk
        events := s.events ++ [.emitted e] } := by
  have hcontains := contains_after hpop met
  have hrefers : ∀ u ∈ met, ∃ r, p.Reaches seed r ∧ p.library.Refers r u := by
    intro u hu
    obtain ⟨r, hr, hrefers⟩ := refers_of_render hlibrary hrender hu
    obtain ⟨hold, -, hwants⟩ := (mem_types hpop hinv.sound htypes).mp hr
    exact ⟨r, reaches_of_met hwants (hinv.met r hold), hrefers⟩
  refine
    { hfresh with
      declared := ?_
      seeds := fun t ht => (hcontains t).mpr (Or.inl (hinv.seeds t ht))
      met := ?_
      followed := ?_
      listed := ?_
      known := ?_ }
  · intro t ht
    rcases (hcontains t).mp ht with hold | hmet
    · exact hinv.declared t hold
    · obtain ⟨_, -, href⟩ := hrefers t hmet
      exact hclosed.declares_of_refers href
  · intro t ht
    rcases (hcontains t).mp ht with hold | hmet
    · exact hinv.met t hold
    · exact Or.inr (hrefers t hmet)
  · intro t ht hwants
    -- A namespace that is not queued now gained nothing in this round.
    by_cases hqueue : t.space ∈ ((registry.clear e.space).2.addAll met).queue
    · exact Or.inl hqueue
    have hold := contains_of_not_mem_queue hpop hinv.sound hqueue ht
    right
    -- Its types were followed in the stub just written, or in an earlier round.
    by_cases hspace : t.space = e.space
    · have hmem := (mem_types hpop hinv.sound htypes).mpr ⟨hold, hspace, hwants⟩
      exact followed_of_render hlibrary hrender (fun u hu => (hcontains u).mpr (Or.inr hu)) hmem
        (hinv.declared t hold)
    · have hfollowed := (hinv.followed t hold hwants).resolve_left
        fun hbefore => hqueue (mem_queue_after hpop hinv.sound hspace hbefore)
      exact hfollowed.mono fun u hu => (hcontains u).mpr (Or.inl hu)
  · intro space hspace
    by_cases hqueue : space ∈ ((registry.clear e.space).2.addAll met).queue
    · exact Or.inl hqueue
    right
    by_cases hsame : space = e.space
    · subst hsame
      exact Or.inl ⟨e, lastEmission?_emitted s.events e⟩
    · obtain ⟨t, ht, rfl⟩ := hfresh.sound.exists_contains_of_mem_namespaces hspace
      have hold := contains_of_not_mem_queue hpop hinv.sound hqueue ht
      have hmembers := (mem_queue_or_members_eq (hinv.sound.pop hpop) e.space t.space
        met).resolve_left hqueue
      have hlisted := (hinv.listed _ (hinv.sound.mem_namespaces_of_contains hold)).resolve_left
        fun hbefore => hqueue (mem_queue_after hpop hinv.sound hsame hbefore)
      rw [lastEmission?_emitted_of_ne hsame, hmembers, members_of_pop? hpop]
      exact hlisted.imp_right fun ⟨hskipped, hnone⟩ => ⟨List.mem_append_left _ hskipped, hnone⟩
  · intro space hskipped
    rcases List.mem_append.mp hskipped with hold | hnew
    · obtain ⟨t, ht, rfl⟩ := hinv.sound.exists_contains_of_mem_namespaces (hinv.known space hold)
      exact hfresh.sound.mem_namespaces_of_contains ((hcontains t).mpr (Or.inl ht))
    · cases List.mem_singleton.mp hnew

theorem Round.following (h : p.Round s s') (hlibrary : p.library.Sound)
    (hclosed : p.library.Closed) (hinv : p.Following seed s) : p.Following seed s' := by
  have hfresh := h.fresh hinv.toFresh
  cases h with
  | skipped hpop hselect => exact hinv.skipped hpop hselect hfresh
  | emitted hpop htypes hne hdirectory hpath hmade hadded hrender hwrite =>
      exact hinv.emitted hlibrary hclosed hpop htypes hrender hfresh

theorem Run.following (h : p.Run s s') (hlibrary : p.library.Sound)
    (hclosed : p.library.Closed) (hinv : p.Following seed s) : p.Following seed s' :=
  h.preserves (fun hround => hround.following hlibrary hclosed) hinv

/-! ## The end of a run -/

namespace Fresh

variable {e : Emission}

/-- When nothing is queued, the last stub of a namespace is the one it would have now. -/
theorem types_eq (h : p.Fresh s) (hqueue : s.registry.queue = [])
    (hlast : lastEmission? space s.events = some e) :
    e.types = p.session.select (s.registry.members space) :=
  (h.upToDate space e hlast).current.resolve_left (by simp [hqueue])

theorem pairwise_types (h : p.Fresh s) (hqueue : s.registry.queue = [])
    (hlast : lastEmission? space s.events = some e) : e.types.Pairwise TypeId.Precedes := by
  rw [h.types_eq hqueue hlast]
  exact Session.pairwise_select (h.sound.membersNodup space) (h.sound.placed space) _

end Fresh

namespace Following

theorem contains_of_refers (h : p.Following seed s) (hlibrary : p.library.Sound)
    (hqueue : s.registry.queue = []) (ht : s.registry.contains t) (hwants : p.session.Wants t)
    (hrefers : p.library.Refers t u) : s.registry.contains u := by
  obtain ⟨d, us, hdeclares, hus, hu⟩ := hrefers
  obtain ⟨d', us', hdeclares', hus', hall⟩ :=
    (h.followed t ht hwants).resolve_left (by simp [hqueue])
  rw [hlibrary.declares_unique hdeclares' hdeclares, hus] at hus'
  cases hus'
  exact hall u hu

/-- When nothing is queued, the wanted types that are registered are those that are reached. -/
theorem reaches_iff (h : p.Following seed s) (hlibrary : p.library.Sound)
    (hqueue : s.registry.queue = []) :
    p.Reaches seed t ↔ s.registry.contains t ∧ p.session.Wants t := by
  constructor
  · intro hreaches
    refine ⟨?_, hreaches.within⟩
    induction hreaches with
    | seed hseed => exact h.seeds _ hseed
    | refers ht hrefers _ ih => exact h.contains_of_refers hlibrary hqueue ih ht.within hrefers
  · exact fun ⟨ht, hwants⟩ => reaches_of_met hwants (h.met t ht)

/-- When nothing is queued, the registered types are the seeds and what the written types refer
to. -/
theorem contains_iff_met (h : p.Following seed s) (hlibrary : p.library.Sound)
    (hqueue : s.registry.queue = []) :
    s.registry.contains t ↔ seed t ∨ ∃ r, p.Reaches seed r ∧ p.library.Refers r t := by
  refine ⟨h.met t, ?_⟩
  rintro (hseed | ⟨r, hr, hrefers⟩)
  · exact h.seeds t hseed
  · obtain ⟨hold, hwants⟩ := (h.reaches_iff hlibrary hqueue).mp hr
    exact h.contains_of_refers hlibrary hqueue hold hwants hrefers

/-- When nothing is queued, the last stub of a namespace lists the types in it that are reached. -/
theorem mem_types_iff_reaches (h : p.Following seed s) (hlibrary : p.library.Sound)
    (hqueue : s.registry.queue = []) {e : Emission}
    (hlast : lastEmission? space s.events = some e) :
    t ∈ e.types ↔ p.Reaches seed t ∧ t.space = space := by
  rw [h.types_eq hqueue hlast, Session.mem_select, h.sound.mem_members_iff,
    h.reaches_iff hlibrary hqueue, and_right_comm]

/-- When nothing is queued, the namespaces that have a stub are those of the types reached. -/
theorem exists_last_iff (h : p.Following seed s) (hlibrary : p.library.Sound)
    (hqueue : s.registry.queue = []) :
    (∃ e, lastEmission? space s.events = some e) ↔ ∃ t, p.Reaches seed t ∧ t.space = space := by
  constructor
  · rintro ⟨e, hlast⟩
    have hne := (h.upToDate space e hlast).wanted
    rw [← h.types_eq hqueue hlast] at hne
    obtain ⟨t, ht⟩ := List.exists_mem_of_ne_nil _ hne
    exact ⟨t, (h.mem_types_iff_reaches hlibrary hqueue hlast).mp ht⟩
  · rintro ⟨t, ht, rfl⟩
    obtain ⟨hold, hwants⟩ := (h.reaches_iff hlibrary hqueue).mp ht
    have hlisted := (h.listed _ (h.sound.mem_namespaces_of_contains hold)).resolve_left
      (by simp [hqueue])
    refine hlisted.resolve_right ?_
    rintro ⟨-, hnone⟩
    have hmem := Session.mem_select.mpr ⟨h.sound.mem_members_iff.mpr ⟨hold, rfl⟩, hwants⟩
    rw [hnone] at hmem
    cases hmem

/-- When nothing is queued, the namespaces that were left out for good are the registered ones
in which no type is reached. -/
theorem left_out_iff (h : p.Following seed s) (hlibrary : p.library.Sound)
    (hqueue : s.registry.queue = []) :
    .skipped space ∈ s.events ∧ lastEmission? space s.events = none ↔
      space ∈ s.registry.namespaces ∧ ∀ t, p.Reaches seed t → t.space ≠ space := by
  have hlast : lastEmission? space s.events = none ↔
      ∀ t, p.Reaches seed t → t.space ≠ space := by
    rw [Option.eq_none_iff_forall_ne_some, ← not_exists, h.exists_last_iff hlibrary hqueue]
    simp
  rw [hlast, and_congr_left_iff]
  intro hnone
  refine ⟨h.known space, ?_⟩
  intro hspace
  have hlisted := (h.listed space hspace).resolve_left (by simp [hqueue])
  rw [h.exists_last_iff hlibrary hqueue] at hlisted
  refine (hlisted.resolve_left ?_).1
  rintro ⟨t, ht, heq⟩
  exact hnone t ht heq

end Following

end StubTree.Plan
