import StubTree.Proofs.Session.InOrder
import StubTree.Proofs.Session.Loading
import StubTree.Proofs.Stub.Directory

/-! # The write barrier

Nothing is written before every target and every built-in binary is loaded and the namespaces of
what they export are found to be free. A reserved namespace that is only met in a stub is queued
like any other, so that no run comes to its end without taking it from the queue and refusing it.
-/

namespace StubTree

theorem Namespace.check_eq_ok {space : Namespace} :
    space.check = .ok () ↔ space.isReserved = false := by
  cases space with
  | outside => exact ⟨fun _ => rfl, fun _ => rfl⟩
  | named dotted =>
      rw [check]
      split
      next hreserved => simp [hreserved]
      next hfree => simp [hfree]

theorem Session.checkAll_eq_ok {spaces : List Namespace} :
    checkAll spaces = .ok () ↔ ∀ space ∈ spaces, space.isReserved = false := by
  induction spaces with
  | nil => simp [checkAll]
  | cons space rest ih =>
      rw [List.forall_mem_cons, ← ih, ← Namespace.check_eq_ok, checkAll]
      constructor
      · intro h
        obtain ⟨⟨⟩, hfirst, hrest⟩ := exists_of_bind_eq_ok h
        exact ⟨hfirst, hrest⟩
      · rintro ⟨hfirst, hrest⟩
        rw [hfirst]
        exact hrest

namespace Registry

variable {r r' : Registry} {space : Namespace}

/-- No reserved namespace has left the queue. -/
def Guarded (r : Registry) : Prop :=
  ∀ space ∈ r.namespaces, space.isReserved → space ∈ r.queue

theorem guarded_of_checkAll (h : Session.checkAll r.namespaces = .ok ()) : r.Guarded := by
  intro space hspace hreserved
  rw [Session.checkAll_eq_ok.mp h space hspace] at hreserved
  cases hreserved

theorem Guarded.add (h : r.Guarded) (hsound : r.Sound) (t : TypeId) : (r.add t).Guarded := by
  by_cases hmem : t ∈ r.members t.space
  · rw [add_of_mem hmem]
    exact h
  · intro space hspace hreserved
    rw [hsound.mem_queue_add hmem]
    exact (mem_namespaces_add.mp hspace).imp_left fun hold => h space hold hreserved

theorem Guarded.addAll (h : r.Guarded) (hsound : r.Sound) (ts : List TypeId) :
    (r.addAll ts).Guarded := by
  induction ts generalizing r with
  | nil => exact h
  | cons t rest ih => exact ih (h.add hsound t) (hsound.add t)

/-- A namespace may leave the queue that is free. -/
theorem Guarded.pop {types : List TypeId} (h : r.Guarded)
    (hpop : r.pop? = some ((space, types), r')) (hcheck : space.check = .ok ()) : r'.Guarded := by
  obtain ⟨hqueue, -, hr'⟩ := pop?_eq_some hpop
  intro other hother hreserved
  rw [hr'] at hother
  have hold := h other hother hreserved
  rw [hqueue, List.mem_cons] at hold
  refine hold.resolve_left ?_
  rintro rfl
  rw [Namespace.check_eq_ok.mp hcheck] at hreserved
  cases hreserved

theorem namespaces_of_pop? {types : List TypeId} (hpop : r.pop? = some ((space, types), r')) :
    r'.namespaces = r.namespaces := by
  rw [(pop?_eq_some hpop).2.2]
  rfl

theorem namespaces_subset_addAll (r : Registry) (ts : List TypeId) :
    r.namespaces ⊆ (r.addAll ts).namespaces :=
  fun _ hspace => mem_namespaces_addAll.mpr (Or.inl hspace)

/-- What was registered half way is registered in the end. -/
theorem namespaces_addAll_subset {before ts : List TypeId} (hbefore : before <+: ts) :
    (r.addAll before).namespaces ⊆ (r.addAll ts).namespaces := by
  intro space hspace
  rw [mem_namespaces_addAll] at hspace ⊢
  exact hspace.imp_right fun ⟨t, ht, hplace⟩ => ⟨t, hbefore.subset ht, hplace⟩

end Registry

namespace Plan

variable {p : Plan} {s s' last : Stage} {fuel : Nat} {r registry : Registry} {space : Namespace}
  {members : List TypeId} {fault : Fault}

/-- The registries that a round goes through: without the namespace that it takes from the queue,
and then with the types that it has met so far. -/
inductive Moment (p : Plan) (s : Stage) : Registry → Prop
  | taken {space : Namespace} {members : List TypeId} {registry : Registry}
      (hpop : s.registry.pop? = some ((space, members), registry)) : Moment p s registry
  | met {space : Namespace} {members before : List TypeId} {registry : Registry} {directory : Path}
      {made : Disk}
      (hpop : s.registry.pop? = some ((space, members), registry))
      (hselect : p.session.select members ≠ [])
      (hdirectory : space.directory p.destination = .ok directory)
      (hmade : s.disk.makeDirectories directory = (made, none))
      (hbefore : before <+: (Stub.render p.library space (p.session.select members)).1) :
      Moment p s ((registry.clear space).2.addAll before)

/-- The registries that rounds go through which follow one another, the last of them perhaps in
vain. -/
inductive Passes (p : Plan) : Stage → Registry → Prop
  | start (s : Stage) : Passes p s s.registry
  | within {s : Stage} {r : Registry} (hmoment : p.Moment s r) : Passes p s r
  | after {s s' : Stage} {r : Registry} (hround : p.round? s = some (s', none))
      (hpasses : Passes p s' r) : Passes p s r

/-! ## One round -/

theorem check_of_round? (h : p.round? s = some (s', none))
    (hpop : s.registry.pop? = some ((space, members), registry)) : space.check = .ok () := by
  rw [round?, hpop] at h
  dsimp only at h
  split at h
  · cases h
  next hcheck => exact hcheck

theorem Round.namespaces_subset (h : p.Round s s') :
    s.registry.namespaces ⊆ s'.registry.namespaces := by
  cases h with
  | skipped hpop =>
      rw [← Registry.namespaces_of_pop? hpop]
      exact List.Subset.refl _
  | @emitted e _ met registry _ _ _ hpop =>
      rw [← Registry.namespaces_of_pop? hpop]
      exact Registry.namespaces_subset_addAll (registry.clear e.space).2 met

/-- A round that ends well keeps what was registered while it was under way. -/
theorem Moment.namespaces_subset (h : p.Moment s r) (hround : p.Round s s') :
    r.namespaces ⊆ s'.registry.namespaces := by
  cases h with
  | taken hpop =>
      rw [Registry.namespaces_of_pop? hpop]
      exact hround.namespaces_subset
  | met hpop hselect _ _ hbefore =>
      cases hround with
      | skipped hpop' hselect' =>
          rw [hpop] at hpop'
          cases hpop'
          exact absurd hselect' hselect
      | emitted hpop' htypes _ _ _ _ _ hrender =>
          rw [hpop] at hpop'
          cases hpop'
          rw [← htypes, hrender] at hbefore
          exact Registry.namespaces_addAll_subset hbefore

theorem guarded_of_round? (h : p.round? s = some (s', none)) (hsound : s.registry.Sound)
    (hguarded : s.registry.Guarded) : s'.registry.Guarded := by
  cases round_of_round? h with
  | skipped hpop => exact hguarded.pop hpop (check_of_round? h hpop)
  | @emitted e members met registry directory made disk hpop =>
      have hleft := hguarded.pop hpop (check_of_round? h hpop)
      exact Registry.Guarded.addAll (r := (registry.clear e.space).2) hleft
        ((hsound.pop hpop).clear _) met

/-! ## Runs -/

theorem exists_round_of_drain (h : p.drain fuel s = (last, none)) (hqueue : s.registry.queue ≠ []) :
    ∃ s' fuel', p.round? s = some (s', none) ∧ p.drain fuel' s' = (last, none) := by
  cases fuel with
  | zero =>
      obtain ⟨hrun, hempty⟩ := drain_eq_none h
      rw [drain, Prod.mk.injEq] at h
      exact absurd (h.1 ▸ hempty) hqueue
  | succ fuel =>
      rw [drain] at h
      split at h
      next hnone => exact absurd (round?_eq_none.mp hnone) hqueue
      next => cases h
      next s' hround => exact ⟨s', fuel, hround, h⟩

theorem Moment.queue_ne_nil (h : p.Moment s r) : s.registry.queue ≠ [] := by
  intro hempty
  have hnone := Registry.pop?_eq_none.mpr hempty
  cases h with
  | taken hpop => simp [hnone] at hpop
  | met hpop => simp [hnone] at hpop

theorem Run.namespaces_subset (h : p.Run s s') :
    s.registry.namespaces ⊆ s'.registry.namespaces := by
  induction h with
  | refl => exact List.Subset.refl _
  | tail _ hround ih => exact List.Subset.trans ih hround.namespaces_subset

/-- Whatever was registered at a moment of a run that ends well is registered in the end. -/
theorem Passes.namespaces_subset (h : p.Passes s r) (hdrain : p.drain fuel s = (last, none)) :
    r.namespaces ⊆ last.registry.namespaces := by
  induction h generalizing fuel with
  | start s => exact (drain_eq_none hdrain).1.namespaces_subset
  | within hmoment =>
      obtain ⟨s', fuel', hround, hrest⟩ := exists_round_of_drain hdrain hmoment.queue_ne_nil
      exact List.Subset.trans (hmoment.namespaces_subset (round_of_round? hround))
        (drain_eq_none hrest).1.namespaces_subset
  | @after s s' r hround _ ih =>
      have hqueue : s.registry.queue ≠ [] := by
        rw [Ne, ← round?_eq_none (p := p), hround]
        exact Option.some_ne_none _
      obtain ⟨s'', fuel', hround', hrest⟩ := exists_round_of_drain hdrain hqueue
      rw [hround] at hround'
      cases hround'
      exact ih hrest

theorem guarded_drain (h : p.drain fuel s = (last, none)) (hsound : s.registry.Sound)
    (hguarded : s.registry.Guarded) : last.registry.Guarded := by
  induction fuel generalizing s with
  | zero =>
      rw [drain, Prod.mk.injEq] at h
      exact h.1 ▸ hguarded
  | succ fuel ih =>
      rw [drain] at h
      split at h
      next =>
        cases h
        exact hguarded
      next => cases h
      next s' hround =>
        exact ih h ((round_of_round? hround).sound hsound)
          (guarded_of_round? hround hsound hguarded)

/-- No stub was written for a reserved namespace. -/
def Spared (s : Stage) : Prop :=
  ∀ e, Event.emitted e ∈ s.events → e.space.isReserved = false

theorem Round.spared (h : p.Round s s') (hspared : Spared s) : Spared s' := by
  intro last hlast
  cases h with
  | skipped hpop =>
      rcases List.mem_append.mp hlast with hold | hnew
      · exact hspared last hold
      · cases List.mem_singleton.mp hnew
  | emitted _ _ _ hdirectory =>
      rcases List.mem_append.mp hlast with hold | hnew
      · exact hspared last hold
      · cases List.mem_singleton.mp hnew
        exact Namespace.check_eq_ok.mp (Namespace.check_of_directory hdirectory)

theorem Failed.events (h : p.Failed s s') : s'.events = s.events := by
  cases h <;> rfl

theorem Failed.spared (h : p.Failed s s') (hspared : Spared s) : Spared s' := by
  rw [Spared, h.events]
  exact hspared

theorem spared_drain (fuel : Nat) (hspared : Spared s) : Spared (p.drain fuel s).1 :=
  drain_preserves Spared fuel Round.spared Failed.spared hspared

end Plan

/-- A run that ends with a fault and leaves the disk as it was. -/
def Built.Barred (b : Built) (disk : Disk) : Prop :=
  (∃ fault, b.result = .error fault) ∧ b.disk = disk

namespace Session

variable {s s' last loaded loaded' : Session} {disk : Disk} {destination : Path}
  {targets searchPaths : List Path} {choice : Option Document} {calls more : List Loader.Call}
  {c : Loader.Call} {loader : Loader} {link : Link} {names names' : List String}
  {said said' : List Progress} {space : Namespace} {r : Registry}

/-! ## Loading -/

/-- Calls for binaries that come through one after the other, what each exports registered. -/
inductive Row (disk : Disk) : Session → List Loader.Call → Session → Prop
  | nil (s : Session) : Row disk s [] s
  | cons {s last : Session} {c : Loader.Call} {rest : List Loader.Call} {loader : Loader}
      {link : Link} (hcall : s.loader.call disk c = (loader, .ok link))
      (hrest : Row disk ({ s with loader }.register link.name) rest last) :
      Row disk s (c :: rest) last

/-- A call of a row, and the session that makes it when all before it have come through. -/
inductive Makes (disk : Disk) : Session → List Loader.Call → Session → Loader.Call → Prop
  | first {s : Session} {c : Loader.Call} {rest : List Loader.Call} : Makes disk s (c :: rest) s c
  | later {s s' : Session} {c c' : Loader.Call} {rest : List Loader.Call} {loader : Loader}
      {link : Link} (hcall : s.loader.call disk c' = (loader, .ok link))
      (hmakes : Makes disk ({ s with loader }.register link.name) rest s' c) :
      Makes disk s (c' :: rest) s' c

theorem Row.append (h : Row disk s calls s') (h' : Row disk s' more last) :
    Row disk s (calls ++ more) last := by
  induction h with
  | nil => exact h'
  | cons hcall _ ih => exact .cons hcall (ih h')

theorem Row.namespaces_subset (h : Row disk s calls last) :
    s.registry.namespaces ⊆ last.registry.namespaces := by
  induction h with
  | nil => exact List.Subset.refl _
  | cons _ _ ih => exact List.Subset.trans (Registry.namespaces_subset_addAll _ _) ih

/-- In a row that comes through, every call does, and what its binary exports stays registered. -/
theorem Row.exists_call (h : Row disk s calls last) (hmakes : Makes disk s calls s' c) :
    ∃ loader link, s'.loader.call disk c = (loader, .ok link) ∧
      (s'.registry.addAll (loader.library.exported link.name)).namespaces ⊆
        last.registry.namespaces := by
  induction h with
  | nil => cases hmakes
  | @cons s last c' rest loader link hcall hrest ih =>
      cases hmakes with
      | first => exact ⟨loader, link, hcall, hrest.namespaces_subset⟩
      | later hcall' hlater =>
          rw [hcall] at hcall'
          cases hcall'
          exact ih hlater

theorem Row.sound (h : Row disk s calls last) (hsound : s.registry.Sound) :
    last.registry.Sound := by
  induction h with
  | nil => exact hsound
  | cons _ _ ih => exact ih (hsound.addAll _)

theorem row_of_loadAll {tell : String → Progress}
    (h : s.loadAll disk tell calls = (last, said, .ok names)) : Row disk s calls last := by
  induction calls generalizing s said names with
  | nil =>
      cases h
      exact .nil _
  | cons c rest ih =>
      rw [loadAll] at h
      split at h
      next => cases h
      next loader link hcall =>
        cases hrest : ({ s with loader }.register link.name).loadAll disk tell rest with
        | mk after outcome =>
            obtain ⟨more, result⟩ := outcome
            dsimp only at h
            rw [hrest] at h
            cases result with
            | error fault => cases h
            | ok later =>
                cases h
                exact .cons hcall (ih hrest)

/-! ## A build -/

/-- A call that a build makes for a target or a built-in binary, and the session that makes it. -/
def Attempts (s : Session) (disk : Disk) (targets searchPaths : List Path)
    (choice : Option Document) (s' : Session) (c : Loader.Call) : Prop :=
  ∃ chosen prepared, s.choose choice = .ok chosen ∧
    Session.prepare disk { chosen with registry := {} } searchPaths = (prepared, .ok ()) ∧
    Makes disk prepared
      (targets.map .target ++ prepared.options.builtinBinaries.map .identity) s' c

/-- The registries that a build goes through: with what it has registered so far of the exports of a
binary, and then those of its rounds. -/
inductive Registers (s : Session) (disk : Disk) (destination : Path)
    (targets searchPaths : List Path) (choice : Option Document) : Registry → Prop
  | loading {s' : Session} {c : Loader.Call} {loader : Loader} {link : Link} {before : List TypeId}
      (hattempts : s.Attempts disk targets searchPaths choice s' c)
      (hcall : s'.loader.call disk c = (loader, .ok link))
      (hbefore : before <+: loader.library.exported link.name) :
      Registers s disk destination targets searchPaths choice (s'.registry.addAll before)
  | writing {loaded : Session} {names : List String} {said : List Progress} {r : Registry}
      (hloading : s.Loading disk targets searchPaths choice loaded names said)
      (hcheck : checkAll loaded.registry.namespaces = .ok ())
      (hpasses : Plan.Passes ⟨loaded, destination⟩ (loaded.firstStage disk) r) :
      Registers s disk destination targets searchPaths choice r

theorem Loading.unique (h : s.Loading disk targets searchPaths choice loaded names said)
    (h' : s.Loading disk targets searchPaths choice loaded' names' said') : loaded' = loaded := by
  cases h with
  | stages hchoose hprepare htargets hbuiltins =>
      cases h' with
      | stages hchoose' hprepare' htargets' hbuiltins' =>
          rw [hchoose] at hchoose'
          cases hchoose'
          rw [hprepare] at hprepare'
          cases hprepare'
          rw [htargets] at htargets'
          cases htargets'
          rw [hbuiltins] at hbuiltins'
          cases hbuiltins'
          rfl

/-- What a build has loaded is what the calls have that it makes, one after the other. -/
theorem Loading.exists_row (h : s.Loading disk targets searchPaths choice loaded names said) :
    ∃ chosen prepared, s.choose choice = .ok chosen ∧
      Session.prepare disk { chosen with registry := {} } searchPaths = (prepared, .ok ()) ∧
      prepared.registry = {} ∧
      Row disk prepared
        (targets.map .target ++ prepared.options.builtinBinaries.map .identity) loaded := by
  cases h with
  | @stages chosen prepared after loaded found builtins said more hchoose hprepare htargets
      hbuiltins =>
      have hregistry : prepared.registry = {} := (congrArg (·.1.registry) hprepare).symm
      have hoptions := options_loadTargets disk prepared targets
      rw [htargets] at hoptions
      rw [hoptions] at hbuiltins
      exact ⟨chosen, prepared, hchoose, hprepare, hregistry,
        (row_of_loadAll htargets).append (row_of_loadAll hbuiltins)⟩

theorem Loading.sound (h : s.Loading disk targets searchPaths choice loaded names said) :
    loaded.registry.Sound := by
  obtain ⟨chosen, prepared, -, -, hregistry, hrow⟩ := h.exists_row
  apply hrow.sound
  rw [hregistry]
  exact .empty

theorem Loading.exists_call (h : s.Loading disk targets searchPaths choice loaded names said)
    (hattempts : s.Attempts disk targets searchPaths choice s' c) :
    ∃ loader link, s'.loader.call disk c = (loader, .ok link) ∧
      (s'.registry.addAll (loader.library.exported link.name)).namespaces ⊆
        loaded.registry.namespaces := by
  obtain ⟨chosen, prepared, hchoose, hprepare, -, hrow⟩ := h.exists_row
  obtain ⟨chosen', prepared', hchoose', hprepare', hmakes⟩ := hattempts
  rw [hchoose] at hchoose'
  cases hchoose'
  rw [hprepare] at hprepare'
  cases hprepare'
  exact hrow.exists_call hmakes

/-- A build is barred before its first round, or its rounds start with free namespaces. -/
theorem barred_or_loading (s : Session) (disk : Disk) (destination : Path)
    (targets searchPaths : List Path) (choice : Option Document) :
    ((s.build disk destination targets searchPaths choice).Barred disk ∧
        (s.build disk destination targets searchPaths choice).events = []) ∨
      ∃ loaded names said, s.Loading disk targets searchPaths choice loaded names said ∧
        checkAll loaded.registry.namespaces = .ok () := by
  rw [build]
  split
  next fault _ => exact Or.inl ⟨⟨⟨fault, rfl⟩, rfl⟩, rfl⟩
  next chosen hchoose =>
    split
    next fault _ => exact Or.inl ⟨⟨⟨fault, rfl⟩, rfl⟩, rfl⟩
    next prepared hprepare =>
      split
      next fault _ => exact Or.inl ⟨⟨⟨fault, rfl⟩, rfl⟩, rfl⟩
      next after said found htargets =>
        split
        next fault _ => exact Or.inl ⟨⟨⟨fault, rfl⟩, rfl⟩, rfl⟩
        next loaded more builtins hbuiltins =>
          cases hcheck : checkAll loaded.registry.namespaces with
          | error fault =>
              rw [generate, hcheck]
              exact Or.inl ⟨⟨⟨fault, rfl⟩, rfl⟩, rfl⟩
          | ok =>
              exact Or.inr ⟨loaded, _, _, .stages hchoose hprepare htargets hbuiltins, hcheck⟩

/-- What a build notes is noted in its rounds. -/
theorem exists_loading_of_mem_events {event : Event}
    (h : event ∈ (s.build disk destination targets searchPaths choice).events) :
    ∃ loaded names said, s.Loading disk targets searchPaths choice loaded names said ∧
      event ∈ (loaded.generate disk destination).events := by
  rcases barred_or_loading s disk destination targets searchPaths choice with
    ⟨-, hnone⟩ | ⟨loaded, names, said, hloading, -⟩
  · rw [hnone] at h
    cases h
  · rw [build_of_loading hloading] at h
    exact ⟨loaded, names, said, hloading, h⟩

theorem spared_generate (s : Session) (disk : Disk) (destination : Path) {e : Emission}
    (he : Event.emitted e ∈ (s.generate disk destination).events) :
    e.space.isReserved = false := by
  rw [generate] at he
  split at he
  next => cases he
  next =>
    have hstart : Plan.Spared (s.firstStage disk) := by
      intro e he
      cases he
    exact Plan.spared_drain _ hstart e he

theorem Loading.free_of_result {g : Generation}
    (h : s.Loading disk targets searchPaths choice loaded names said)
    (hresult : (loaded.generate disk destination).result = .ok g)
    (hpasses : Plan.Passes ⟨loaded, destination⟩ (loaded.firstStage disk) r)
    (hspace : space ∈ r.namespaces) : space.isReserved = false := by
  obtain ⟨hcheck, last, hdrain⟩ := drain_of_generate hresult
  have hguarded := Plan.guarded_drain hdrain h.sound (Registry.guarded_of_checkAll hcheck)
  have hqueue := (Plan.drain_eq_none hdrain).2
  by_contra hreserved
  have hqueued := hguarded space (hpasses.namespaces_subset hdrain hspace)
    (Bool.not_eq_false _ ▸ hreserved)
  rw [hqueue] at hqueued
  cases hqueued

/-- A build writes nothing if one of its targets or built-in binaries cannot be loaded or exports a
type of a reserved namespace. It never writes the stub of such a namespace, and if one gets
registered at any moment, it has no result. -/
theorem build_barred (s : Session) (disk : Disk) (destination : Path)
    (targets searchPaths : List Path) (choice : Option Document) :
    (∀ s' c, s.Attempts disk targets searchPaths choice s' c →
      ((∃ fault, (s'.loader.call disk c).2 = .error fault) ∨
        ∃ loader link, s'.loader.call disk c = (loader, .ok link) ∧
          ∃ t ∈ loader.library.exported link.name, t.space.isReserved) →
      (s.build disk destination targets searchPaths choice).Barred disk) ∧
    (∀ e, .emitted e ∈ (s.build disk destination targets searchPaths choice).events →
      e.space.isReserved = false) ∧
    (∀ r, s.Registers disk destination targets searchPaths choice r →
      ∀ space ∈ r.namespaces, space.isReserved →
        ∃ fault, (s.build disk destination targets searchPaths choice).result = .error fault) := by
  refine ⟨?_, ?_, ?_⟩
  · intro s' c hattempts hbad
    rcases barred_or_loading s disk destination targets searchPaths choice with
      hbarred | ⟨loaded, names, said, hloading, hcheck⟩
    · exact hbarred.1
    obtain ⟨loader, link, hcall, hsubset⟩ := hloading.exists_call hattempts
    rcases hbad with ⟨fault, hfault⟩ | ⟨loader', link', hcall', t, ht, hreserved⟩
    · rw [hcall] at hfault
      cases hfault
    · rw [hcall] at hcall'
      cases hcall'
      have hspace := hsubset (Registry.mem_namespaces_addAll.mpr (Or.inr ⟨t, ht, rfl⟩))
      rw [checkAll_eq_ok.mp hcheck _ hspace] at hreserved
      cases hreserved
  · intro e he
    rcases barred_or_loading s disk destination targets searchPaths choice with
      ⟨-, hnone⟩ | ⟨loaded, names, said, hloading, -⟩
    · rw [hnone] at he
      cases he
    · rw [build_of_loading hloading] at he
      exact spared_generate loaded disk destination he
  · intro r hregisters space hspace hreserved
    cases hresult : (s.build disk destination targets searchPaths choice).result with
    | error fault => exact ⟨fault, rfl⟩
    | ok g =>
        obtain ⟨loaded, names, said, hloading, hbuild⟩ := exists_loading hresult
        rw [hbuild] at hresult
        have hfree : space.isReserved = false := by
          cases hregisters with
          | loading hattempts hcall hbefore =>
              obtain ⟨loader, link, hcall', hsubset⟩ := hloading.exists_call hattempts
              rw [hcall] at hcall'
              cases hcall'
              exact hloading.free_of_result hresult (.start _)
                (hsubset (Registry.namespaces_addAll_subset hbefore hspace))
          | writing hloading' hcheck hpasses =>
              cases hloading.unique hloading'
              exact hloading.free_of_result hresult hpasses hspace
        rw [hfree] at hreserved
        cases hreserved

/-! ## A reserved namespace that is met late -/

/-- A type of `N` whose base, in another binary, stands in a reserved namespace. -/
def taintedDisk : Disk :=
  ⟨[], [(["m"], .directory),
    (["m", "A.yaml"], .file ("\n".intercalate
      ["name: A", "references: [B]", "types:", "- name: N.T", "  base: global_.V"]).toUTF8),
    (["m", "B.yaml"], .file ("\n".intercalate
      ["name: B", "types:", "- name: global_.V"]).toUTF8)]⟩

def taintedTarget (file : String) : Path := ⟨.root, ["m", file]⟩

def taintedDestination : Path := ⟨.root, ["m", "out"]⟩

/-- A session that writes the types of its targets only. -/
def targetsOnly : Session := .new { onlyTargetTypes := true }

def taintedLoading : Outcome (List String) :=
  (targetsOnly.prepare taintedDisk []).1.loadTargets taintedDisk [taintedTarget "A.yaml"]

set_option maxRecDepth 100000 in
theorem tainted_evaluated :
    let library := taintedLoading.1.loader.library
    let call := (targetsOnly.prepare taintedDisk []).1.loader.call taintedDisk
      (.target (taintedTarget "B.yaml"))
    call.2.toOption = some (.held "B") ∧
    call.1.library.exported "B" = [⟨.named "global_", "V", "B"⟩] ∧
    taintedLoading.2.2.toOption = some ["A"] ∧
    taintedLoading.1.options = { onlyTargetTypes := true } ∧
    (checkAll taintedLoading.1.registry.namespaces).toOption = some () ∧
    taintedLoading.1.registry.pop?.map Prod.fst =
      some (.named "N", [⟨.named "N", "T", "A"⟩]) ∧
    taintedLoading.1.selectInOrder? [⟨.named "N", "T", "A"⟩] = some [⟨.named "N", "T", "A"⟩] ∧
    (taintedDisk.makeDirectories (taintedDestination.entry "N")).2 = none ∧
    (Stub.render library (.named "N") [⟨.named "N", "T", "A"⟩]).1 =
      [⟨.named "global_", "V", "B"⟩] := by
  decide +kernel

/-- A target that exports a reserved namespace bars the build; one that only refers to it is found
out in the first round, though no type of that namespace would be written. -/
theorem build_barred_tainted :
    (targetsOnly.build taintedDisk taintedDestination [taintedTarget "B.yaml"] [] none).Barred
        taintedDisk ∧
      ∃ r, targetsOnly.Registers taintedDisk taintedDestination [taintedTarget "A.yaml"] [] none r ∧
        Namespace.named "global_" ∈ r.namespaces ∧
        ∃ fault, (targetsOnly.build taintedDisk taintedDestination [taintedTarget "A.yaml"] []
          none).result = .error fault := by
  obtain ⟨hcall, hexported, hnames, hoptions, hcheck, hpop, hselect, hmade, hmet⟩ :=
    tainted_evaluated
  constructor
  · refine (build_barred targetsOnly taintedDisk taintedDestination [taintedTarget "B.yaml"] []
      none).1 _ (.target (taintedTarget "B.yaml")) ⟨targetsOnly, _, rfl, rfl, .first⟩ (Or.inr ?_)
    exact ⟨_, .held "B", Prod.ext rfl (eq_ok_of_toOption hcall), ⟨.named "global_", "V", "B"⟩,
      hexported ▸ List.mem_singleton_self _, by decide⟩
  · have htargets : taintedLoading = (taintedLoading.1, taintedLoading.2.1, .ok ["A"]) :=
      Prod.ext rfl (Prod.ext rfl (eq_ok_of_toOption hnames))
    have hbuiltins : taintedLoading.1.loadBuiltins taintedDisk
        taintedLoading.1.options.builtinBinaries = (taintedLoading.1, [], .ok []) := by
      rw [hoptions]
      rfl
    have hloading : targetsOnly.Loading taintedDisk [taintedTarget "A.yaml"] [] none
        taintedLoading.1 (["A"] ++ []) (taintedLoading.2.1 ++ []) :=
      .stages rfl rfl htargets hbuiltins
    obtain ⟨⟨_, registry⟩, hpop, rfl⟩ := Option.map_eq_some_iff.mp hpop
    have hselected := select_of_selectInOrder? hselect
    have hmoment : Plan.Moment ⟨taintedLoading.1, taintedDestination⟩
        (taintedLoading.1.firstStage taintedDisk)
        ((registry.clear (.named "N")).2.addAll [⟨.named "global_", "V", "B"⟩]) := by
      refine .met hpop ?_ rfl (Prod.ext rfl hmade) ?_
      · rw [hselected]
        exact List.cons_ne_nil _ _
      · rw [hselected, ← hmet]
        exact List.prefix_refl _
    have hregisters := Registers.writing hloading (eq_ok_of_toOption hcheck) (.within hmoment)
    have hmember : Namespace.named "global_" ∈
        ((registry.clear (.named "N")).2.addAll [⟨.named "global_", "V", "B"⟩]).namespaces :=
      Registry.mem_namespaces_addAll.mpr (Or.inr ⟨_, List.mem_singleton_self _, rfl⟩)
    exact ⟨_, hregisters, hmember, (build_barred targetsOnly taintedDisk taintedDestination
      [taintedTarget "A.yaml"] [] none).2.2 _ hregisters _ hmember (by decide)⟩

end Session

end StubTree
