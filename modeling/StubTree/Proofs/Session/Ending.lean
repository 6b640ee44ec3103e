import StubTree.Proofs.Session.Termination

/-! # Generations end

The rounds of a generation, taken without any bound, come to an end: a round lowers what the queue
and the types that can still be found come to together. Types are only found in binaries that those
of the registered types lead to, however references and links run in circles.
-/

namespace StubTree

/-- A type declared by a binary to which the binary of a known type leads. -/
def Library.InReach (lib : Library) (known : TypeId → Prop) (u : TypeId) : Prop :=
  (∃ d, lib.Declares u d) ∧ ∃ t, known t ∧ lib.Reaches t.unit u.unit

theorem Library.encard_inReach_le (lib : Library) (known : TypeId → Prop) :
    {u | lib.InReach known u}.encard ≤ lib.typeCount := by
  refine le_trans (Set.encard_le_encard ?_) lib.encard_declares_le
  exact fun _ hu => hu.1

theorem Library.finite_inReach (lib : Library) (known : TypeId → Prop) :
    {u | lib.InReach known u}.Finite :=
  Set.finite_of_encard_le_coe (lib.encard_inReach_le known)

namespace Plan

/-- Rounds without a bound, until nothing is queued or a round fails, with the number of namespaces
that they take from the queue. -/
inductive Ends (p : Plan) : Stage → Nat → Stage → Option Fault → Prop
  | drained {s : Stage} (hround : p.round? s = none) : Ends p s 0 s none
  | failed {s s' : Stage} {fault : Fault} (hround : p.round? s = some (s', some fault)) :
      Ends p s 1 s' (some fault)
  | round {s s' last : Stage} {count : Nat} {result : Option Fault}
      (hround : p.round? s = some (s', none)) (hends : Ends p s' count last result) :
      Ends p s (count + 1) last result

variable {p : Plan} {s s' last last' : Stage} {count count' fuel : Nat}
  {result result' : Option Fault} {known : TypeId → Prop}

namespace Ends

theorem unique (h : p.Ends s count last result) (h' : p.Ends s count' last' result') :
    count' = count ∧ last' = last ∧ result' = result := by
  induction h generalizing count' with
  | drained hround =>
      cases h' with
      | drained => exact ⟨rfl, rfl, rfl⟩
      | failed hround' => simp [hround] at hround'
      | round hround' => simp [hround] at hround'
  | failed hround =>
      cases h' with
      | drained hround' => simp [hround] at hround'
      | failed hround' =>
          rw [hround] at hround'
          cases hround'
          exact ⟨rfl, rfl, rfl⟩
      | round hround' => simp [hround] at hround'
  | round hround _ ih =>
      cases h' with
      | drained hround' => simp [hround] at hround'
      | failed hround' => simp [hround] at hround'
      | round hround' hends' =>
          rw [hround] at hround'
          cases hround'
          obtain ⟨rfl, rfl, rfl⟩ := ih hends'
          exact ⟨rfl, rfl, rfl⟩

/-- A bound that leaves the rounds their number is never felt. -/
theorem drain (h : p.Ends s count last result) (hfuel : count ≤ fuel) :
    p.drain fuel s = (last, result) := by
  induction h generalizing fuel with
  | drained hround => exact drain_of_queue_eq_nil (round?_eq_none.mp hround) fuel
  | failed hround =>
      obtain ⟨fuel, rfl⟩ : ∃ rest, fuel = rest + 1 := ⟨fuel - 1, by omega⟩
      rw [Plan.drain, hround]
  | round hround _ ih =>
      obtain ⟨fuel, rfl⟩ : ∃ rest, fuel = rest + 1 := ⟨fuel - 1, by omega⟩
      rw [Plan.drain, hround]
      exact ih (by omega)

end Ends

/-! ## What can be found -/

/-- What holds of the registry at every stage, also where a round has failed: all types are known
from the start or in reach of what was known. -/
structure Confined (p : Plan) (known : TypeId → Prop) (s : Stage) : Prop where
  sound : s.registry.Sound
  found : ∀ u, s.registry.contains u → known u ∨ p.library.InReach known u

/-- What is met in a stub is in reach. -/
theorem Confined.inReach_of_mem_meetAll (h : p.Confined known s) (hclosed : p.library.Closed)
    {types : List TypeId} (htypes : ∀ t ∈ types, s.registry.contains t) {u : TypeId}
    (hu : u ∈ (Stub.meetAll p.library types).1) : p.library.InReach known u := by
  obtain ⟨t, ht, hmeans⟩ := Stub.exists_means_of_mem_meetAll hu
  obtain ⟨declared, hreaches⟩ := hclosed.declares_of_means (Stub.mem_keys_of_means hmeans) hmeans
  refine ⟨declared, ?_⟩
  rcases h.found t (htypes t ht) with hknown | ⟨-, r, hr, hbefore⟩
  · exact ⟨t, hknown, hreaches⟩
  · exact ⟨r, hr, hbefore.trans hreaches⟩

/-- A round that only takes a namespace from the queue. -/
theorem Confined.pop {space : Namespace} {members : List TypeId} {registry : Registry}
    (h : p.Confined known s) (hpop : s.registry.pop? = some ((space, members), registry))
    (hregistry : s'.registry = registry) : p.Confined known s' where
  sound := hregistry ▸ h.sound.pop hpop
  found u hu := by
    rw [hregistry, contains_of_pop? hpop] at hu
    exact h.found u hu

/-- A round that comes to render a stub. -/
theorem Confined.meet {space : Namespace} {members : List TypeId} {registry : Registry}
    (h : p.Confined known s) (hclosed : p.library.Closed)
    (hpop : s.registry.pop? = some ((space, members), registry))
    (hregistry : s'.registry = (registry.clear space).2.addAll
      (Stub.meetAll p.library (p.session.select members)).1) : p.Confined known s' where
  sound := hregistry ▸ ((h.sound.pop hpop).clear space).addAll _
  found u hu := by
    rw [hregistry, Registry.contains_addAll] at hu
    rcases hu with hold | hmet
    · have hbefore : registry.contains u := hold
      rw [contains_of_pop? hpop] at hbefore
      exact h.found u hbefore
    · refine Or.inr (h.inReach_of_mem_meetAll hclosed ?_ hmet)
      intro t ht
      have hmember := (Session.mem_select.mp ht).1
      rw [(Registry.pop?_eq_some hpop).2.1] at hmember
      exact (h.sound.mem_members_iff.mp hmember).1

theorem Round.confined (h : p.Round s s') (hclosed : p.library.Closed)
    (hinv : p.Confined known s) : p.Confined known s' := by
  cases h with
  | skipped hpop hselect => exact hinv.pop hpop rfl
  | @emitted e members met registry directory made disk hpop htypes hne hdirectory hpath hmade
      hadded hrender hwrite =>
      refine hinv.meet hclosed hpop ?_
      rw [← htypes, ← Stub.render_fst p.library e.space, hrender]

theorem Failed.confined (h : p.Failed s s') (hclosed : p.library.Closed)
    (hinv : p.Confined known s) : p.Confined known s' := by
  cases h with
  | refused hpop => exact hinv.pop hpop rfl
  | unmade hpop => exact hinv.pop hpop rfl
  | unwritten hpop =>
      refine hinv.meet hclosed hpop ?_
      rw [← Stub.render_fst]

/-- Rounds find nothing that is out of reach, and take no more namespaces from the queue than it has
and than there are types that they find. -/
theorem Ends.confined (h : p.Ends s count last result) (hclosed : p.library.Closed)
    (hinv : p.Confined known s) : p.Confined known last ∧
      count + s.registry.size ≤ s.registry.queue.length + last.registry.size := by
  induction h with
  | drained => exact ⟨hinv, by omega⟩
  | failed hround =>
      have hfailed := failed_of_round? hround
      have hlength := hfailed.length_queue_lt
      exact ⟨hfailed.confined hclosed hinv, by omega⟩
  | round hround _ ih =>
      have hdone := round_of_round? hround
      have hlength := hdone.length_queue_lt
      obtain ⟨hlast, hcount⟩ := ih (hdone.confined hclosed hinv)
      exact ⟨hlast, by omega⟩

theorem Confined.size_le (h : p.Confined known s) (hknown : {t | known t}.Finite) :
    s.registry.size ≤ ({t | known t} ∪ {t | p.library.InReach known t}).ncard := by
  rw [← h.sound.ncard_eq_size]
  exact Set.ncard_le_ncard h.found (hknown.union (p.library.finite_inReach known))

/-- Each round pays with a place in the queue or with a type that is found no more. -/
theorem exists_ends (hclosed : p.library.Closed) (hknown : {t | known t}.Finite)
    (hinv : p.Confined known s) : ∃ count last result, p.Ends s count last result := by
  let bound := ({t | known t} ∪ {t | p.library.InReach known t}).ncard
  induction hleft : s.registry.queue.length + (bound - s.registry.size)
    using Nat.strong_induction_on generalizing s with
  | h left ih =>
      cases hround : p.round? s with
      | none => exact ⟨0, s, none, .drained hround⟩
      | some outcome =>
          obtain ⟨s', fault⟩ := outcome
          cases fault with
          | some fault => exact ⟨1, s', some fault, .failed hround⟩
          | none =>
              have hdone := round_of_round? hround
              have hnext := hdone.confined hclosed hinv
              have hlength := hdone.length_queue_lt
              have hsize : s'.registry.size ≤ bound := hnext.size_le hknown
              obtain ⟨count, last, result, hends⟩ := ih _ (by omega) hnext rfl
              exact ⟨count + 1, last, result, .round hround hends⟩

theorem Round.length_events (h : p.Round s s') : s'.events.length = s.events.length + 1 := by
  cases h with
  | skipped => exact List.length_append
  | emitted => exact List.length_append

/-- Every round that ends well leaves one event. -/
theorem Ends.length_events (h : p.Ends s count last none) :
    last.events.length = s.events.length + count := by
  generalize hresult : (none : Option Fault) = result at h
  induction h with
  | drained => rfl
  | failed => cases hresult
  | round hround _ ih =>
      have hone := (round_of_round? hround).length_events
      rw [ih hresult, hone]
      omega

end Plan

namespace Session

/-- What a generation comes to whose rounds are not bounded, and how many namespaces it takes from
the queue. -/
inductive Generates (s : Session) (disk : Disk) (destination : Path) : Nat → Built → Prop
  | refused {fault : Fault} (hcheck : checkAll s.registry.namespaces = .error fault) :
      Generates s disk destination 0 ⟨s, disk, [], [], .error fault⟩
  | drained {count : Nat} {last : Stage} (hcheck : checkAll s.registry.namespaces = .ok ())
      (hends : Plan.Ends ⟨s, destination⟩ (s.firstStage disk) count last none) :
      Generates s disk destination count (s.builtFrom destination last)
  | failed {count : Nat} {last : Stage} {fault : Fault}
      (hcheck : checkAll s.registry.namespaces = .ok ())
      (hends : Plan.Ends ⟨s, destination⟩ (s.firstStage disk) count last (some fault)) :
      Generates s disk destination count
        { s.builtFrom destination last with result := .error fault }

variable {s : Session} {disk : Disk} {destination : Path} {count count' : Nat} {b b' : Built}

theorem Generates.unique (h : s.Generates disk destination count b)
    (h' : s.Generates disk destination count' b') : count' = count ∧ b' = b := by
  cases h with
  | refused hcheck =>
      cases h' with
      | refused hcheck' =>
          rw [hcheck] at hcheck'
          cases hcheck'
          exact ⟨rfl, rfl⟩
      | drained hcheck' => simp [hcheck] at hcheck'
      | failed hcheck' => simp [hcheck] at hcheck'
  | drained hcheck hends =>
      cases h' with
      | refused hcheck' => simp [hcheck] at hcheck'
      | drained _ hends' =>
          obtain ⟨rfl, rfl, -⟩ := hends.unique hends'
          exact ⟨rfl, rfl⟩
      | failed _ hends' => cases (hends.unique hends').2.2
  | failed hcheck hends =>
      cases h' with
      | refused hcheck' => simp [hcheck] at hcheck'
      | drained _ hends' => cases (hends.unique hends').2.2
      | failed _ hends' =>
          obtain ⟨rfl, rfl, hfault⟩ := hends.unique hends'
          cases hfault
          exact ⟨rfl, rfl⟩

/-- A generation with a result notes one event for every namespace that it takes. -/
theorem Generates.length_events {g : Generation} (h : s.Generates disk destination count b)
    (hresult : b.result = .ok g) : b.events.length = count := by
  cases h with
  | refused => cases hresult
  | drained _ hends => exact hends.length_events.trans (Nat.zero_add count)
  | failed => cases hresult

/-- Rounds that end within the bound of a generation are its rounds. -/
theorem generates_of_ends {last : Stage} {result : Option Fault}
    (hcheck : checkAll s.registry.namespaces = .ok ())
    (hends : Plan.Ends ⟨s, destination⟩ (s.firstStage disk) count last result)
    (hcount : count ≤ Plan.roundBound ⟨s, destination⟩ s.registry) :
    s.Generates disk destination count (s.generate disk destination) ∧
      (s.generate disk destination).session.registry = last.registry := by
  have hdrain := hends.drain hcount
  cases result with
  | none =>
      rw [generate_of_drain hcheck hdrain]
      exact ⟨.drained hcheck hends, rfl⟩
  | some fault =>
      have hgenerate : s.generate disk destination =
          { s.builtFrom destination last with result := .error fault } := by
        rw [firstStage] at hdrain
        rw [generate, hcheck]
        dsimp only
        rw [hdrain]
        rfl
      rw [hgenerate]
      exact ⟨.failed hcheck hends, rfl⟩

/-- The types that a run has registered and that were not registered before. -/
def newTypes (s : Session) (b : Built) : Set TypeId :=
  {t | b.session.registry.contains t ∧ ¬ s.registry.contains t}

/-- The types that the binaries declare to which those of the registered types lead. -/
def typesInReach (s : Session) : Set TypeId :=
  {t | s.loader.library.InReach (fun u => s.registry.contains u) t}

theorem ncard_typesInReach_le (s : Session) :
    s.typesInReach.ncard ≤ s.loader.library.typeCount := by
  have hle := s.loader.library.encard_inReach_le fun u => s.registry.contains u
  rw [← (s.loader.library.finite_inReach _).cast_ncard_eq] at hle
  exact_mod_cast hle

/-- What a generation comes to when its rounds are not bounded, it comes to within its bound. -/
theorem exists_generates (hreached : s.Reached) (disk : Disk) (destination : Path) :
    ∃ count last, s.Generates disk destination count (s.generate disk destination) ∧
      Plan.Confined ⟨s, destination⟩ (fun t => s.registry.contains t) last ∧
      (s.generate disk destination).session.registry = last.registry ∧
      count + s.registry.size ≤ s.registry.queue.length + last.registry.size := by
  have hsound := hreached.registry
  have hclosed : Plan.library ⟨s, destination⟩ |>.Closed := hreached.loader.standard.2
  have hstart : Plan.Confined ⟨s, destination⟩ (fun t => s.registry.contains t)
      (s.firstStage disk) := ⟨hsound, fun _ => Or.inl⟩
  cases hcheck : checkAll s.registry.namespaces with
  | error fault =>
      have hrefused : s.generate disk destination = ⟨s, disk, [], [], .error fault⟩ := by
        rw [generate, hcheck]
      rw [hrefused]
      exact ⟨0, s.firstStage disk, .refused hcheck, hstart, rfl, by simp [firstStage]⟩
  | ok =>
      obtain ⟨count, last, result, hends⟩ := Plan.exists_ends hclosed hsound.finite_contains hstart
      obtain ⟨hlast, hcount⟩ := hends.confined hclosed hstart
      have hbound : count ≤ Plan.roundBound ⟨s, destination⟩ s.registry := by
        have hunion := Set.ncard_union_le {t | s.registry.contains t} s.typesInReach
        have hsize := hlast.size_le hsound.finite_contains
        have hreach := s.ncard_typesInReach_le
        rw [hsound.ncard_eq_size] at hunion
        have hfirst : (s.firstStage disk).registry = s.registry := rfl
        have hmost : last.registry.size ≤ s.registry.size + s.typesInReach.ncard :=
          hsize.trans hunion
        have hroom : Plan.roundBound ⟨s, destination⟩ s.registry =
            s.registry.queue.length + s.loader.library.typeCount := rfl
        rw [hfirst] at hcount
        rw [hroom]
        omega
      obtain ⟨hgenerates, hregistry⟩ := generates_of_ends hcheck hends hbound
      exact ⟨count, last, hgenerates, hlast, hregistry, hcount⟩

/-- Whatever a session has been through, its generation ends, as its rounds do when nothing bounds
their number. They take no more namespaces from the queue than it has at the start and than types
are registered on the way, all of them in reach of those that were. -/
theorem generate_ends (hreached : s.Reached) (disk : Disk) (destination : Path) :
    ∃ count,
      (∀ count' b, s.Generates disk destination count' b ↔
        count' = count ∧ b = s.generate disk destination) ∧
      count ≤ s.registry.queue.length + (s.newTypes (s.generate disk destination)).ncard ∧
      (s.newTypes (s.generate disk destination)).ncard ≤ s.typesInReach.ncard := by
  have hsound := hreached.registry
  obtain ⟨count, last, hgenerates, hconfined, hregistry, hcount⟩ :=
    exists_generates hreached disk destination
  have hnew : s.newTypes (s.generate disk destination) =
      {t | last.registry.contains t} \ {t | s.registry.contains t} := by
    rw [newTypes, hregistry]
    rfl
  rw [hnew]
  refine ⟨count, ?_, ?_, ?_⟩
  · intro count' b
    constructor
    · exact fun h => hgenerates.unique h
    · rintro ⟨rfl, rfl⟩
      exact hgenerates
  · have hsplit := Set.ncard_le_ncard_sdiff_add_ncard {t | last.registry.contains t}
      {t | s.registry.contains t} hsound.finite_contains
    rw [hconfined.sound.ncard_eq_size, hsound.ncard_eq_size] at hsplit
    omega
  · refine Set.ncard_le_ncard ?_ (s.loader.library.finite_inReach _)
    exact fun t ⟨ht, hold⟩ => (hconfined.found t ht).resolve_left hold

set_option maxRecDepth 100000 in
theorem lateRounds_evaluated :
    lateLoading.1.registry.queue.length = 1 ∧
    lateLast?.map (fun last => last.events.length) = some 3 := by
  decide +kernel

/-- A generation that takes three namespaces from a queue of one: each of the two types that are met
puts a namespace there. -/
theorem generate_ends_late :
    lateLoading.1.Reached ∧ lateLoading.1.registry.queue.length = 1 ∧
      lateLoading.1.Generates lateDisk lateDestination 3
        (lateLoading.1.generate lateDisk lateDestination) ∧
      3 ≤ 1 + (lateLoading.1.newTypes
        (lateLoading.1.generate lateDisk lateDestination)).ncard ∧
      (lateLoading.1.newTypes (lateLoading.1.generate lateDisk lateDestination)).ncard ≤
        lateLoading.1.typesInReach.ncard := by
  obtain ⟨-, -, hcheck, -⟩ := late_evaluated
  obtain ⟨hqueue, hlast⟩ := lateRounds_evaluated
  obtain ⟨last, hdrain, hevents⟩ := Option.map_eq_some_iff.mp hlast
  have hreached : lateLoading.1.Reached := ((Reached.new {}).prepare _ _).loadAll _ _ _
  have hgenerate : lateLoading.1.generate lateDisk lateDestination =
      lateLoading.1.builtFrom lateDestination last :=
    generate_of_drainInOrder (eq_ok_of_toOption hcheck) hdrain
  obtain ⟨count, hends, hcount, hnew⟩ := generate_ends hreached lateDisk lateDestination
  have hgenerates := (hends count _).mpr ⟨rfl, rfl⟩
  obtain rfl : 3 = count := by
    rw [← hgenerates.length_events (congrArg Built.result hgenerate), hgenerate]
    exact hevents.symm
  rw [hqueue] at hcount
  exact ⟨hreached, hqueue, hgenerates, hcount, hnew⟩

end Session

end StubTree
