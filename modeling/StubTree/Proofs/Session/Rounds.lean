import Mathlib.Logic.Relation
import StubTree.Proofs.Disk
import StubTree.Proofs.Registry.Laws
import StubTree.Session.Build

/-! # Rounds

What one round can do, said once for all invariants of a run: a round that ends well leaves a
namespace out or writes its stub, and one that fails notes nothing. The rounds of a run that ends
well follow one another until the queue is empty.
-/

namespace StubTree.Plan

variable {p : Plan} {s s' : Stage} {fault : Fault}

/-- A round that ends well. -/
inductive Round (p : Plan) (s : Stage) : Stage → Prop
  | skipped {space : Namespace} {members : List TypeId} {registry : Registry}
      (hpop : s.registry.pop? = some ((space, members), registry))
      (hselect : p.session.select members = []) :
      Round p s { s with registry, events := s.events ++ [.skipped space] }
  | emitted {e : Emission} {members met : List TypeId} {registry : Registry} {directory : Path}
      {made disk : Disk}
      (hpop : s.registry.pop? = some ((e.space, members), registry))
      (htypes : e.types = p.session.select members)
      (hne : e.types ≠ [])
      (hdirectory : e.space.directory p.destination = .ok directory)
      (hpath : e.path = p.stubPath directory)
      (hmade : s.disk.makeDirectories directory = (made, none))
      (hadded : e.added = (registry.clear e.space).1)
      (hrender : Stub.render p.library e.space e.types = (met, .ok e.text))
      (hwrite : made.write e.path e.text.toUTF8 = .ok disk) :
      Round p s
        { registry := (registry.clear e.space).2.addAll met
          disk
          events := s.events ++ [.emitted e] }

/-- A round that fails: before anything is made, while directories are made, or after. -/
inductive Failed (p : Plan) (s : Stage) : Stage → Prop
  | refused {space : Namespace} {members : List TypeId} {registry : Registry}
      (hpop : s.registry.pop? = some ((space, members), registry)) :
      Failed p s { s with registry }
  | unmade {space : Namespace} {members : List TypeId} {registry : Registry}
      {directory : Path} {made : Disk} {fault : Fault}
      (hpop : s.registry.pop? = some ((space, members), registry))
      (hdirectory : space.directory p.destination = .ok directory)
      (hmade : s.disk.makeDirectories directory = (made, some fault)) :
      Failed p s { s with registry, disk := made }
  | unwritten {space : Namespace} {members : List TypeId} {registry : Registry}
      {directory : Path} {made : Disk}
      (hpop : s.registry.pop? = some ((space, members), registry))
      (hdirectory : space.directory p.destination = .ok directory)
      (hmade : s.disk.makeDirectories directory = (made, none)) :
      Failed p s
        { s with
          registry := (registry.clear space).2.addAll
            (Stub.render p.library space (p.session.select members)).1
          disk := made }

theorem round_of_round? (h : p.round? s = some (s', none)) : p.Round s s' := by
  rw [round?] at h
  split at h
  · cases h
  next space members registry hpop =>
    dsimp only at h
    split at h
    · cases h
    split at h
    next hselect =>
      cases h
      exact .skipped hpop hselect
    next hselect =>
      simp only [Option.some.injEq, emit] at h
      split at h
      · cases h
      next directory hdirectory =>
        split at h
        · cases h
        next made hmade =>
          split at h
          · cases h
          next text hrender =>
            split at h
            · cases h
            next disk hwrite =>
              cases h
              exact .emitted (e := ⟨space, _, _, _, text⟩) hpop rfl hselect hdirectory rfl hmade
                rfl (Prod.ext rfl hrender) hwrite

theorem failed_of_round? (h : p.round? s = some (s', some fault)) : p.Failed s s' := by
  rw [round?] at h
  split at h
  · cases h
  next space members registry hpop =>
    dsimp only at h
    split at h
    · cases h
      exact .refused hpop
    split at h
    · cases h
    · simp only [Option.some.injEq, emit] at h
      split at h
      · cases h
        exact .refused hpop
      next directory hdirectory =>
        split at h
        next made _ hmade =>
          cases h
          exact .unmade hpop hdirectory hmade
        next made hmade =>
          split at h
          next hrender =>
            cases h
            exact .unwritten hpop hdirectory hmade
          next text hrender =>
            split at h
            · cases h
              exact .unwritten hpop hdirectory hmade
            · cases h

theorem round?_eq_none : p.round? s = none ↔ s.registry.queue = [] := by
  rw [← Registry.pop?_eq_none, round?]
  split
  next hpop => simp [hpop]
  next hpop =>
    rw [hpop]
    dsimp only
    split
    · simp
    · split <;> simp

/-! ## Runs -/

/-- Rounds that end well, one after the other. -/
def Run (p : Plan) : Stage → Stage → Prop := Relation.ReflTransGen p.Round

theorem Run.preserves {inv : Stage → Prop} (hrun : p.Run s s')
    (hround : ∀ {s s'}, p.Round s s' → inv s → inv s') (hstart : inv s) : inv s' := by
  induction hrun with
  | refl => exact hstart
  | tail _ hlast ih => exact hround hlast ih

theorem drain_eq_none {fuel : Nat} (h : p.drain fuel s = (s', none)) :
    p.Run s s' ∧ s'.registry.queue = [] := by
  induction fuel generalizing s with
  | zero =>
      -- The fuel may end together with the queue.
      simp only [drain, Prod.mk.injEq] at h
      obtain ⟨rfl, hdrained⟩ := h
      refine ⟨.refl, ?_⟩
      split at hdrained
      next hempty => exact List.isEmpty_iff.mp hempty
      next => cases hdrained
  | succ fuel ih =>
      rw [drain] at h
      split at h
      next hnone =>
        cases h
        exact ⟨.refl, round?_eq_none.mp hnone⟩
      next => cases h
      next next hround =>
        obtain ⟨hrun, hempty⟩ := ih h
        exact ⟨.head (round_of_round? hround) hrun, hempty⟩

/-- A run that fails comes to a round that fails, or leaves namespaces in the queue. -/
theorem drain_eq_some {fuel : Nat} (h : p.drain fuel s = (s', some fault)) :
    ∃ last, p.Run s last ∧ (s' = last ∨ p.Failed last s') := by
  induction fuel generalizing s with
  | zero =>
      simp only [drain, Prod.mk.injEq] at h
      exact ⟨s, .refl, Or.inl h.1.symm⟩
  | succ fuel ih =>
      rw [drain] at h
      split at h
      next => cases h
      next hround =>
        cases h
        exact ⟨s, .refl, Or.inr (failed_of_round? hround)⟩
      next next hround =>
        obtain ⟨last, hrun, hend⟩ := ih h
        exact ⟨last, .head (round_of_round? hround) hrun, hend⟩

/-- What all rounds keep, those that fail as well, holds at the end of every run. -/
theorem drain_preserves (inv : Stage → Prop) (fuel : Nat)
    (hround : ∀ {s s'}, p.Round s s' → inv s → inv s')
    (hfailed : ∀ {s s'}, p.Failed s s' → inv s → inv s') (hstart : inv s) :
    inv (p.drain fuel s).1 := by
  cases hdrain : p.drain fuel s with
  | mk last result =>
      cases result with
      | none => exact (drain_eq_none hdrain).1.preserves hround hstart
      | some fault =>
          obtain ⟨before, hrun, rfl | hend⟩ := drain_eq_some hdrain
          · exact hrun.preserves hround hstart
          · exact hfailed hend (hrun.preserves hround hstart)

/-! ## The registry -/

theorem Round.sound (h : p.Round s s') (hsound : s.registry.Sound) : s'.registry.Sound := by
  cases h with
  | skipped hpop hselect => exact hsound.pop hpop
  | emitted hpop =>
      exact ((hsound.pop hpop).clear _).addAll _

theorem Failed.sound (h : p.Failed s s') (hsound : s.registry.Sound) : s'.registry.Sound := by
  cases h with
  | refused hpop => exact hsound.pop hpop
  | unmade hpop hdirectory hmade => exact hsound.pop hpop
  | unwritten hpop hdirectory hmade => exact ((hsound.pop hpop).clear _).addAll _

theorem sound_drain (fuel : Nat) (hsound : s.registry.Sound) :
    (p.drain fuel s).1.registry.Sound :=
  drain_preserves (fun s => s.registry.Sound) fuel Round.sound Failed.sound hsound

end Plan

namespace Session

variable {s : Session} {disk : Disk} {destination : Path} {g : Generation}

/-- The stage on which a generation starts. -/
def firstStage (s : Session) (disk : Disk) : Stage := { registry := s.registry, disk }

/-- What a generation leaves whose last stage is known. -/
def builtFrom (s : Session) (destination : Path) (last : Stage) : Built where
  session := { s with registry := last.registry }
  disk := last.disk
  said := last.events.flatMap Event.progress
  events := last.events
  result := .ok (last.events.foldl Generation.note
    ⟨destination, s.loader.targetNames, [], []⟩)

/-- A generation with a result refused no namespace, and its rounds emptied the queue. -/
theorem drain_of_generate (h : (s.generate disk destination).result = .ok g) :
    checkAll s.registry.namespaces = .ok () ∧
      ∃ last, Plan.drain ⟨s, destination⟩ (Plan.roundBound ⟨s, destination⟩ s.registry)
        (s.firstStage disk) = (last, none) := by
  rw [generate] at h
  split at h
  · cases h
  next hcheck =>
    dsimp only at h
    cases hdrain : Plan.drain ⟨s, destination⟩ (Plan.roundBound ⟨s, destination⟩ s.registry)
        (s.firstStage disk) with
    | mk last result =>
        rw [firstStage] at hdrain
        rw [hdrain] at h
        cases result with
        | some fault => cases h
        | none => exact ⟨hcheck, last, rfl⟩

theorem generate_of_drain {last : Stage} (hcheck : checkAll s.registry.namespaces = .ok ())
    (hdrain : Plan.drain ⟨s, destination⟩ (Plan.roundBound ⟨s, destination⟩ s.registry)
      (s.firstStage disk) = (last, none)) :
    s.generate disk destination = s.builtFrom destination last := by
  rw [firstStage] at hdrain
  rw [generate, hcheck]
  dsimp only
  rw [hdrain]
  rfl

/-- A generation with a result is a run of rounds that emptied the queue. -/
theorem generate_eq_ok (h : (s.generate disk destination).result = .ok g) :
    ∃ last, Plan.Run ⟨s, destination⟩ (s.firstStage disk) last ∧ last.registry.queue = [] ∧
      s.generate disk destination = s.builtFrom destination last := by
  obtain ⟨hcheck, last, hdrain⟩ := drain_of_generate h
  obtain ⟨hrun, hqueue⟩ := Plan.drain_eq_none hdrain
  exact ⟨last, hrun, hqueue, generate_of_drain hcheck hdrain⟩

theorem sound_generate (hsound : s.registry.Sound) (disk : Disk) (destination : Path) :
    (s.generate disk destination).session.registry.Sound := by
  rw [generate]
  split
  · exact hsound
  · exact Plan.sound_drain _ hsound

theorem loader_generate (s : Session) (disk : Disk) (destination : Path) :
    (s.generate disk destination).session.loader = s.loader := by
  rw [generate]
  split <;> rfl

end StubTree.Session
