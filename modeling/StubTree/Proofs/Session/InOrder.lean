import StubTree.Proofs.Session.Rounds
import StubTree.Proofs.Session.Selection

/-! # Runs whose types are in order

A sort cannot be computed inside a proof. Where the wanted types of every namespace that is taken
from the queue stand in order already, a run can do without, and is computed.
-/

namespace StubTree

namespace Session

/-- The types that are wanted, not sorted yet. -/
def wanted (s : Session) (types : List TypeId) : List TypeId :=
  if s.options.onlyTargetTypes then types.filter (·.unit ∈ s.loader.targets) else types

/-- The wanted types, if they stand in order. -/
def selectInOrder? (s : Session) (types : List TypeId) : Option (List TypeId) :=
  if (s.wanted types).Pairwise fun a b => comesBefore a b = true then some (s.wanted types)
  else none

theorem select_of_selectInOrder? {s : Session} {types chosen : List TypeId}
    (h : s.selectInOrder? types = some chosen) : s.select types = chosen := by
  rw [selectInOrder?] at h
  split at h
  next hsorted =>
    cases h
    exact List.mergeSort_of_pairwise hsorted
  next => cases h

end Session

namespace Plan

/-- A round whose types are in order. -/
def roundInOrder? (p : Plan) (s : Stage) : Option (Stage × Option Fault) :=
  match s.registry.pop? with
  | none => none
  | some ((space, members), registry) =>
    match space.check, p.session.selectInOrder? members with
    | .ok (), some [] => some ({ s with registry, events := s.events ++ [.skipped space] }, none)
    | .ok (), some (t :: types) => some (p.emit { s with registry } space (t :: types))
    | _, _ => none

/-- What is computed without sorting is what a round does. -/
theorem round?_of_roundInOrder? {p : Plan} {s : Stage} {outcome : Stage × Option Fault}
    (h : p.roundInOrder? s = some outcome) : p.round? s = some outcome := by
  rw [roundInOrder?] at h
  rw [round?]
  split at h
  next => cases h
  next space members registry hpop =>
    split at h
    next hcheck hselect =>
      simpa [hpop, hcheck, Session.select_of_selectInOrder? hselect] using h
    next hcheck hselect =>
      simpa [hpop, hcheck, Session.select_of_selectInOrder? hselect] using h
    next => cases h

/-- The stage after such a round, if it ends well. -/
def nextInOrder? (p : Plan) (s : Stage) : Option Stage :=
  match p.roundInOrder? s with
  | some (next, none) => some next
  | _ => none

theorem round?_of_nextInOrder? {p : Plan} {s next : Stage} (h : p.nextInOrder? s = some next) :
    p.round? s = some (next, none) := by
  rw [nextInOrder?] at h
  split at h
  next hround =>
    cases h
    exact round?_of_roundInOrder? hround
  next => cases h

/-- The rounds of a run whose types are in order. -/
def drainInOrder (p : Plan) : Nat → Stage → Option Stage
  | 0, s => if s.registry.isDrained then some s else none
  | fuel + 1, s =>
    match s.registry.pop? with
    | none => some s
    | some ((space, members), registry) =>
      match space.check, p.session.selectInOrder? members with
      | .ok (), some [] =>
        drainInOrder p fuel { s with registry, events := s.events ++ [.skipped space] }
      | .ok (), some (t :: types) =>
        match p.emit { s with registry } space (t :: types) with
        | (s, none) => drainInOrder p fuel s
        | (_, some _) => none
      | _, _ => none

/-- What is computed without sorting is what a run does. -/
theorem drain_of_drainInOrder {p : Plan} {fuel : Nat} {s last : Stage}
    (h : p.drainInOrder fuel s = some last) : p.drain fuel s = (last, none) := by
  induction fuel generalizing s with
  | zero =>
      rw [drainInOrder] at h
      split at h
      next hdrained =>
        cases h
        rw [drain, if_pos hdrained]
      next => cases h
  | succ fuel ih =>
      rw [drain]
      cases hpop : s.registry.pop? with
      | none =>
          rw [drainInOrder, hpop] at h
          cases h
          rw [round?, hpop]
      | some popped =>
          obtain ⟨⟨space, members⟩, registry⟩ := popped
          rw [drainInOrder, hpop] at h
          rw [round?, hpop]
          dsimp only [Enumeration.members_listed] at h ⊢
          cases hselect : p.session.selectInOrder? members with
          | none =>
              rw [hselect] at h
              cases hcheck : space.check <;> rw [hcheck] at h <;> cases h
          | some chosen =>
              rw [Session.select_of_selectInOrder? hselect]
              rw [hselect] at h
              cases hcheck : space.check with
              | error fault =>
                  rw [hcheck] at h
                  cases h
              | ok checked =>
                  rw [hcheck] at h
                  cases chosen with
                  | nil => exact ih h
                  | cons t types =>
                      dsimp only at h ⊢
                      cases hemit : p.emit { s with registry } space (t :: types) with
                      | mk next result =>
                          rw [hemit] at h
                          cases result with
                          | none => exact ih h
                          | some fault => cases h

end Plan

namespace Session

variable {s : Session} {disk : Disk} {destination : Path}

/-- A generation whose types are in order. -/
theorem generate_of_drainInOrder {last : Stage} (hcheck : checkAll s.registry.namespaces = .ok ())
    (hdrain : Plan.drainInOrder ⟨s, destination⟩ (Plan.roundBound ⟨s, destination⟩ s.registry)
      (s.firstStage disk) = some last) :
    s.generate disk destination = s.builtFrom destination last :=
  generate_of_drain hcheck (Plan.drain_of_drainInOrder hdrain)

def generateInOrder (s : Session) (disk : Disk) (destination : Path) : Option Built :=
  match checkAll s.registry.namespaces, Plan.drainInOrder ⟨s, destination⟩
      (Plan.roundBound ⟨s, destination⟩ s.registry) (s.firstStage disk) with
  | .ok (), some last => some (s.builtFrom destination last)
  | _, _ => none

/-- A build with a result whose types are in order. -/
def buildInOrder (s : Session) (disk : Disk) (destination : Path) (targets searchPaths : List Path)
    (onlyTargetTypes : Option Document) : Option Built :=
  match s.choose onlyTargetTypes with
  | .error _ => none
  | .ok s =>
    match { s with registry := {} }.prepare disk searchPaths with
    | (_, .error _) => none
    | (s, .ok ()) =>
      match s.loadTargets disk targets with
      | (_, _, .error _) => none
      | (s, said, .ok _) =>
        match s.loadBuiltins disk s.options.builtinBinaries with
        | (_, _, .error _) => none
        | (s, more, .ok _) =>
          (s.generateInOrder disk destination).map fun built =>
            { built with said := said ++ more ++ built.said }

theorem generate_of_generateInOrder {b : Built} (h : s.generateInOrder disk destination = some b) :
    s.generate disk destination = b := by
  rw [generateInOrder] at h
  split at h
  next hcheck hdrain =>
    cases h
    exact generate_of_drainInOrder hcheck hdrain
  next => cases h

theorem build_of_buildInOrder {targets searchPaths : List Path} {onlyTargetTypes : Option Document}
    {b : Built} (h : s.buildInOrder disk destination targets searchPaths onlyTargetTypes = some b) :
    s.build disk destination targets searchPaths onlyTargetTypes = b := by
  rw [buildInOrder] at h
  split at h
  next => cases h
  next chosen hchoose =>
    split at h
    next => cases h
    next prepared hprepare =>
      split at h
      next => cases h
      next after said found htargets =>
        split at h
        next => cases h
        next loaded more builtins hbuiltins =>
          obtain ⟨built, hgenerate, rfl⟩ := Option.map_eq_some_iff.mp h
          rw [build, hchoose]
          dsimp only
          rw [hprepare]
          dsimp only
          rw [htargets]
          dsimp only
          rw [hbuiltins]
          dsimp only
          rw [generate_of_generateInOrder hgenerate]

/-- What a build without sorting shows of itself and its record, the build shows. -/
theorem exists_result_of_buildInOrder {α : Type} {view : Built → Generation → α} {a : α}
    {targets searchPaths : List Path} {onlyTargetTypes : Option Document}
    (h : (s.buildInOrder disk destination targets searchPaths onlyTargetTypes).bind
      (fun b => b.result.toOption.map (view b)) = some a) :
    ∃ g, (s.build disk destination targets searchPaths onlyTargetTypes).result = .ok g ∧
      view (s.build disk destination targets searchPaths onlyTargetTypes) g = a := by
  obtain ⟨b, hb, hview⟩ := Option.bind_eq_some_iff.mp h
  obtain ⟨g, hg, rfl⟩ := Option.map_eq_some_iff.mp hview
  rw [build_of_buildInOrder hb]
  exact ⟨g, eq_ok_of_toOption hg, rfl⟩

end Session

end StubTree
