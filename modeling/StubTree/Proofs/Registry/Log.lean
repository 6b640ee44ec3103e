import StubTree.Proofs.Distinct
import StubTree.Proofs.Registry.Laws

/-! # The log of a registry

The events of a registry since its last reset, and what they show. The log keeps no sets and no
queue: types, namespaces and additions are read off the events, and a namespace waits exactly if
it gained a type since it was last popped.
-/

namespace StubTree.Registry

/-! ## Operations and their answers -/

/-- An operation of the registry. -/
inductive Action where
  | add (t : TypeId)
  | pop
  | clear (space : Namespace)
  | reset
  deriving DecidableEq

/-- What an operation answers: whether a type is new, the namespace that was popped with its
types, or the types that were handed over. -/
inductive Answer where
  | added (isNew : Bool)
  | popped (head : Option (Namespace × List TypeId))
  | cleared (types : List TypeId)
  | forgotten
  deriving DecidableEq

/-! ## The log -/

/-- An event in the life of a registry. -/
inductive Entry where
  | added (t : TypeId)
  | popped (space : Namespace)
  | cleared (space : Namespace)
  deriving DecidableEq

/-- The events since the last reset, the oldest first. -/
abbrev Log := List Entry

namespace Log

def addition? : Entry → Option TypeId
  | .added t => some t
  | _ => none

/-- The types that were added, as often as they were. -/
def added (log : Log) : List TypeId := log.filterMap addition?

/-- The types that were added, in the order of their first addition. -/
def types (log : Log) : List TypeId := log.added.eraseDups

def members (log : Log) (space : Namespace) : List TypeId :=
  log.types.filter fun t => t.space = space

/-- The namespaces of the added types, in the order of the first addition to them. -/
def namespaces (log : Log) : List Namespace := (log.added.map (·.space)).eraseDups

/-- The events up to the last one that equals `mark`. -/
def upTo (mark : Entry) (log : Log) : Log := (log.reverse.dropWhile (· ≠ mark)).reverse

/-- Whether a type was not added up to the last `mark`. -/
def isNewSince (mark : Entry) (log : Log) (t : TypeId) : Bool := t ∉ (log.upTo mark).added

/-- The types of a namespace first added after the namespace was last cleared. -/
def pending (log : Log) (space : Namespace) : List TypeId :=
  (log.members space).filter (log.isNewSince (.cleared space))

/-- The types first added after their namespace was last popped. -/
def gains (log : Log) : List TypeId :=
  log.types.filter fun t => log.isNewSince (.popped t.space) t

/-- The namespaces that gained a type since they were last popped, in the order of their first
such gain. -/
def worklist (log : Log) : List Namespace := (log.gains.map (·.space)).eraseDups

/-- Answers an operation from the log, and notes it there. -/
def perform (log : Log) : Action → Answer × Log
  | .add t => (.added (t ∉ log.added), log ++ [.added t])
  | .pop =>
    match log.worklist with
    | [] => (.popped none, log)
    | space :: _ => (.popped (some (space, log.members space)), log ++ [.popped space])
  | .clear space => (.cleared (log.pending space), log ++ [.cleared space])
  | .reset => (.forgotten, [])

variable {log : Log} {t : TypeId} {space : Namespace} {mark e : Entry}

theorem perform_pop_nil (h : log.worklist = []) : log.perform .pop = (.popped none, log) := by
  rw [perform, h]

theorem perform_pop_cons {rest : List Namespace} (h : log.worklist = space :: rest) :
    log.perform .pop =
      (.popped (some (space, log.members space)), log ++ [.popped space]) := by
  rw [perform, h]

/-! ## One more event -/

@[simp] theorem added_concat (log : Log) (e : Entry) :
    Log.added (log ++ [e]) = log.added ++ (addition? e).toList := by
  cases e <;> simp [Log.added, addition?]

theorem mem_types : t ∈ log.types ↔ t ∈ log.added := List.mem_eraseDups

theorem mem_members : t ∈ log.members space ↔ t ∈ log.added ∧ t.space = space := by
  rw [Log.members, List.mem_filter, mem_types, decide_eq_true_eq]

theorem upTo_concat (mark e : Entry) (log : Log) :
    Log.upTo mark (log ++ [e]) = if e = mark then log ++ [e] else log.upTo mark := by
  by_cases heq : e = mark <;> simp [Log.upTo, heq]

theorem added_upTo_subset (mark : Entry) (log : Log) :
    ∀ t ∈ (log.upTo mark).added, t ∈ log.added := by
  intro t ht
  rw [Log.added, List.mem_filterMap] at ht ⊢
  obtain ⟨e, he, hadd⟩ := ht
  rw [Log.upTo, List.mem_reverse] at he
  exact ⟨e, List.mem_reverse.mp ((List.dropWhile_sublist _).subset he), hadd⟩

/-- Nothing that was added is new since the event that has just come. -/
theorem isNewSince_concat_self (h : t ∈ Log.added (log ++ [mark])) :
    Log.isNewSince mark (log ++ [mark]) t = false := by
  rw [Log.isNewSince, upTo_concat, if_pos rfl]
  exact decide_eq_false (not_not.mpr h)

theorem isNewSince_concat_of_ne (h : e ≠ mark) (t : TypeId) :
    Log.isNewSince mark (log ++ [e]) t = log.isNewSince mark t := by
  rw [Log.isNewSince, upTo_concat, if_neg h, Log.isNewSince]

theorem isNewSince_of_not_mem (h : t ∉ log.added) (mark : Entry) :
    log.isNewSince mark t = true :=
  decide_eq_true fun hmem => h (added_upTo_subset mark log t hmem)

/-- An event that adds no type that was not there leaves the types as they are. -/
theorem types_concat_of_known (h : ∀ t, addition? e = some t → t ∈ log.added) :
    Log.types (log ++ [e]) = log.types := by
  rw [Log.types, added_concat]
  cases hadd : addition? e with
  | none => simp [Log.types]
  | some t => exact Distinct.eraseDups_concat_of_mem (h t hadd)

theorem types_concat_added (h : t ∉ log.added) :
    Log.types (log ++ [.added t]) = log.types ++ [t] := by
  rw [Log.types, added_concat]
  exact Distinct.eraseDups_concat_of_not_mem h

theorem members_concat_of_known (h : ∀ t, addition? e = some t → t ∈ log.added)
    (space : Namespace) : Log.members (log ++ [e]) space = log.members space := by
  rw [Log.members, types_concat_of_known h, Log.members]

theorem namespaces_concat_of_known (h : ∀ t, addition? e = some t → t ∈ log.added) :
    Log.namespaces (log ++ [e]) = log.namespaces := by
  rw [Log.namespaces, added_concat]
  cases hadd : addition? e with
  | none => simp [Log.namespaces]
  | some t =>
      have hspace : t.space ∈ log.added.map (·.space) := List.mem_map_of_mem (h t hadd)
      simpa [Log.namespaces] using Distinct.eraseDups_concat_of_mem hspace

theorem pending_concat_of_known (h : ∀ t, addition? e = some t → t ∈ log.added)
    (hmark : e ≠ .cleared space) : Log.pending (log ++ [e]) space = log.pending space := by
  rw [Log.pending, members_concat_of_known h, Log.pending]
  exact List.filter_congr fun t _ => isNewSince_concat_of_ne hmark t

theorem worklist_concat_of_known (h : ∀ t, addition? e = some t → t ∈ log.added)
    (hmark : ∀ space, e ≠ .popped space) : Log.worklist (log ++ [e]) = log.worklist := by
  have hgains : Log.gains (log ++ [e]) = log.gains := by
    rw [Log.gains, types_concat_of_known h, Log.gains]
    exact List.filter_congr fun t _ => isNewSince_concat_of_ne (hmark t.space) t
  rw [Log.worklist, hgains, Log.worklist]

theorem members_concat_added (h : t ∉ log.added) (space : Namespace) :
    Log.members (log ++ [.added t]) space =
      if t.space = space then log.members space ++ [t] else log.members space := by
  rw [Log.members, types_concat_added h, List.filter_append, ← Log.members]
  split
  next heq => simp [heq]
  next hne => simp [hne]

theorem namespaces_concat_added :
    Log.namespaces (log ++ [.added t]) =
      if t.space ∈ log.namespaces then log.namespaces else log.namespaces ++ [t.space] := by
  have hmem : t.space ∈ log.namespaces ↔ t.space ∈ log.added.map (·.space) := List.mem_eraseDups
  rw [Log.namespaces, added_concat, List.map_append]
  split
  next hold => exact Distinct.eraseDups_concat_of_mem (hmem.mp hold)
  next hnew => exact Distinct.eraseDups_concat_of_not_mem (hmem.not.mp hnew)

theorem pending_concat_added (h : t ∉ log.added) (space : Namespace) :
    Log.pending (log ++ [.added t]) space =
      if t.space = space then log.pending space ++ [t] else log.pending space := by
  have hsame : Log.isNewSince (.cleared space) (log ++ [.added t]) =
      log.isNewSince (.cleared space) :=
    funext fun u => isNewSince_concat_of_ne (by simp) u
  rw [Log.pending, members_concat_added h, hsame]
  split
  next =>
    rw [List.filter_append, List.filter_singleton, isNewSince_of_not_mem h]
    rfl
  next => rfl

theorem worklist_concat_added (h : t ∉ log.added) :
    Log.worklist (log ++ [.added t]) =
      if t.space ∈ log.worklist then log.worklist else log.worklist ++ [t.space] := by
  have hgains : Log.gains (log ++ [.added t]) = log.gains ++ [t] := by
    have hsame : ∀ u : TypeId, Log.isNewSince (.popped u.space) (log ++ [.added t]) u =
        log.isNewSince (.popped u.space) u :=
      fun u => isNewSince_concat_of_ne (by simp) u
    rw [Log.gains, types_concat_added h, List.filter_append, List.filter_singleton]
    simp only [hsame, isNewSince_of_not_mem h, cond_true, Log.gains]
  have hmem : t.space ∈ log.worklist ↔ t.space ∈ log.gains.map (·.space) := List.mem_eraseDups
  rw [Log.worklist, hgains, List.map_append]
  split
  next hold => exact Distinct.eraseDups_concat_of_mem (hmem.mp hold)
  next hnew => exact Distinct.eraseDups_concat_of_not_mem (hmem.not.mp hnew)

theorem pending_concat_cleared (log : Log) (space : Namespace) :
    Log.pending (log ++ [.cleared space]) space = [] := by
  rw [Log.pending, List.filter_eq_nil_iff]
  intro t ht
  rw [isNewSince_concat_self (mem_members.mp ht).1]
  exact Bool.false_ne_true

/-- A pop takes its namespace out of the worklist and leaves the others in their order. -/
theorem worklist_concat_popped (log : Log) (space : Namespace) :
    Log.worklist (log ++ [.popped space]) = log.worklist.filter (· ≠ space) := by
  have hknown : ∀ t, addition? (.popped space) = some t → t ∈ log.added := fun _ h => by cases h
  have hgains : Log.gains (log ++ [.popped space]) = log.gains.filter (·.space ≠ space) := by
    rw [Log.gains, types_concat_of_known hknown, Log.gains, List.filter_filter]
    apply List.filter_congr
    intro t ht
    -- What the namespace has gained is no longer new; for all others the pop is no mark.
    by_cases heq : t.space = space
    · have hadded : t ∈ Log.added (log ++ [.popped space]) := by
        rw [added_concat]
        exact List.mem_append_left _ (mem_types.mp ht)
      rw [heq, isNewSince_concat_self hadded]
      simp
    · rw [isNewSince_concat_of_ne (by simpa using Ne.symm heq)]
      simp [heq]
  rw [Log.worklist, hgains, Log.worklist, ← Distinct.eraseDups_filter, List.filter_map]
  rfl

end Log

end StubTree.Registry
