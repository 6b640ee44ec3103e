import StubTree.Proofs.Registry.Log

/-! # The registry shows what its log shows

Whatever the order of additions, pops, clears and resets, a registry answers as the log of its
events does and shows the same types, additions and worklist afterwards. A pop always finds the
types of its namespace, and what clears of a namespace handed over, together with what is
pending, is its types, each once.
-/

namespace StubTree.Registry

/-- Performs an operation on a registry. -/
def perform (r : Registry) : Action → Answer × Registry
  | .add t => (.added (!r.contains t), r.add t)
  | .pop =>
    match r.pop? with
    | none => (.popped none, r)
    | some (head, rest) => (.popped (some head), rest)
  | .clear space => (.cleared (r.clear space).1, (r.clear space).2)
  | .reset => (.forgotten, {})

/-- The answers to operations one after the other, and the state they lead to. -/
def replay {σ : Type} (step : σ → Action → Answer × σ) : σ → List Action → List Answer × σ
  | s, [] => ([], s)
  | s, action :: rest =>
    ((step s action).1 :: (replay step (step s action).2 rest).1,
      (replay step (step s action).2 rest).2)

/-- The lists of types that clears of a namespace handed over, after those in `before`. A reset
starts anew. -/
def handedOver (space : Namespace) (before : List (List TypeId)) :
    List (Action × Answer) → List (List TypeId)
  | [] => before
  | (.reset, _) :: rest => handedOver space [] rest
  | (.clear other, .cleared types) :: rest =>
    handedOver space (if other = space then before ++ [types] else before) rest
  | _ :: rest => handedOver space before rest

theorem perform_pop_none {r : Registry} (h : r.pop? = none) :
    r.perform .pop = (.popped none, r) := by
  rw [perform, h]

theorem perform_pop_some {r r' : Registry} {head : Namespace × List TypeId}
    (h : r.pop? = some (head, r')) : r.perform .pop = (.popped (some head), r') := by
  rw [perform, h]

/-- A registry and a log that look the same from outside. -/
structure Shows (r : Registry) (log : Log) : Prop where
  members : ∀ space, r.members space = log.members space
  pending : ∀ space, r.pending space = log.pending space
  namespaces : r.namespaces = log.namespaces
  size : r.size = log.types.length
  queue : r.queue = log.worklist

namespace Shows

variable {r r' : Registry} {log : Log} {t : TypeId} {space : Namespace}

theorem empty : Shows {} [] where
  members _ := rfl
  pending _ := rfl
  namespaces := rfl
  size := rfl
  queue := rfl

theorem mem_members_iff (h : Shows r log) : t ∈ r.members t.space ↔ t ∈ log.added := by
  rw [h.members, Log.mem_members, and_iff_left rfl]

theorem contains (h : Shows r log) (t : TypeId) : r.contains t = decide (t ∈ log.added) :=
  decide_eq_decide.mpr h.mem_members_iff

/-- Adding a type that is there changes the log, but nothing of what it shows. -/
theorem add_of_mem (h : Shows r log) (hmem : t ∈ r.members t.space) :
    Shows (r.add t) (log ++ [.added t]) := by
  have hknown : ∀ u, Log.addition? (.added t) = some u → u ∈ log.added := by
    rintro u ⟨⟩
    exact h.mem_members_iff.mp hmem
  rw [Registry.add_of_mem hmem]
  exact
    { members := fun space =>
        (h.members space).trans (Log.members_concat_of_known hknown space).symm
      pending := fun space =>
        (h.pending space).trans (Log.pending_concat_of_known hknown (by simp)).symm
      namespaces := h.namespaces.trans (Log.namespaces_concat_of_known hknown).symm
      size := by rw [h.size, Log.types_concat_of_known hknown]
      queue := h.queue.trans (Log.worklist_concat_of_known hknown (by simp)).symm }

theorem add_of_not_mem (h : Shows r log) (hr : r.Sound) (hmem : t ∉ r.members t.space) :
    Shows (r.add t) (log ++ [.added t]) := by
  have hnew : t ∉ log.added := h.mem_members_iff.not.mp hmem
  refine { members := ?_, pending := ?_, namespaces := ?_, size := ?_, queue := ?_ }
  · intro space
    rw [Log.members_concat_added hnew, ← h.members]
    split
    next heq => rw [← heq, members_add_self hmem]
    next hne => exact members_add_of_ne (Ne.symm hne)
  · intro space
    rw [Log.pending_concat_added hnew, ← h.pending]
    split
    next heq => rw [← heq, pending_add_self hmem]
    next hne => exact pending_add_of_ne (Ne.symm hne)
  · rw [namespaces_add hmem, Log.namespaces_concat_added, h.namespaces]
  · rw [size_add hmem, h.size, Log.types_concat_added hnew, List.length_append,
      List.length_singleton]
  · simp only [queue_add hmem, Log.worklist_concat_added hnew, hr.mem_queued, h.queue]

theorem pop {types : List TypeId} (h : Shows r log) (hr : r.Sound)
    (hpop : r.pop? = some ((space, types), r')) : Shows r' (log ++ [.popped space]) := by
  obtain ⟨hqueue, -, hr'⟩ := pop?_eq_some hpop
  have hknown : ∀ t, Log.addition? (.popped space) = some t → t ∈ log.added := fun _ h => by cases h
  have hnodup := hr.queueNodup
  rw [hqueue, List.nodup_cons] at hnodup
  -- Every namespace waits once, so leaving the popped one out leaves the rest of the queue.
  have hrest : (space :: r'.queue).filter (· ≠ space) = r'.queue := by
    rw [List.filter_cons_of_neg (by simp), List.filter_eq_self]
    intro other hother
    exact decide_eq_true fun heq => hnodup.1 (heq ▸ hother)
  rw [hr']
  exact
    { members := fun other =>
        (h.members other).trans (Log.members_concat_of_known hknown other).symm
      pending := fun other =>
        (h.pending other).trans (Log.pending_concat_of_known hknown (by simp)).symm
      namespaces := h.namespaces.trans (Log.namespaces_concat_of_known hknown).symm
      size := by
        rw [Log.types_concat_of_known hknown, ← h.size]
        rfl
      queue := by rw [Log.worklist_concat_popped, ← h.queue, hqueue, hrest] }

theorem clear (h : Shows r log) (hr : r.Sound) (space : Namespace) :
    Shows (r.clear space).2 (log ++ [.cleared space]) := by
  have hknown : ∀ t, Log.addition? (.cleared space) = some t → t ∈ log.added :=
    fun _ h => by cases h
  refine
    { members := fun other =>
        (h.members other).trans (Log.members_concat_of_known hknown other).symm
      pending := ?_
      namespaces := h.namespaces.trans (Log.namespaces_concat_of_known hknown).symm
      size := ?_
      queue := h.queue.trans (Log.worklist_concat_of_known hknown (by simp)).symm }
  · intro other
    by_cases heq : other = space
    · rw [heq, hr.pending_clear_self, Log.pending_concat_cleared]
    · rw [pending_clear_of_ne heq, h.pending,
        Log.pending_concat_of_known hknown (by simpa using Ne.symm heq)]
  · rw [Log.types_concat_of_known hknown, ← h.size]
    rfl

/-- One operation: registry and log answer alike and go on to look the same. -/
theorem perform (h : Shows r log) (hr : r.Sound) (action : Action) :
    (r.perform action).1 = (log.perform action).1 ∧
      Shows (r.perform action).2 (log.perform action).2 ∧ (r.perform action).2.Sound := by
  cases action with
  | add t =>
      refine ⟨?_, ?_, hr.add t⟩
      · simp [Registry.perform, Log.perform, h.contains]
      · by_cases hmem : t ∈ r.members t.space
        · exact h.add_of_mem hmem
        · exact h.add_of_not_mem hr hmem
  | pop =>
      cases hqueue : r.queue with
      | nil =>
          have hpop : r.pop? = none := pop?_eq_none.mpr hqueue
          rw [perform_pop_none hpop, Log.perform_pop_nil (h.queue ▸ hqueue)]
          exact ⟨rfl, h, hr⟩
      | cons space rest =>
          have hpop := pop?_of_queue hqueue
          rw [perform_pop_some hpop, Log.perform_pop_cons (h.queue ▸ hqueue), ← h.members]
          exact ⟨rfl, h.pop hr hpop, hr.pop hpop⟩
  | clear space =>
      exact ⟨congrArg Answer.cleared (h.pending space), h.clear hr space, hr.clear space⟩
  | reset => exact ⟨rfl, Shows.empty, Sound.empty⟩

/-- A run of operations, from the law of one. -/
theorem replay (h : Shows r log) (hr : r.Sound) (actions : List Action) :
    (replay Registry.perform r actions).1 = (Registry.replay Log.perform log actions).1 ∧
      Shows (Registry.replay Registry.perform r actions).2
        (Registry.replay Log.perform log actions).2 ∧
      (Registry.replay Registry.perform r actions).2.Sound := by
  induction actions generalizing r log with
  | nil => exact ⟨rfl, h, hr⟩
  | cons action rest ih =>
      obtain ⟨hanswer, hshows, hsound⟩ := h.perform hr action
      obtain ⟨hanswers, hlast⟩ := ih hshows hsound
      exact ⟨congrArg₂ List.cons hanswer hanswers, hlast⟩

end Shows

/-- Every type of a namespace was either handed over by one clear or is still pending. -/
theorem handedOver_append_pending {r : Registry} (hr : r.Sound) (space : Namespace)
    (actions : List Action) {before : List (List TypeId)}
    (hbefore : before.flatten ++ r.pending space = r.members space) :
    (handedOver space before (actions.zip (replay perform r actions).1)).flatten
        ++ (replay perform r actions).2.pending space
      = (replay perform r actions).2.members space := by
  induction actions generalizing r before with
  | nil => exact hbefore
  | cons action rest ih =>
      cases action with
      | add t =>
          apply ih (hr.add t)
          by_cases hmem : t ∈ r.members t.space
          · simpa only [perform, add_of_mem hmem] using hbefore
          · by_cases hspace : space = t.space
            · subst hspace
              simp only [pending_add_self hmem, members_add_self hmem, ← hbefore,
                List.append_assoc]
            · simpa only [perform, pending_add_of_ne hspace, members_add_of_ne hspace] using hbefore
      | pop =>
          cases hpop : r.pop? with
          | none =>
              rw [replay, perform_pop_none hpop]
              exact ih hr hbefore
          | some popped =>
              obtain ⟨⟨head, types⟩, r'⟩ := popped
              obtain ⟨-, -, hr'⟩ := pop?_eq_some hpop
              rw [replay, perform_pop_some hpop]
              apply ih (hr.pop hpop)
              rw [hr']
              exact hbefore
      | clear other =>
          apply ih (hr.clear other)
          by_cases hspace : other = space
          · subst hspace
            simp only [if_true, hr.pending_clear_self, List.append_nil,
              List.flatten_append, List.flatten_singleton]
            exact hbefore
          · simpa only [perform, if_neg hspace, pending_clear_of_ne (Ne.symm hspace),
              members_clear] using hbefore
      | reset => exact ih Sound.empty rfl

/-- A namespace in the queue has types, so a pop finds them. -/
theorem Sound.exists_found {r : Registry} (hr : r.Sound) {space : Namespace}
    (hqueue : space ∈ r.queue) :
    ∃ types, r.found.get? space = some types ∧ types = r.members space ∧ types ≠ [] := by
  obtain ⟨types, htypes⟩ := Keyed.exists_get?_of_mem_keys (hr.known space hqueue)
  have hmembers : types = r.members space := by rw [members, htypes, Option.getD_some]
  exact ⟨types, htypes, hmembers, hmembers ▸ (hr.inhabited space).mp (hr.known space hqueue)⟩

/-- Any operations on an empty registry are answered as by the log of their events, and the
registry they lead to shows what that log shows: the types of each namespace, the namespaces,
the number of types, the types pending, and the worklist. Every namespace waits once and its
types are there to be popped; and what the clears of a namespace handed over since the last
reset, together with what is pending, is its types, each exactly once. -/
theorem replay_perform_eq_log (actions : List Action) :
    (replay perform {} actions).1 = (replay Log.perform [] actions).1 ∧
      Shows (replay perform {} actions).2 (replay Log.perform [] actions).2 ∧
      (∀ t, (replay perform {} actions).2.contains t =
        decide (t ∈ Log.added (replay Log.perform [] actions).2)) ∧
      (replay perform {} actions).2.queue.Nodup ∧
      (∀ space ∈ (replay perform {} actions).2.queue, ∃ types,
        (replay perform {} actions).2.found.get? space = some types ∧
          types = (replay perform {} actions).2.members space ∧ types ≠ []) ∧
      ∀ space,
        (handedOver space [] (actions.zip (replay perform {} actions).1)).flatten
            ++ (replay perform {} actions).2.pending space
          = (replay perform {} actions).2.members space ∧
        ((replay perform {} actions).2.members space).Nodup := by
  obtain ⟨hanswers, hshows, hsound⟩ := Shows.empty.replay Sound.empty actions
  refine ⟨hanswers, hshows, hshows.contains, hsound.queueNodup, ?_, ?_⟩
  · intro space hqueue
    exact hsound.exists_found hqueue
  · intro space
    exact ⟨handedOver_append_pending Sound.empty space actions rfl, hsound.membersNodup space⟩

end StubTree.Registry
