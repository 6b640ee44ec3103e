import Mathlib.Data.List.Nodup
import Mathlib.Data.Set.Card
import StubTree.Proofs.Keyed
import StubTree.Registry

/-! # Laws of the registry

What one operation does to the types, the additions and the queue of a registry, and the
invariant that all of them keep. The queue and its marks are two structures; the invariant says
that they always hold the same namespaces, each once, and that every one of them has types.
-/

namespace StubTree.Registry

variable {r r' : Registry} {t : TypeId} {space : Namespace}

/-! ## One operation -/

@[simp] theorem found_enqueue (r : Registry) (space : Namespace) :
    (r.enqueue space).found = r.found := by
  rw [enqueue]
  split <;> rfl

@[simp] theorem fresh_enqueue (r : Registry) (space : Namespace) :
    (r.enqueue space).fresh = r.fresh := by
  rw [enqueue]
  split <;> rfl

theorem queue_enqueue (r : Registry) (space : Namespace) :
    (r.enqueue space).queue = if space ∈ r.queued then r.queue else r.queue ++ [space] := by
  rw [enqueue]
  split <;> rfl

theorem add_of_mem (h : t ∈ r.members t.space) : r.add t = r := if_pos h

theorem found_add (h : t ∉ r.members t.space) :
    (r.add t).found = r.found.set t.space (r.members t.space ++ [t]) := by
  rw [add, if_neg h, found_enqueue]

theorem fresh_add (h : t ∉ r.members t.space) :
    (r.add t).fresh = r.fresh.set t.space (r.pending t.space ++ [t]) := by
  rw [add, if_neg h, fresh_enqueue]

theorem queue_add (h : t ∉ r.members t.space) :
    (r.add t).queue = if t.space ∈ r.queued then r.queue else r.queue ++ [t.space] := by
  rw [add, if_neg h, queue_enqueue]

theorem members_add_self (h : t ∉ r.members t.space) :
    (r.add t).members t.space = r.members t.space ++ [t] := by
  rw [members, found_add h, Keyed.get?_set_self, Option.getD_some]

theorem members_add_of_ne (h : space ≠ t.space) : (r.add t).members space = r.members space := by
  by_cases hmem : t ∈ r.members t.space
  · rw [add_of_mem hmem]
  · rw [members, found_add hmem, Keyed.get?_set_of_ne h, members]

theorem pending_add_self (h : t ∉ r.members t.space) :
    (r.add t).pending t.space = r.pending t.space ++ [t] := by
  rw [pending, fresh_add h, Keyed.get?_set_self, Option.getD_some]

theorem pending_add_of_ne (h : space ≠ t.space) : (r.add t).pending space = r.pending space := by
  by_cases hmem : t ∈ r.members t.space
  · rw [add_of_mem hmem]
  · rw [pending, fresh_add hmem, Keyed.get?_set_of_ne h, pending]

theorem namespaces_add (h : t ∉ r.members t.space) :
    (r.add t).namespaces =
      if t.space ∈ r.namespaces then r.namespaces else r.namespaces ++ [t.space] := by
  rw [namespaces, found_add h, Keyed.keys_set, namespaces]

theorem size_add (h : t ∉ r.members t.space) : (r.add t).size = r.size + 1 := by
  have hsum := Keyed.total_values_set List.length t.space (r.members t.space ++ [t]) r.found
  have hold : ((r.found.get? t.space).map List.length).getD 0 = (r.members t.space).length := by
    rw [members]
    cases r.found.get? t.space <;> rfl
  rw [hold, List.length_append, List.length_singleton] at hsum
  rw [size, size, found_add h]
  omega

/-- What a pop takes from the queue is its first namespace, with all types it has. -/
theorem pop?_eq_some {types : List TypeId} (h : r.pop? = some ((space, types), r')) :
    r.queue = space :: r'.queue ∧ types = r.members space ∧
      r' = { r with queue := r'.queue, queued := r.queued.erase space } := by
  rw [pop?] at h
  split at h
  · cases h
  next head rest hqueue =>
    cases h
    exact ⟨hqueue, rfl, rfl⟩

theorem pop?_eq_none : r.pop? = none ↔ r.queue = [] := by
  rw [pop?]
  split <;> simp [*]

theorem pop?_of_queue {rest : List Namespace} (h : r.queue = space :: rest) :
    r.pop? = some ((space, r.members space),
      { r with queue := rest, queued := r.queued.erase space }) := by
  rw [pop?, h]

@[simp] theorem members_clear (r : Registry) (space other : Namespace) :
    (r.clear space).2.members other = r.members other := rfl

theorem mem_members_add {u : TypeId} :
    u ∈ (r.add t).members space ↔ u ∈ r.members space ∨ (u = t ∧ t.space = space) := by
  by_cases hspace : space = t.space
  · subst hspace
    by_cases hmem : t ∈ r.members t.space
    · rw [add_of_mem hmem]
      constructor
      · exact Or.inl
      · rintro (h | ⟨rfl, -⟩)
        · exact h
        · exact hmem
    · simp [members_add_self hmem]
  · rw [members_add_of_ne hspace]
    simp [Ne.symm hspace]

theorem mem_namespaces_of_mem_members (h : t ∈ r.members space) : space ∈ r.namespaces := by
  by_contra hnone
  rw [members, Keyed.get?_eq_none_iff.mpr hnone] at h
  cases h

theorem mem_namespaces_add :
    space ∈ (r.add t).namespaces ↔ space ∈ r.namespaces ∨ space = t.space := by
  by_cases hmem : t ∈ r.members t.space
  · rw [add_of_mem hmem]
    constructor
    · exact Or.inl
    · rintro (h | rfl)
      · exact h
      · exact mem_namespaces_of_mem_members hmem
  · rw [namespaces, found_add hmem, Keyed.mem_keys_set, or_comm]
    rfl

/-! ## The invariant -/

/-- What holds of a registry that nothing but its operations has touched. -/
structure Sound (r : Registry) : Prop where
  namespacesNodup : r.namespaces.Nodup
  freshNodup : r.fresh.keys.Nodup
  placed : ∀ space, ∀ t ∈ r.members space, t.space = space
  membersNodup : ∀ space, (r.members space).Nodup
  inhabited : ∀ space, space ∈ r.namespaces ↔ r.members space ≠ []
  queueNodup : r.queue.Nodup
  queued : r.queued.Perm r.queue
  known : ∀ space ∈ r.queue, space ∈ r.namespaces

namespace Sound

theorem empty : Sound {} where
  namespacesNodup := List.nodup_nil
  freshNodup := List.nodup_nil
  placed _ _ h := by cases h
  membersNodup _ := List.nodup_nil
  inhabited _ := by simp [namespaces, members, Keyed.get?]
  queueNodup := List.nodup_nil
  queued := List.Perm.refl _
  known _ h := by cases h

theorem mem_queued (h : r.Sound) : space ∈ r.queued ↔ space ∈ r.queue := h.queued.mem_iff

theorem mem_members_iff (h : r.Sound) :
    t ∈ r.members space ↔ r.contains t ∧ t.space = space := by
  rw [contains, decide_eq_true_iff]
  constructor
  · intro hmem
    have hspace := h.placed space t hmem
    exact ⟨hspace ▸ hmem, hspace⟩
  · rintro ⟨hmem, rfl⟩
    exact hmem

theorem exists_contains_of_mem_namespaces (h : r.Sound) (hspace : space ∈ r.namespaces) :
    ∃ t, r.contains t ∧ t.space = space := by
  obtain ⟨t, ht⟩ := List.exists_mem_of_ne_nil _ ((h.inhabited space).mp hspace)
  exact ⟨t, h.mem_members_iff.mp ht⟩

theorem mem_namespaces_of_contains (h : r.Sound) (ht : r.contains t) :
    t.space ∈ r.namespaces :=
  (h.inhabited t.space).mpr (List.ne_nil_of_mem (h.mem_members_iff.mpr ⟨ht, rfl⟩))

/-- The queue after an addition, in terms of the queue alone. -/
theorem mem_queue_add (h : r.Sound) (hmem : t ∉ r.members t.space) :
    space ∈ (r.add t).queue ↔ space ∈ r.queue ∨ space = t.space := by
  rw [queue_add hmem]
  split
  next hqueued =>
    have hqueue := h.mem_queued.mp hqueued
    exact ⟨Or.inl, fun hor => hor.elim id (fun heq => heq ▸ hqueue)⟩
  next => rw [List.mem_append, List.mem_singleton]

theorem add (h : r.Sound) (t : TypeId) : (r.add t).Sound := by
  by_cases hmem : t ∈ r.members t.space
  · rw [add_of_mem hmem]
    exact h
  refine
    { namespacesNodup := ?_, freshNodup := ?_, placed := ?_, membersNodup := ?_, inhabited := ?_
      queueNodup := ?_, queued := ?_, known := ?_ }
  · rw [namespaces, found_add hmem]
    exact Keyed.nodup_keys_set h.namespacesNodup _ _
  · rw [fresh_add hmem]
    exact Keyed.nodup_keys_set h.freshNodup _ _
  · intro space u hu
    rcases mem_members_add.mp hu with hold | ⟨rfl, hspace⟩
    · exact h.placed space u hold
    · exact hspace
  · intro space
    by_cases hspace : space = t.space
    · subst hspace
      rw [members_add_self hmem]
      exact (List.nodup_append_comm).mp (List.nodup_cons.mpr ⟨hmem, h.membersNodup _⟩)
    · rw [members_add_of_ne hspace]
      exact h.membersNodup space
  · intro space
    rw [mem_namespaces_add]
    by_cases hspace : space = t.space
    · subst hspace
      simp [members_add_self hmem]
    · rw [members_add_of_ne hspace, h.inhabited]
      simp [hspace]
  · rw [queue_add hmem]
    split
    next => exact h.queueNodup
    next hqueued =>
      rw [h.mem_queued] at hqueued
      exact (List.nodup_append_comm).mp (List.nodup_cons.mpr ⟨hqueued, h.queueNodup⟩)
  · rw [Registry.add, if_neg hmem, enqueue]
    split
    next => exact h.queued
    next => exact (h.queued.cons t.space).trans (List.perm_append_singleton _ _).symm
  · intro space hspace
    rw [h.mem_queue_add hmem] at hspace
    exact mem_namespaces_add.mpr (hspace.imp_left (h.known space))

theorem addAll (h : r.Sound) (ts : List TypeId) : (r.addAll ts).Sound := by
  induction ts generalizing r with
  | nil => exact h
  | cons t rest ih => exact ih (h.add t)

theorem pop {types : List TypeId} (h : r.Sound) (hpop : r.pop? = some ((space, types), r')) :
    r'.Sound := by
  obtain ⟨hqueue, -, hr'⟩ := pop?_eq_some hpop
  have hnodup := h.queueNodup
  rw [hqueue, List.nodup_cons] at hnodup
  have hqueued := h.queued.erase space
  rw [hqueue, List.erase_cons_head] at hqueued
  rw [hr']
  exact
    { namespacesNodup := h.namespacesNodup
      freshNodup := h.freshNodup
      placed := h.placed
      membersNodup := h.membersNodup
      inhabited := h.inhabited
      queueNodup := hnodup.2
      queued := hqueued
      known := fun other hother => h.known other (hqueue ▸ List.mem_cons_of_mem _ hother) }

theorem clear (h : r.Sound) (space : Namespace) : (r.clear space).2.Sound :=
  { h with freshNodup := Keyed.nodup_keys_erase h.freshNodup space }

theorem pending_clear_self (h : r.Sound) (space : Namespace) :
    (r.clear space).2.pending space = [] := by
  simp only [pending, Registry.clear, Keyed.get?_erase_self h.freshNodup, Option.getD_none]

/-- The registered types, counted by namespace. -/
theorem encard_contains (h : r.Sound) {spaces : List Namespace} (hnodup : spaces.Nodup)
    (hspaces : ∀ t, r.contains t → t.space ∈ spaces) :
    {t | r.contains t}.encard = total (spaces.map fun space => (r.members space).length) := by
  -- A type stands in one namespace, so none is counted twice.
  have hdistinct : (spaces.flatMap r.members).Nodup := by
    refine List.nodup_flatMap.mpr ⟨fun space _ => h.membersNodup space, hnodup.imp ?_⟩
    intro space other hne t ht ht'
    exact hne ((h.placed space t ht).symm.trans (h.placed other t ht'))
  have hset : {t | r.contains t} = ((spaces.flatMap r.members).toFinset : Set TypeId) := by
    ext t
    rw [List.coe_toFinset, Set.mem_ofPred_eq, Set.mem_ofPred_eq, List.mem_flatMap]
    constructor
    · exact fun ht => ⟨t.space, hspaces t ht, h.mem_members_iff.mpr ⟨ht, rfl⟩⟩
    · rintro ⟨space, -, ht⟩
      exact (h.mem_members_iff.mp ht).1
  rw [hset, Set.encard_coe_eq_coe_finsetCard, List.toFinset_card_of_nodup hdistinct,
    List.length_flatMap]
  rfl

end Sound

theorem pending_clear_of_ne {other : Namespace} (h : other ≠ space) (r : Registry) :
    (r.clear space).2.pending other = r.pending other := by
  simp only [pending, clear, Keyed.get?_erase_of_ne h]

/-! ## Many additions -/

theorem mem_members_addAll {ts : List TypeId} {u : TypeId} :
    u ∈ (r.addAll ts).members space ↔ u ∈ r.members space ∨ (u ∈ ts ∧ u.space = space) := by
  induction ts generalizing r with
  | nil => simp [addAll]
  | cons t rest ih =>
      change u ∈ ((r.add t).addAll rest).members space ↔ _
      rw [ih, mem_members_add, List.mem_cons]
      constructor
      · rintro ((h | ⟨rfl, h⟩) | ⟨h, hspace⟩)
        · exact Or.inl h
        · exact Or.inr ⟨Or.inl rfl, h⟩
        · exact Or.inr ⟨Or.inr h, hspace⟩
      · rintro (h | ⟨rfl | h, hspace⟩)
        · exact Or.inl (Or.inl h)
        · exact Or.inl (Or.inr ⟨rfl, hspace⟩)
        · exact Or.inr ⟨h, hspace⟩

theorem contains_addAll {ts : List TypeId} {u : TypeId} :
    (r.addAll ts).contains u ↔ r.contains u ∨ u ∈ ts := by
  simp only [contains, decide_eq_true_eq, mem_members_addAll, and_true]

theorem mem_namespaces_addAll {ts : List TypeId} :
    space ∈ (r.addAll ts).namespaces ↔ space ∈ r.namespaces ∨ ∃ t ∈ ts, t.space = space := by
  induction ts generalizing r with
  | nil => simp [addAll]
  | cons t rest ih =>
      change space ∈ ((r.add t).addAll rest).namespaces ↔ _
      rw [ih, mem_namespaces_add, List.exists_mem_cons_iff, or_assoc, eq_comm (a := space)]

theorem queue_subset_addAll (h : r.Sound) (ts : List TypeId) :
    space ∈ r.queue → space ∈ (r.addAll ts).queue := by
  induction ts generalizing r with
  | nil => exact id
  | cons t rest ih =>
      intro hqueue
      apply ih (h.add t)
      by_cases hmem : t ∈ r.members t.space
      · rwa [add_of_mem hmem]
      · exact (h.mem_queue_add hmem).mpr (Or.inl hqueue)

/-- A namespace that gains a type is queued. -/
theorem members_addAll_of_not_mem_queue (h : r.Sound) {ts : List TypeId}
    (hqueue : space ∉ (r.addAll ts).queue) : (r.addAll ts).members space = r.members space := by
  induction ts generalizing r with
  | nil => rfl
  | cons t rest ih =>
      change ((r.add t).addAll rest).members space = _
      rw [ih (h.add t) hqueue]
      by_cases hspace : space = t.space
      · have hmem : t ∈ r.members t.space := by
          by_contra hmem
          apply hqueue
          exact queue_subset_addAll (h.add t) rest ((h.mem_queue_add hmem).mpr (Or.inr hspace))
        rw [add_of_mem hmem]
      · exact members_add_of_ne hspace

end StubTree.Registry
