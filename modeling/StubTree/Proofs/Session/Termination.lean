import StubTree.Proofs.Session.Following

/-! # Enough rounds

Every round takes one namespace from the queue, and only a type that was not registered yet puts
one there. No more types are registered than the library declares, so a run has no more rounds than
the queue is long and the library has types, and a bound above that is never felt.
-/

namespace StubTree

namespace Registry

variable {r r' : Registry} {t : TypeId} {space : Namespace}

theorem length_queue_add_size_le (r : Registry) (t : TypeId) :
    (r.add t).queue.length + r.size ≤ r.queue.length + (r.add t).size := by
  by_cases hmem : t ∈ r.members t.space
  · rw [add_of_mem hmem]
  · rw [queue_add hmem, size_add hmem]
    split
    next => omega
    next =>
      rw [List.length_append, List.length_singleton]
      omega

theorem length_queue_addAll_size_le (r : Registry) (ts : List TypeId) :
    (r.addAll ts).queue.length + r.size ≤ r.queue.length + (r.addAll ts).size := by
  induction ts generalizing r with
  | nil => exact Nat.le_refl _
  | cons t rest ih =>
      have hone := length_queue_add_size_le r t
      have hrest := ih (r.add t)
      change ((r.add t).addAll rest).queue.length + r.size ≤
        r.queue.length + ((r.add t).addAll rest).size
      omega

theorem size_le_size_addAll (r : Registry) (ts : List TypeId) : r.size ≤ (r.addAll ts).size := by
  induction ts generalizing r with
  | nil => exact Nat.le_refl _
  | cons t rest ih =>
      refine Nat.le_trans ?_ (ih (r.add t))
      by_cases hmem : t ∈ r.members t.space
      · rw [add_of_mem hmem]
      · rw [size_add hmem]
        exact Nat.le_succ _

theorem size_of_pop? {members : List TypeId} (h : r.pop? = some ((space, members), r')) :
    r'.size = r.size ∧ r'.queue.length + 1 = r.queue.length := by
  obtain ⟨hqueue, -, hr'⟩ := pop?_eq_some h
  constructor
  · rw [hr']
    rfl
  · rw [hqueue, List.length_cons]

/-- A pop takes one namespace from the queue, and the additions after it put at most one there for
every new type. -/
theorem length_queue_of_pop?_addAll {members : List TypeId}
    (h : r.pop? = some ((space, members), r')) (met : List TypeId) :
    ((r'.clear space).2.addAll met).queue.length + 1 + r.size ≤
      r.queue.length + ((r'.clear space).2.addAll met).size := by
  obtain ⟨hsize, hlength⟩ := size_of_pop? h
  have hmet := length_queue_addAll_size_le (r'.clear space).2 met
  have hqueue : (r'.clear space).2.queue = r'.queue := rfl
  have hcleared : (r'.clear space).2.size = r'.size := rfl
  rw [hqueue, hcleared] at hmet
  omega

/-- The registered types are counted by the size of a registry. -/
theorem Sound.encard_eq_size (h : r.Sound) : {t | r.contains t}.encard = r.size := by
  rw [h.encard_contains h.namespacesNodup fun t ht => h.mem_namespaces_of_contains ht]
  have hentry : ∀ entry ∈ r.found, (r.members entry.1).length = entry.2.length := by
    intro entry hmem
    rw [members, Keyed.get?_of_mem h.namespacesNodup hmem, Option.getD_some]
  rw [size, namespaces, Keyed.keys, Keyed.values, List.map_map, List.map_map]
  exact congrArg (fun counts => ((total counts : Nat) : ℕ∞)) (List.map_congr_left hentry)

theorem Sound.ncard_eq_size (h : r.Sound) : {t | r.contains t}.ncard = r.size := by
  rw [Set.ncard, h.encard_eq_size, ENat.toNat_natCast]

theorem Sound.finite_contains (h : r.Sound) : {t | r.contains t}.Finite :=
  Set.finite_of_encard_eq_coe h.encard_eq_size

end Registry

/-- A library declares no more types than its binaries have declarations. -/
theorem Library.encard_declares_le (lib : Library) :
    {t | ∃ d, lib.Declares t d}.encard ≤ lib.typeCount := by
  let declared : List TypeId := lib.flatMap fun entry =>
    entry.2.manifest.types.map fun d => ⟨d.space, d.name, entry.1⟩
  have hsubset : {t | ∃ d, lib.Declares t d} ⊆ (declared.toFinset : Set TypeId) := by
    rintro t ⟨d, m, hm, hd, hspace, hname⟩
    obtain ⟨links, hget⟩ := exists_get?_of_manifest? hm
    rw [List.coe_toFinset, Set.mem_ofPred_eq, List.mem_flatMap]
    refine ⟨(t.unit, ⟨m, links⟩), Keyed.mem_of_get? hget, List.mem_map.mpr ⟨d, hd, ?_⟩⟩
    rw [hspace, hname]
  have hlength : declared.length = lib.typeCount := by
    simp only [declared, List.length_flatMap, List.length_map]
    rfl
  calc {t | ∃ d, lib.Declares t d}.encard
      ≤ (declared.toFinset : Set TypeId).encard := Set.encard_le_encard hsubset
    _ = declared.toFinset.card := Set.encard_coe_eq_coe_finsetCard _
    _ ≤ declared.length := by exact_mod_cast List.toFinset_card_le declared
    _ = lib.typeCount := by rw [hlength]

namespace Plan

variable {p : Plan} {s s' last : Stage} {seed : TypeId → Prop} {fuel fuel' : Nat}

/-- A round takes one namespace from the queue and puts at most one there for every new type. -/
theorem Round.length_queue_lt (h : p.Round s s') :
    s'.registry.queue.length + 1 + s.registry.size ≤
      s.registry.queue.length + s'.registry.size := by
  cases h with
  | skipped hpop hselect =>
      obtain ⟨hsize, hlength⟩ := Registry.size_of_pop? hpop
      dsimp only
      omega
  | emitted hpop => exact Registry.length_queue_of_pop?_addAll hpop _

theorem Failed.length_queue_lt (h : p.Failed s s') :
    s'.registry.queue.length + 1 + s.registry.size ≤
      s.registry.queue.length + s'.registry.size := by
  cases h with
  | refused hpop =>
      obtain ⟨hsize, hlength⟩ := Registry.size_of_pop? hpop
      dsimp only
      omega
  | unmade hpop =>
      obtain ⟨hsize, hlength⟩ := Registry.size_of_pop? hpop
      dsimp only
      omega
  | unwritten hpop => exact Registry.length_queue_of_pop?_addAll hpop _

theorem Round.size_le (h : p.Round s s') : s.registry.size ≤ s'.registry.size := by
  cases h with
  | skipped hpop hselect => exact (Registry.size_of_pop? hpop).1.ge
  | @emitted e members met registry directory made disk hpop =>
      calc s.registry.size = (registry.clear e.space).2.size := (Registry.size_of_pop? hpop).1.symm
        _ ≤ ((registry.clear e.space).2.addAll met).size := Registry.size_le_size_addAll _ met

theorem Run.size_le (h : p.Run s s') : s.registry.size ≤ s'.registry.size := by
  induction h with
  | refl => exact Nat.le_refl _
  | tail _ hround ih => exact ih.trans hround.size_le

theorem drain_of_queue_eq_nil (h : s.registry.queue = []) (fuel : Nat) :
    p.drain fuel s = (s, none) := by
  cases fuel with
  | zero => rw [drain, Registry.isDrained, h, List.isEmpty_nil, if_pos rfl]
  | succ fuel => rw [drain, round?_eq_none.mpr h]

/-- A run that ends well ends in the same way under every bound that leaves it its rounds. -/
theorem drain_of_drain (h : p.drain fuel s = (last, none))
    (hfuel : s.registry.queue.length + last.registry.size ≤ fuel' + s.registry.size) :
    p.drain fuel' s = (last, none) := by
  induction fuel generalizing s fuel' with
  | zero =>
      obtain ⟨-, hqueue⟩ := drain_eq_none h
      rw [drain, Prod.mk.injEq] at h
      obtain ⟨rfl, -⟩ := h
      exact drain_of_queue_eq_nil hqueue fuel'
  | succ fuel ih =>
      cases hround : p.round? s with
      | none =>
          rw [drain, hround] at h
          cases h
          exact drain_of_queue_eq_nil (round?_eq_none.mp hround) fuel'
      | some outcome =>
          obtain ⟨next, fault⟩ := outcome
          rw [drain, hround] at h
          cases fault with
          | some fault => cases h
          | none =>
              have hlength := (round_of_round? hround).length_queue_lt
              have hgrown := (drain_eq_none h).1.size_le
              obtain ⟨fuel', rfl⟩ : ∃ rest, fuel' = rest + 1 := ⟨fuel' - 1, by omega⟩
              rw [drain, hround]
              exact ih h (by omega)

/-- No more types are registered in a run than the library declares. -/
theorem Following.size_le (h : p.Following seed s) : s.registry.size ≤ p.library.typeCount := by
  have hcount : (s.registry.size : ℕ∞) ≤ p.library.typeCount :=
    calc (s.registry.size : ℕ∞) = {t | s.registry.contains t}.encard := h.sound.encard_eq_size.symm
      _ ≤ {t | ∃ d, p.library.Declares t d}.encard := Set.encard_le_encard h.declared
      _ ≤ p.library.typeCount := p.library.encard_declares_le
  exact_mod_cast hcount

end Plan

end StubTree
