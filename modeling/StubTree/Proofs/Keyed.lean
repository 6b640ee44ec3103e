import StubTree.Keyed
import StubTree.Total

/-! # Looking up keyed values

Laws of keyed values under setting, erasing, appending, filtering and updating. Look-up always finds
the first entry of a key, so what is appended behind a key leaves its value alone.
-/

namespace StubTree.Keyed

variable {κ α : Type}

@[simp] theorem keys_nil : keys ([] : Keyed κ α) = [] := rfl

@[simp] theorem keys_cons (entry : κ × α) (m : Keyed κ α) :
    keys (entry :: m) = entry.1 :: keys m := rfl

@[simp] theorem keys_append (m n : Keyed κ α) : keys (m ++ n) = keys m ++ keys n :=
  List.map_append

theorem keys_map {β : Type} (f : α → β) (m : Keyed κ α) :
    keys (m.map fun entry => (entry.1, f entry.2)) = keys m :=
  List.map_map

theorem keys_filterMap (l : List κ) (f : κ → Option α) :
    keys (l.filterMap fun k => (f k).map (k, ·)) = l.filter fun k => (f k).isSome := by
  induction l with
  | nil => rfl
  | cons k rest ih =>
      cases hf : f k with
      | none => simpa [hf] using ih
      | some value => simpa [hf] using ih

theorem mem_keys_of_mem {m : Keyed κ α} {key : κ} {value : α} (h : (key, value) ∈ m) :
    key ∈ keys m :=
  List.mem_map.mpr ⟨_, h, rfl⟩

variable [DecidableEq κ]

theorem get?_cons (entry : κ × α) (m : Keyed κ α) (key : κ) :
    get? key (entry :: m) = if entry.1 = key then some entry.2 else get? key m := rfl

theorem get?_eq_none_iff {m : Keyed κ α} {key : κ} : get? key m = none ↔ key ∉ keys m := by
  induction m with
  | nil => simp [get?]
  | cons entry rest ih =>
      rw [get?_cons, keys_cons, List.mem_cons, not_or]
      split
      next heq => simp [heq]
      next hne => exact ih.trans ⟨fun h => ⟨Ne.symm hne, h⟩, And.right⟩

theorem exists_get?_of_mem_keys {m : Keyed κ α} {key : κ} (h : key ∈ keys m) :
    ∃ value, get? key m = some value := by
  cases hget : get? key m with
  | none => exact absurd h (get?_eq_none_iff.mp hget)
  | some value => exact ⟨value, rfl⟩

theorem mem_of_get? {m : Keyed κ α} {key : κ} {value : α} (h : get? key m = some value) :
    (key, value) ∈ m := by
  induction m with
  | nil => cases h
  | cons entry rest ih =>
      rw [get?_cons] at h
      split at h
      next heq =>
        cases h
        subst heq
        exact List.mem_cons_self
      next => exact List.mem_cons_of_mem _ (ih h)

theorem mem_keys_of_get? {m : Keyed κ α} {key : κ} {value : α} (h : get? key m = some value) :
    key ∈ keys m :=
  mem_keys_of_mem (mem_of_get? h)

/-- Where no key comes twice, look-up finds every entry. -/
theorem get?_of_mem {m : Keyed κ α} (hnodup : (keys m).Nodup) {key : κ} {value : α}
    (h : (key, value) ∈ m) : get? key m = some value := by
  induction m with
  | nil => cases h
  | cons entry rest ih =>
      rw [keys_cons, List.nodup_cons] at hnodup
      obtain ⟨hfresh, hrest⟩ := hnodup
      rw [get?_cons]
      rcases List.mem_cons.mp h with rfl | htail
      · simp
      · have hne : entry.1 ≠ key := fun heq => hfresh (heq ▸ mem_keys_of_mem htail)
        rw [if_neg hne]
        exact ih hrest htail

/-- Keyed values are known by their keys and what look-up finds, where no key comes twice. -/
theorem ext_get? {m n : Keyed κ α} (hkeys : keys m = keys n) (hnodup : (keys m).Nodup)
    (h : ∀ key ∈ keys m, get? key m = get? key n) : m = n := by
  induction m generalizing n with
  | nil => exact (List.map_eq_nil_iff.mp hkeys.symm).symm
  | cons entry rest ih =>
      cases n with
      | nil => cases hkeys
      | cons other more =>
          obtain ⟨key, value⟩ := entry
          obtain ⟨key', value'⟩ := other
          rw [keys_cons, keys_cons, List.cons.injEq] at hkeys
          obtain ⟨rfl, hkeys⟩ := hkeys
          rw [keys_cons, List.nodup_cons] at hnodup
          have hvalue := h key List.mem_cons_self
          rw [get?_cons, get?_cons, if_pos rfl, if_pos rfl, Option.some.injEq] at hvalue
          obtain rfl : value = value' := hvalue
          refine congrArg _ (ih hkeys hnodup.2 ?_)
          intro other hother
          have hne : key ≠ other := fun heq => hnodup.1 (heq ▸ hother)
          have hlater := h other (List.mem_cons_of_mem _ hother)
          rwa [get?_cons, get?_cons, if_neg hne, if_neg hne] at hlater

theorem get?_append (m n : Keyed κ α) (key : κ) :
    get? key (m ++ n) = (get? key m).or (get? key n) := by
  induction m with
  | nil => rfl
  | cons entry rest ih =>
      rw [List.cons_append, get?_cons, get?_cons]
      split
      next => rfl
      next => exact ih

theorem get?_append_of_mem {m : Keyed κ α} {key : κ} (h : key ∈ keys m) (n : Keyed κ α) :
    get? key (m ++ n) = get? key m := by
  obtain ⟨value, hvalue⟩ := exists_get?_of_mem_keys h
  rw [get?_append, hvalue, Option.some_or]

theorem get?_append_of_not_mem {m : Keyed κ α} {key : κ} (h : key ∉ keys m) (n : Keyed κ α) :
    get? key (m ++ n) = get? key n := by
  rw [get?_append, get?_eq_none_iff.mpr h, Option.none_or]

theorem set_append_of_not_mem {m : Keyed κ α} {key : κ} (h : key ∉ keys m) (value : α)
    (n : Keyed κ α) : set key value (m ++ n) = m ++ set key value n := by
  induction m with
  | nil => rfl
  | cons entry rest ih =>
      rw [keys_cons, List.mem_cons, not_or] at h
      simp only [List.cons_append, set, if_neg (Ne.symm h.1), ih h.2]

theorem set_of_not_mem {m : Keyed κ α} {key : κ} (h : key ∉ keys m) (value : α) :
    set key value m = m ++ [(key, value)] := by
  simpa only [List.append_nil, set] using set_append_of_not_mem h value []

theorem keys_set (key : κ) (value : α) (m : Keyed κ α) :
    keys (set key value m) = if key ∈ keys m then keys m else keys m ++ [key] := by
  induction m with
  | nil => rfl
  | cons entry rest ih =>
      by_cases heq : entry.1 = key
      · simp [set, heq]
      · simp only [set, if_neg heq, keys_cons, ih, List.mem_cons, Ne.symm heq, false_or]
        split <;> rfl

theorem nodup_keys_set {m : Keyed κ α} (h : (keys m).Nodup) (key : κ) (value : α) :
    (keys (set key value m)).Nodup := by
  rw [keys_set]
  split
  next => exact h
  next hfresh =>
    rw [List.nodup_append]
    refine ⟨h, by simp, ?_⟩
    intro other hother last hlast heq
    rw [List.mem_singleton.mp hlast] at heq
    exact hfresh (heq ▸ hother)

theorem erase_sublist (key : κ) (m : Keyed κ α) : (erase key m).Sublist m := by
  induction m with
  | nil => exact List.Sublist.refl _
  | cons entry rest ih =>
      rw [erase]
      split
      next => exact List.sublist_cons_self _ _
      next => exact ih.cons_cons _

theorem nodup_keys_erase {m : Keyed κ α} (h : (keys m).Nodup) (key : κ) :
    (keys (erase key m)).Nodup :=
  h.sublist ((erase_sublist key m).map _)

theorem get?_erase_self {m : Keyed κ α} (h : (keys m).Nodup) (key : κ) :
    get? key (erase key m) = none := by
  induction m with
  | nil => rfl
  | cons entry rest ih =>
      rw [keys_cons, List.nodup_cons] at h
      obtain ⟨hfresh, hrest⟩ := h
      rw [erase]
      split
      next heq =>
        rw [heq] at hfresh
        exact get?_eq_none_iff.mpr hfresh
      next hne =>
        rw [get?_cons, if_neg hne]
        exact ih hrest

theorem get?_erase_of_ne {key other : κ} (h : other ≠ key) (m : Keyed κ α) :
    get? other (erase key m) = get? other m := by
  induction m with
  | nil => rfl
  | cons entry rest ih =>
      rw [erase]
      split
      next heq => rw [get?_cons, if_neg (fun hother => h (hother.symm.trans heq))]
      next =>
        rw [get?_cons, get?_cons]
        split
        next => rfl
        next => exact ih

/-! ## Look-up behind other changes -/

theorem get?_map {β : Type} (f : α → β) (m : Keyed κ α) (key : κ) :
    get? key (m.map fun entry => (entry.1, f entry.2)) = (get? key m).map f := by
  induction m with
  | nil => rfl
  | cons entry rest ih =>
      rw [List.map_cons, get?_cons, get?_cons, ih]
      split <;> rfl

theorem get?_filter_key (p : κ → Bool) (m : Keyed κ α) (key : κ) :
    get? key (m.filter fun entry => p entry.1) = if p key then get? key m else none := by
  induction m with
  | nil => simp [get?]
  | cons entry rest ih =>
      rw [List.filter_cons, get?_cons]
      by_cases heq : entry.1 = key
      · subst heq
        cases hp : p entry.1 with
        | true => simp [get?_cons]
        | false => simpa [hp] using ih
      · rw [if_neg heq, ← ih]
        split
        next => rw [get?_cons, if_neg heq]
        next => rfl

theorem get?_filter_value {m : Keyed κ α} (hnodup : (keys m).Nodup) (p : α → Bool) (key : κ) :
    get? key (m.filter fun entry => p entry.2) = (get? key m).filter p := by
  induction m with
  | nil => rfl
  | cons entry rest ih =>
      rw [keys_cons, List.nodup_cons] at hnodup
      rw [List.filter_cons, get?_cons]
      by_cases heq : entry.1 = key
      · subst heq
        have hnone : get? entry.1 (rest.filter fun entry => p entry.2) = none := by
          rw [ih hnodup.2, get?_eq_none_iff.mpr hnodup.1]
          rfl
        cases hp : p entry.2 with
        | true => simp [get?_cons, Option.filter, hp]
        | false => simp [hnone, Option.filter, hp]
      · rw [if_neg heq, ← ih hnodup.2]
        split
        next => rw [get?_cons, if_neg heq]
        next => rfl

/-- Keys that have a value, in an order of one's own. -/
theorem get?_filterMap (l : List κ) (f : κ → Option α) (key : κ) :
    get? key (l.filterMap fun k => (f k).map (k, ·)) = if key ∈ l then f key else none := by
  induction l with
  | nil => rfl
  | cons k rest ih =>
      by_cases heq : k = key
      · subst heq
        cases hf : f k with
        | none => simp [hf, ih]
        | some value => simp [hf, get?_cons]
      · cases hf : f k with
        | none => simp [hf, ih, Ne.symm heq]
        | some value => simp [hf, get?_cons, heq, ih, Ne.symm heq]

/-- Where no key comes twice, keyed values are made up of their keys and what look-up finds. -/
theorem eq_filterMap_get? {m : Keyed κ α} (hnodup : (keys m).Nodup) :
    m = (keys m).filterMap fun key => (get? key m).map (key, ·) := by
  refine ext_get? ?_ hnodup fun key hkey => ?_
  · rw [keys_filterMap, eq_comm, List.filter_eq_self]
    intro key hkey
    obtain ⟨value, hvalue⟩ := exists_get?_of_mem_keys hkey
    rw [hvalue, Option.isSome_some]
  · rw [get?_filterMap, if_pos hkey]

/-- A measure of the values counts the new value of a key in place of the old one. -/
theorem total_values_set (measure : α → Nat) (key : κ) (value : α) (m : Keyed κ α) :
    total ((values (set key value m)).map measure) + ((get? key m).map measure).getD 0
      = total ((values m).map measure) + measure value := by
  induction m with
  | nil => simp [set, values, get?]
  | cons entry rest ih =>
      simp only [values] at ih
      by_cases heq : entry.1 = key
      · simp only [set, if_pos heq, values, List.map_cons, total_cons, get?_cons,
          Option.map_some, Option.getD_some]
        omega
      · simp only [set, if_neg heq, values, List.map_cons, total_cons, get?_cons]
        omega

/-! ## Values in place of others -/

section

variable {m updates : Keyed κ α} {key : κ}

/-- Values with others in their place. A key that is there keeps its place, and a new one comes
last. -/
def update (m updates : Keyed κ α) : Keyed κ α :=
  updates.foldl (fun m entry => set entry.1 entry.2 m) m

theorem nodup_keys_update (h : (keys m).Nodup) (updates : Keyed κ α) :
    (keys (update m updates)).Nodup := by
  induction updates generalizing m with
  | nil => exact h
  | cons entry rest ih => exact ih (nodup_keys_set h entry.1 entry.2)

theorem get?_update (hnodup : (keys updates).Nodup) (m : Keyed κ α) (key : κ) :
    get? key (update m updates) = (get? key updates).or (get? key m) := by
  induction updates generalizing m with
  | nil => rfl
  | cons entry rest ih =>
      rw [keys_cons, List.nodup_cons] at hnodup
      rw [update, List.foldl_cons, ← update, ih hnodup.2, get?_cons]
      by_cases heq : entry.1 = key
      · subst heq
        rw [get?_eq_none_iff.mpr hnodup.1, get?_set_self, if_pos rfl]
        rfl
      · rw [get?_set_of_ne (Ne.symm heq), if_neg heq]

theorem mem_keys_update : key ∈ keys (update m updates) ↔ key ∈ keys m ∨ key ∈ keys updates := by
  induction updates generalizing m with
  | nil => simp [update]
  | cons entry rest ih =>
      rw [update, List.foldl_cons, ← update, ih, mem_keys_set, keys_cons, List.mem_cons, or_assoc,
        or_left_comm]

theorem get?_update_eq_some {value : α} (h : get? key (update m updates) = some value) :
    get? key m = some value ∨ (key, value) ∈ updates := by
  induction updates generalizing m with
  | nil => exact Or.inl h
  | cons entry rest ih =>
      rw [update, List.foldl_cons, ← update] at h
      rcases ih h with hset | hlater
      · by_cases heq : key = entry.1
        · subst heq
          rw [get?_set_self, Option.some.injEq] at hset
          subst hset
          exact Or.inr List.mem_cons_self
        · rw [get?_set_of_ne heq] at hset
          exact Or.inl hset
      · exact Or.inr (List.mem_cons_of_mem _ hlater)

theorem set_eq_map (hnodup : (keys m).Nodup) (hkey : key ∈ keys m) (value : α) :
    set key value m = m.map fun entry => (entry.1, if entry.1 = key then value else entry.2) := by
  induction m with
  | nil => cases hkey
  | cons entry rest ih =>
      obtain ⟨k, v⟩ := entry
      rw [keys_cons, List.nodup_cons] at hnodup
      by_cases heq : k = key
      · subst heq
        have hrest : rest.map (fun entry => (entry.1, if entry.1 = k then value else entry.2)) =
            rest := by
          refine Eq.trans (List.map_congr_left fun entry hentry => ?_) (List.map_id rest)
          have hne : entry.1 ≠ k := by
            rintro rfl
            exact hnodup.1 (mem_keys_of_mem hentry)
          simp [hne]
        rw [List.map_cons, hrest]
        simp [set]
      · have hlater : key ∈ keys rest := (List.mem_cons.mp hkey).resolve_left (Ne.symm heq)
        simp only [set, if_neg heq, List.map_cons, ih hnodup.2 hlater]

/-- The order of values with others in their place. -/
theorem update_eq (hnodup : (keys m).Nodup) (hupdates : (keys updates).Nodup) :
    update m updates =
      (m.map fun entry => (entry.1, (get? entry.1 updates).getD entry.2)) ++
        updates.filter fun entry => decide (entry.1 ∉ keys m) := by
  induction updates generalizing m with
  | nil => simp [update, get?]
  | cons entry rest ih =>
      obtain ⟨k, v⟩ := entry
      rw [keys_cons, List.nodup_cons] at hupdates
      have hfresh : get? k rest = none := get?_eq_none_iff.mpr hupdates.1
      rw [update, List.foldl_cons, ← update, ih (nodup_keys_set hnodup k v) hupdates.2]
      by_cases hkey : k ∈ keys m
      · rw [List.filter_cons_of_neg (by simpa using hkey), keys_set, if_pos hkey,
          set_eq_map hnodup hkey, List.map_map]
        refine congrArg (· ++ _) (List.map_congr_left fun entry _ => ?_)
        by_cases heq : entry.1 = k
        · simp [get?_cons, heq, hfresh]
        · simp [get?_cons, heq, Ne.symm heq]
      · rw [List.filter_cons_of_pos (by simpa using hkey), keys_set, if_neg hkey,
          set_of_not_mem hkey, List.map_append, List.append_assoc]
        have hold : m.map (fun entry => (entry.1, (get? entry.1 rest).getD entry.2)) =
            m.map fun entry => (entry.1, (get? entry.1 ((k, v) :: rest)).getD entry.2) := by
          refine List.map_congr_left fun entry hentry => ?_
          have hne : k ≠ entry.1 := by
            rintro rfl
            exact hkey (mem_keys_of_mem hentry)
          rw [get?_cons, if_neg hne]
        have hnew : rest.filter (fun entry => decide (entry.1 ∉ keys m ++ [k])) =
            rest.filter fun entry => decide (entry.1 ∉ keys m) := by
          refine List.filter_congr fun entry hentry => ?_
          have hne : entry.1 ≠ k := by
            rintro rfl
            exact hupdates.1 (mem_keys_of_mem hentry)
          simp [hne]
        rw [hold, hnew]
        simp [hfresh]

end

end StubTree.Keyed
