import StubTree.Proofs.Options.Settings

/-! # Merging options

Merging gives every name the last value that holds something. So overrides one after the other do
what they do at once, the later before the earlier. As every check takes what it has stored, to
merge overrides is also to make options anew from all stored values with the overrides in their
place.
-/

namespace StubTree.Options

open Readable (shape)

variable {α : Type} {o o' o₁ : Options} {name : String} {given overrides x y : Keyed String α}

theorem value?_eq_none_iff : o.value? name = none ↔ name ∉ names :=
  Keyed.get?_eq_none_iff

theorem refuseOwnWord_of_not_mem (howner : ownWord ∉ overrides.keys) :
    refuseOwnWord overrides = .ok () :=
  if_neg fun h => howner (List.contains_iff_mem.mp h)

theorem not_mem_of_refuseOwnWord {u : Unit} (h : refuseOwnWord overrides = .ok u) :
    ownWord ∉ overrides.keys := by
  intro howner
  rw [refuseOwnWord, if_pos (List.contains_iff_mem.mpr howner)] at h
  cases h

/-! ## The order of setting -/

/-- Values in the order in which they are set: those of options first, in their own order. -/
def arranged (given : Keyed String α) : Keyed String α :=
  (names.filterMap fun name => (Keyed.get? name given).map (name, ·)) ++
    given.filter fun entry => !names.contains entry.1

theorem get?_arranged (given : Keyed String α) (name : String) :
    Keyed.get? name (arranged given) = Keyed.get? name given := by
  rw [arranged, Keyed.get?_append, Keyed.get?_filterMap,
    Keyed.get?_filter_key fun key => !names.contains key]
  by_cases hname : name ∈ names <;> simp [hname]

theorem nodup_keys_arranged (hnodup : given.keys.Nodup) : (arranged given).keys.Nodup := by
  rw [arranged, Keyed.keys_append, Keyed.keys_filterMap, List.nodup_append]
  refine ⟨nodup_names.filter _, hnodup.sublist (List.filter_sublist.map _), ?_⟩
  rintro name hknown _ hother rfl
  obtain ⟨entry, hentry, rfl⟩ := List.mem_map.mp hother
  have hunknown := (List.mem_filter.mp hentry).2
  simp [(List.mem_filter.mp hknown).1] at hunknown

/-! ## What overrides give -/

variable [Readable α]

/-- The overrides that hold something. -/
def givenIn (overrides : Keyed String α) : Keyed String α :=
  overrides.filter fun entry => isGiven entry.2

/-- The value that overrides give a name. -/
def given? (overrides : Keyed String α) (name : String) : Option α :=
  (Keyed.get? name overrides).filter isGiven

theorem get?_givenIn (hnodup : overrides.keys.Nodup) (name : String) :
    Keyed.get? name (givenIn overrides) = given? overrides name :=
  Keyed.get?_filter_value hnodup isGiven name

theorem keys_givenIn_sublist (overrides : Keyed String α) :
    (givenIn overrides).keys.Sublist overrides.keys :=
  List.filter_sublist.map _

theorem nodup_keys_givenIn (hnodup : overrides.keys.Nodup) : (givenIn overrides).keys.Nodup :=
  hnodup.sublist (keys_givenIn_sublist overrides)

theorem not_mem_of_merged (h : o.merged overrides = .ok o') : ownWord ∉ overrides.keys := by
  obtain ⟨_, hown, -⟩ := exists_of_bind_eq_ok h
  exact not_mem_of_refuseOwnWord hown

theorem merged_of_not_mem (howner : ownWord ∉ overrides.keys) :
    o.merged overrides = (o.setAll (arranged (givenIn overrides))).mapError .option := by
  rw [merged, refuseOwnWord_of_not_mem howner]
  rfl

theorem setAll_arranged_eq_ok_iff (hnodup : overrides.keys.Nodup) :
    o.setAll (arranged (givenIn overrides)) = .ok o' ↔ o.Updates (given? overrides) o' := by
  have hget : (fun name => Keyed.get? name (arranged (givenIn overrides))) = given? overrides :=
    funext fun name => (get?_arranged _ name).trans (get?_givenIn hnodup name)
  rw [setAll_eq_ok_iff (nodup_keys_arranged (nodup_keys_givenIn hnodup)), hget]

/-- Merging changes what overrides give, and has a result just if every value given passes its
check. -/
theorem merged_eq_ok_iff (hnodup : overrides.keys.Nodup) (howner : ownWord ∉ overrides.keys) :
    o.merged overrides = .ok o' ↔ o.Updates (given? overrides) o' := by
  rw [merged_of_not_mem howner, mapError_eq_ok_iff, setAll_arranged_eq_ok_iff hnodup]

/-- Only a fault of the options stands against overrides. -/
theorem merged_ok_or_option (o : Options) (howner : ownWord ∉ overrides.keys) :
    (∃ o', o.merged overrides = .ok o') ∨ ∃ fault, o.merged overrides = .error (.option fault) := by
  rw [merged_of_not_mem howner]
  cases o.setAll (arranged (givenIn overrides)) with
  | error fault => exact Or.inr ⟨fault, rfl⟩
  | ok o' => exact Or.inl ⟨o', rfl⟩

/-- Overrides that hold nothing change nothing. -/
theorem merged_eq_self (hnothing : ∀ entry ∈ overrides, isGiven entry.2 = false)
    (howner : ownWord ∉ overrides.keys) : o.merged overrides = .ok o := by
  have hgiven : givenIn overrides = [] := by
    rw [givenIn, List.filter_eq_nil_iff]
    exact fun entry hentry => by simp [hnothing entry hentry]
  rw [merged_of_not_mem howner, hgiven]
  rfl

/-! ## Overrides one after the other -/

/-- Overrides with those of others in their place that hold something. -/
def overridden (x y : Keyed String α) : Keyed String α := Keyed.update x (givenIn y)

theorem given?_overridden (hy : y.keys.Nodup) (name : String) :
    given? (overridden x y) name = (given? y name).or (given? x name) := by
  rw [given?, overridden, Keyed.get?_update (nodup_keys_givenIn hy), get?_givenIn hy]
  cases hgiven : given? y name with
  | none => rfl
  | some v =>
      have hholds : isGiven v = true := (Option.filter_eq_some_iff.mp hgiven).2
      simp [Option.filter, hholds]

/-- To change options twice is to change them once, by the later value of each name. -/
theorem Updates.updates_iff {first later : String → Option α} (h : o.Updates first o₁) :
    o₁.Updates later o' ↔ o.Updates (fun name => (later name).or (first name)) o' := by
  refine forall_congr' fun name => ?_
  have hname := h name
  dsimp only
  cases later name with
  | some v => rfl
  | none =>
      rw [Option.none_or]
      cases hfirst : first name with
      | none =>
          simp only [hfirst] at hname
          simp only [hname]
      | some v =>
          simp only [hfirst] at hname
          obtain ⟨d, hchecked, hvalue⟩ := hname
          simp only [hvalue, hchecked, Except.ok.injEq, exists_eq_left']

theorem not_mem_keys_overridden (hx : ownWord ∉ x.keys) (hy : ownWord ∉ y.keys) :
    ownWord ∉ (overridden x y).keys := by
  rw [overridden, Keyed.mem_keys_update, not_or]
  exact ⟨hx, fun h => hy ((keys_givenIn_sublist y).subset h)⟩

/-- Overrides one after the other do what they do at once. -/
theorem merged_merged (hx : x.keys.Nodup) (hy : y.keys.Nodup) (howner : ownWord ∉ y.keys)
    (h : o.merged x = .ok o₁) : o₁.merged y = .ok o' ↔ o.merged (overridden x y) = .ok o' := by
  have howner₁ := not_mem_of_merged h
  have hfirst := (merged_eq_ok_iff hx howner₁).mp h
  have hgiven : given? (overridden x y) = fun name => (given? y name).or (given? x name) :=
    funext fun name => given?_overridden hy name
  have hnodup : (overridden x y).keys.Nodup := Keyed.nodup_keys_update hx _
  rw [merged_eq_ok_iff hy howner, hfirst.updates_iff, ← hgiven,
    merged_eq_ok_iff hnodup (not_mem_keys_overridden howner₁ howner)]

/-- Overrides one after the other fail, or have a result, as they do at once. -/
theorem merged_merged_agree (hx : x.keys.Nodup) (hy : y.keys.Nodup) (howner : ownWord ∉ y.keys)
    (h : o.merged x = .ok o₁) :
    (∃ o', o₁.merged y = .ok o' ∧ o.merged (overridden x y) = .ok o') ∨
      ∃ fault fault', o₁.merged y = .error (.option fault) ∧
        o.merged (overridden x y) = .error (.option fault') := by
  have hboth := not_mem_keys_overridden (not_mem_of_merged h) howner
  rcases merged_ok_or_option o₁ howner with ⟨o', hlater⟩ | ⟨fault, hlater⟩
  · exact Or.inl ⟨o', hlater, (merged_merged hx hy howner h).mp hlater⟩
  rcases merged_ok_or_option o hboth with ⟨o', honce⟩ | ⟨fault', honce⟩
  · rw [(merged_merged hx hy howner h).mpr honce] at hlater
    cases hlater
  · exact Or.inr ⟨fault, fault', hlater, honce⟩

/-! ## Options made anew -/

/-- A stored value, or one from elsewhere. -/
instance : Readable (Document ⊕ α) where
  shape
    | .inl d => (shape d).map .inl
    | .inr v => (shape v).map .inr
  literal?
    | .inl d => Readable.literal? d
    | .inr v => Readable.literal? v

theorem checked_inl (name : String) (d : Document) :
    checked name (.inl d : Document ⊕ α) = checked name d :=
  checked_map (fun _ => rfl) name d

theorem checked_inr (name : String) (v : α) :
    checked name (.inr v : Document ⊕ α) = checked name v :=
  checked_map (fun _ => rfl) name v

/-- The stored values of options, among others. -/
def kept (α : Type) (o : Options) : Keyed String (Document ⊕ α) :=
  o.settings.map fun entry => (entry.1, .inl entry.2)

/-- The overrides that hold something, among stored values. -/
def laid (overrides : Keyed String α) : Keyed String (Document ⊕ α) :=
  (givenIn overrides).map fun entry => (entry.1, .inr entry.2)

/-- All stored values, with the overrides that hold something in their place. -/
def overlaid (o : Options) (overrides : Keyed String α) : Keyed String (Document ⊕ α) :=
  Keyed.update (o.kept α) (laid overrides)

theorem keys_kept (α : Type) (o : Options) : (o.kept α).keys = names :=
  (Keyed.keys_map _ _).trans (keys_settings o)

theorem nodup_keys_kept (α : Type) (o : Options) : (o.kept α).keys.Nodup :=
  (keys_kept α o).symm ▸ nodup_names

theorem nodup_keys_laid (hnodup : overrides.keys.Nodup) : (laid overrides).keys.Nodup := by
  rw [laid, Keyed.keys_map]
  exact nodup_keys_givenIn hnodup

theorem get?_laid (hnodup : overrides.keys.Nodup) (name : String) :
    Keyed.get? name (laid overrides) = (given? overrides name).map .inr := by
  rw [laid, Keyed.get?_map, get?_givenIn hnodup]

theorem get?_overlaid (hnodup : overrides.keys.Nodup) (name : String) :
    Keyed.get? name (o.overlaid overrides) =
      ((given? overrides name).map .inr).or ((o.value? name).map .inl) := by
  rw [overlaid, Keyed.get?_update (nodup_keys_laid hnodup), get?_laid hnodup, kept, Keyed.get?_map,
    value?]

/-- Whatever options change, a check takes what was stored. -/
theorem Valid.updates_overlaid_iff (h : o.Valid) (hnodup : overrides.keys.Nodup) :
    o₁.Updates (fun name => Keyed.get? name (o.overlaid overrides)) o' ↔
      o.Updates (given? overrides) o' := by
  refine forall_congr' fun name => ?_
  dsimp only
  rw [get?_overlaid hnodup]
  cases given? overrides name with
  | some v => simp only [Option.map_some, Option.some_or, checked_inr]
  | none =>
      rw [Option.map_none, Option.none_or]
      cases hvalue : o.value? name with
      | none =>
          have hunknown : name ∉ names := value?_eq_none_iff.mp hvalue
          simp only [Option.map_none, value?_eq_none_iff.mpr hunknown]
      | some d =>
          have hchecked := h.checked_of_tells hvalue (tells_value? hvalue)
          simp only [Option.map_some, checked_inl, hchecked, Except.ok.injEq, exists_eq_left']

theorem fault?_inr (name : String) (v : α) :
    fault? (name, (.inr v : Document ⊕ α)) = fault? (name, v) := by
  rw [fault?, checked_inr, fault?]

/-- A stored value has no fault. -/
theorem Valid.fault?_inl (h : o.Valid) {entry : String × Document} (hentry : entry ∈ o.settings) :
    fault? (entry.1, (.inl entry.2 : Document ⊕ α)) = none := by
  have hnodup : o.settings.keys.Nodup := nodup_names
  have hvalue : o.value? entry.1 = some entry.2 := Keyed.get?_of_mem hnodup hentry
  rw [fault?, checked_inl, h.checked_of_tells hvalue (tells_value? hvalue)]

/-- The first fault of values in place of some that have none is that of the new values. -/
theorem findSome?_in_place (given : Keyed String α) {stored : Keyed String Document}
    (hstored : ∀ entry ∈ stored, fault? (entry.1, (.inl entry.2 : Document ⊕ α)) = none) :
    (stored.map fun entry => (entry.1, ((Keyed.get? entry.1 given).map .inr).getD
        (.inl entry.2 : Document ⊕ α))).findSome? fault? =
      (stored.keys.filterMap fun name => (Keyed.get? name given).map (name, ·)).findSome?
        fault? := by
  induction stored with
  | nil => rfl
  | cons entry rest ih =>
      have hrest := ih fun other hother => hstored other (List.mem_cons_of_mem _ hother)
      have hentry := hstored entry List.mem_cons_self
      rw [List.map_cons, List.findSome?_cons, hrest, Keyed.keys_cons, List.filterMap_cons]
      cases Keyed.get? entry.1 given with
      | none => simp only [Option.map_none, Option.getD_none, hentry]
      | some v => simp only [Option.map_some, Option.getD_some, fault?_inr, List.findSome?_cons]

theorem Valid.findSome?_overlaid (h : o.Valid) (hnodup : overrides.keys.Nodup) :
    (o.overlaid overrides).findSome? fault? = (arranged (givenIn overrides)).findSome? fault? := by
  have hknown := findSome?_in_place (givenIn overrides) fun _ hentry => h.fault?_inl hentry
  have hkept :
      ((o.kept α).map fun entry =>
        (entry.1, (Keyed.get? entry.1 (laid overrides)).getD entry.2)) =
      o.settings.map fun entry => (entry.1,
        ((Keyed.get? entry.1 (givenIn overrides)).map .inr).getD
          (.inl entry.2 : Document ⊕ α)) := by
    rw [kept, List.map_map]
    refine List.map_congr_left fun entry _ => ?_
    rw [Function.comp_apply, laid, Keyed.get?_map]
  have hunknown :
      ((laid overrides).filter fun entry => decide (entry.1 ∉ (o.kept α).keys)).findSome? fault? =
        ((givenIn overrides).filter fun entry => !names.contains entry.1).findSome? fault? := by
    rw [laid, List.filter_map, List.findSome?_map, keys_kept]
    simp only [Function.comp_def, fault?_inr, ← List.elem_eq_mem, decide_not,
      List.elem_eq_contains]
  rw [overlaid, Keyed.update_eq (nodup_keys_kept α o) (nodup_keys_laid hnodup), hkept,
    List.findSome?_append, hknown, hunknown, arranged, List.findSome?_append, keys_settings]

/-- To set what overrides give is to set all stored values with the overrides in their place. -/
theorem Valid.setAll_overlaid (h : o.Valid) (hnodup : overrides.keys.Nodup) :
    o₁.setAll (o.overlaid overrides) = o.setAll (arranged (givenIn overrides)) := by
  have hall : (o.overlaid overrides).keys.Nodup := Keyed.nodup_keys_update (nodup_keys_kept α o) _
  cases hset : o.setAll (arranged (givenIn overrides)) with
  | ok o' =>
      have hupdates := (setAll_arranged_eq_ok_iff hnodup).mp hset
      exact (setAll_eq_ok_iff hall).mpr ((h.updates_overlaid_iff hnodup).mpr hupdates)
  | error fault =>
      rw [setAll_eq_error_iff, h.findSome?_overlaid hnodup]
      exact setAll_eq_error_iff.mp hset

/-- To merge overrides is to make options anew from all stored values with the overrides in their
place. -/
theorem Valid.merged_eq_ofSettings (h : o.Valid) (hnodup : overrides.keys.Nodup)
    (howner : ownWord ∉ overrides.keys) :
    o.merged overrides = ofSettings (o.overlaid overrides) := by
  have hown : ownWord ∉ (o.overlaid overrides).keys := by
    rw [overlaid, Keyed.mem_keys_update, not_or, keys_kept, laid, Keyed.keys_map]
    exact ⟨by decide, fun h => howner ((keys_givenIn_sublist overrides).subset h)⟩
  rw [merged_of_not_mem howner, ofSettings, refuseOwnWord_of_not_mem hown, h.setAll_overlaid hnodup]
  rfl

end StubTree.Options
