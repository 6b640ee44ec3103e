import Mathlib.Data.List.Induction
import StubTree.Proofs.Keyed
import StubTree.Session.Drain

/-! # The record of a run

What is on record of a namespace is its last emission and the number of its emissions, whatever
other events there are.
-/

namespace StubTree

variable {space : Namespace} {events : List Event} {e : Emission} {g : Generation}

/-- The emissions of a namespace, in order. -/
def emissionsOf (space : Namespace) (events : List Event) : List Emission :=
  events.filterMap fun
    | .emitted e => if e.space = space then some e else none
    | .skipped _ => none

/-- The last emission of a namespace. -/
def lastEmission? (space : Namespace) (events : List Event) : Option Emission :=
  (emissionsOf space events).getLast?

/-- The record of a stub after its emissions. -/
def StubFile.of? (emissions : List Emission) : Option StubFile :=
  emissions.getLast?.map fun e =>
    ⟨e.path, e.types.map (·.name), emissions.length,
      (e.types.filter (· ∈ e.added)).map (·.name)⟩

/-! ## One more event -/

theorem emissionsOf_emitted (events : List Event) (e : Emission) :
    emissionsOf e.space (events ++ [.emitted e]) = emissionsOf e.space events ++ [e] := by
  simp [emissionsOf]

theorem emissionsOf_emitted_of_ne (h : space ≠ e.space) (events : List Event) :
    emissionsOf space (events ++ [.emitted e]) = emissionsOf space events := by
  simp [emissionsOf, h.symm]

theorem emissionsOf_skipped (space other : Namespace) (events : List Event) :
    emissionsOf space (events ++ [.skipped other]) = emissionsOf space events := by
  simp [emissionsOf]

theorem lastEmission?_emitted (events : List Event) (e : Emission) :
    lastEmission? e.space (events ++ [.emitted e]) = some e := by
  rw [lastEmission?, emissionsOf_emitted, List.getLast?_concat]

theorem lastEmission?_emitted_of_ne (h : space ≠ e.space) (events : List Event) :
    lastEmission? space (events ++ [.emitted e]) = lastEmission? space events := by
  rw [lastEmission?, emissionsOf_emitted_of_ne h, lastEmission?]

theorem lastEmission?_skipped (space other : Namespace) (events : List Event) :
    lastEmission? space (events ++ [.skipped other]) = lastEmission? space events := by
  rw [lastEmission?, emissionsOf_skipped, lastEmission?]

/-! ## The record -/

theorem StubFile.of?_concat (emissions : List Emission) (e : Emission) :
    StubFile.of? (emissions ++ [e]) =
      some ⟨e.path, e.types.map (·.name), emissions.length + 1,
        (e.types.filter (· ∈ e.added)).map (·.name)⟩ := by
  simp [of?]

theorem StubFile.emissions_of? (emissions : List Emission) :
    ((StubFile.of? emissions).map (·.emissions)).getD 0 = emissions.length := by
  cases emissions using List.reverseRecOn with
  | nil => rfl
  | append_singleton before last => simp [of?_concat]

namespace Generation

/-- The record of a run from its events alone. -/
theorem get?_files_foldl_note (hempty : g.files = []) (space : Namespace) (events : List Event) :
    (events.foldl note g).files.get? space = StubFile.of? (emissionsOf space events) := by
  induction events using List.reverseRecOn with
  | nil =>
      rw [List.foldl_nil, hempty]
      rfl
  | append_singleton events event ih =>
      rw [List.foldl_append, List.foldl_cons, List.foldl_nil]
      cases event with
      | skipped other =>
          rw [emissionsOf_skipped, ← ih]
          simp only [note, skip]
          split <;> rfl
      | emitted e =>
          simp only [note, record]
          by_cases hspace : space = e.space
          · subst hspace
            -- The number of emissions is one more than on the record before.
            rw [Keyed.get?_set_self, ih, StubFile.emissions_of?, emissionsOf_emitted,
              StubFile.of?_concat]
          · rw [Keyed.get?_set_of_ne hspace, ih, emissionsOf_emitted_of_ne hspace]

/-- A namespace is on record where it has an emission, and its record is made of the last one. -/
theorem exists_last_of_get?_files (hempty : g.files = []) {file : StubFile}
    (h : (events.foldl note g).files.get? space = some file) :
    ∃ e, lastEmission? space events = some e ∧ file.path = e.path ∧
      file.types = e.types.map (·.name) := by
  rw [get?_files_foldl_note hempty, StubFile.of?] at h
  obtain ⟨e, hlast, rfl⟩ := Option.map_eq_some_iff.mp h
  exact ⟨e, hlast, rfl, rfl⟩

theorem exists_get?_files_of_last (hempty : g.files = [])
    (h : lastEmission? space events = some e) :
    ∃ file, (events.foldl note g).files.get? space = some file ∧ file.path = e.path := by
  rw [get?_files_foldl_note hempty, StubFile.of?, ← lastEmission?, h]
  exact ⟨_, rfl, rfl⟩

theorem mem_keys_foldl_note (hempty : g.files = []) :
    space ∈ (events.foldl note g).files.keys ↔ ∃ e, lastEmission? space events = some e := by
  constructor
  · intro hspace
    obtain ⟨file, hfile⟩ := Keyed.exists_get?_of_mem_keys hspace
    obtain ⟨e, hlast, -⟩ := exists_last_of_get?_files hempty hfile
    exact ⟨e, hlast⟩
  · rintro ⟨e, hlast⟩
    obtain ⟨file, hfile, -⟩ := exists_get?_files_of_last hempty hlast
    exact Keyed.mem_keys_of_get? hfile

theorem nodup_keys_foldl_note (hempty : g.files = []) (events : List Event) :
    (events.foldl note g).files.keys.Nodup := by
  induction events using List.reverseRecOn with
  | nil =>
      rw [List.foldl_nil, hempty]
      exact List.nodup_nil
  | append_singleton events event ih =>
      rw [List.foldl_append, List.foldl_cons, List.foldl_nil]
      cases event with
      | skipped other =>
          simp only [note, skip]
          split <;> exact ih
      | emitted e => exact Keyed.nodup_keys_set ih _ _

/-- Where every event wrote a stub, nothing is left out. -/
theorem skipped_foldl_note (hempty : g.skipped = [])
    (hemitted : ∀ event ∈ events, ∃ e, event = .emitted e) :
    (events.foldl note g).skipped = [] := by
  induction events using List.reverseRecOn with
  | nil => exact hempty
  | append_singleton events event ih =>
      obtain ⟨e, rfl⟩ := hemitted event (by simp)
      have hbefore := ih fun other hother => hemitted other (List.mem_append_left _ hother)
      rw [List.foldl_append, List.foldl_cons, List.foldl_nil, note, record, hbefore]
      rfl

theorem nodup_skipped_foldl_note (hempty : g.skipped = []) (events : List Event) :
    (events.foldl note g).skipped.Nodup := by
  induction events using List.reverseRecOn with
  | nil =>
      rw [List.foldl_nil, hempty]
      exact List.nodup_nil
  | append_singleton events event ih =>
      rw [List.foldl_append, List.foldl_cons, List.foldl_nil]
      cases event with
      | skipped space =>
          rw [note, skip]
          split
          next => exact ih
          next hnew =>
            rw [Bool.or_eq_true, not_or, decide_eq_true_eq, decide_eq_true_eq] at hnew
            refine List.nodup_append.mpr ⟨ih, List.pairwise_singleton _ _, ?_⟩
            intro a ha b hb heq
            rw [heq, List.mem_singleton.mp hb] at ha
            exact hnew.2 ha
      | emitted e => exact ih.erase _

/-- A namespace is on record as left out where it was left out, and never written. -/
theorem mem_skipped_foldl_note (hfiles : g.files = []) (hempty : g.skipped = []) :
    space ∈ (events.foldl note g).skipped ↔
      .skipped space ∈ events ∧ lastEmission? space events = none := by
  induction events using List.reverseRecOn with
  | nil =>
      rw [List.foldl_nil, hempty]
      simp
  | append_singleton events event ih =>
      have hnodup := nodup_skipped_foldl_note hempty events
      rw [List.foldl_append, List.foldl_cons, List.foldl_nil]
      cases event with
      | skipped other =>
          have hkeys : other ∈ (events.foldl note g).files.keys ↔
              ¬ lastEmission? other events = none := by
            rw [mem_keys_foldl_note hfiles, ← Option.isSome_iff_exists, Option.isSome_iff_ne_none]
          rw [lastEmission?_skipped, List.mem_append, List.mem_singleton, Event.skipped.injEq,
            note, skip]
          split
          next hold =>
            rw [Bool.or_eq_true, decide_eq_true_eq, decide_eq_true_eq, hkeys] at hold
            rw [ih, or_and_right, iff_self_or]
            rintro ⟨rfl, hnone⟩
            exact ih.mp (hold.resolve_left (not_not.mpr hnone))
          next hnew =>
            rw [Bool.or_eq_true, not_or, decide_eq_true_eq, decide_eq_true_eq, hkeys, not_not]
              at hnew
            rw [List.mem_append, List.mem_singleton, ih, or_and_right]
            refine or_congr_right (iff_self_and.mpr ?_)
            rintro rfl
            exact hnew.1
      | emitted e =>
          rw [note, record, hnodup.mem_erase_iff, ih]
          by_cases hspace : space = e.space
          · subst hspace
            simp [lastEmission?_emitted]
          · simp [lastEmission?_emitted_of_ne hspace, hspace]

/-- The targets on record have no part in what else is noted. -/
theorem foldl_note_targets (g : Generation) (targets : List String) (events : List Event) :
    events.foldl note { g with targets } = { events.foldl note g with targets } := by
  induction events generalizing g with
  | nil => rfl
  | cons event rest ih =>
      have hone : note { g with targets } event = { note g event with targets } := by
        cases event with
        | emitted e => rfl
        | skipped space =>
            simp only [note, skip]
            split <;> rfl
      rw [List.foldl_cons, hone, ih, List.foldl_cons]

theorem targets_foldl_note (g : Generation) (events : List Event) :
    (events.foldl note g).targets = g.targets := by
  have h := congrArg Generation.targets (foldl_note_targets g g.targets events)
  exact h

/-- The types on record, counted by namespace. -/
theorem typeCount_eq_total (hnodup : g.files.keys.Nodup) (count : Namespace → Nat)
    (hcount : ∀ space file, g.files.get? space = some file → file.types.length = count space) :
    g.typeCount = total (g.files.keys.map count) := by
  have hentry : ∀ entry ∈ g.files, entry.2.types.length = count entry.1 :=
    fun entry hmem => hcount entry.1 entry.2 (Keyed.get?_of_mem hnodup hmem)
  rw [typeCount, Keyed.values, Keyed.keys, List.map_map, List.map_map]
  exact congrArg total (List.map_congr_left hentry)

end Generation

end StubTree
