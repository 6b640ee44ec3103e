import Mathlib.Data.List.Basic
import StubTree.Proofs.Distinct
import StubTree.Proofs.Generation

/-! # The record in one piece

What is on record can be told from the emissions alone and the namespaces that were left out alone,
each in order: how the two interleave does not matter. A namespace stands where it first was
written, or first was left out if it never was written.
-/

namespace StubTree

variable {g : Generation}

/-- The emissions among events. -/
def emissionsIn (events : List Event) : List Emission :=
  events.filterMap fun
    | .emitted e => some e
    | .skipped _ => none

/-- The namespaces that events leave out. -/
def leftOutIn (events : List Event) : List Namespace :=
  events.filterMap fun
    | .emitted _ => none
    | .skipped space => some space

@[simp] theorem emissionsIn_emitted (events : List Event) (e : Emission) :
    emissionsIn (events ++ [.emitted e]) = emissionsIn events ++ [e] := by
  simp [emissionsIn]

@[simp] theorem emissionsIn_skipped (events : List Event) (space : Namespace) :
    emissionsIn (events ++ [.skipped space]) = emissionsIn events := by
  simp [emissionsIn]

@[simp] theorem leftOutIn_emitted (events : List Event) (e : Emission) :
    leftOutIn (events ++ [.emitted e]) = leftOutIn events := by
  simp [leftOutIn]

@[simp] theorem leftOutIn_skipped (events : List Event) (space : Namespace) :
    leftOutIn (events ++ [.skipped space]) = leftOutIn events ++ [space] := by
  simp [leftOutIn]

theorem emissionsOf_eq_filter (space : Namespace) (events : List Event) :
    emissionsOf space events = (emissionsIn events).filter (·.space = space) := by
  induction events using List.reverseRecOn with
  | nil => rfl
  | append_singleton events event ih =>
      cases event with
      | skipped other => rw [emissionsOf_skipped, emissionsIn_skipped, ih]
      | emitted e =>
          rw [emissionsIn_emitted, List.filter_append, ← ih]
          by_cases hspace : space = e.space
          · subst hspace
            simp [emissionsOf_emitted]
          · simp [emissionsOf_emitted_of_ne hspace, Ne.symm hspace]

/-- The namespaces of emissions. -/
def spacesOf (emissions : List Emission) : List Namespace := emissions.map (·.space)

@[simp] theorem spacesOf_concat (emissions : List Emission) (e : Emission) :
    spacesOf (emissions ++ [e]) = spacesOf emissions ++ [e.space] :=
  List.map_append

namespace Generation

/-- The record of emissions and of namespaces left out, whatever came between them. -/
def tallied (destination : Path) (targets : List String) (emissions : List Emission)
    (leftOut : List Namespace) : Generation where
  destination := destination
  targets := targets
  files := (spacesOf emissions).eraseDups.filterMap fun space =>
    (StubFile.of? (emissions.filter (·.space = space))).map (space, ·)
  skipped := leftOut.eraseDups.filter (· ∉ spacesOf emissions)

/-- How many types the last emission of a namespace holds. -/
def lastTypeCount (events : List Event) (space : Namespace) : Nat :=
  ((lastEmission? space events).map (·.types.length)).getD 0

theorem keys_files_foldl_note (hempty : g.files = []) (events : List Event) :
    (events.foldl note g).files.keys = (spacesOf (emissionsIn events)).eraseDups := by
  induction events using List.reverseRecOn with
  | nil =>
      rw [List.foldl_nil, hempty]
      rfl
  | append_singleton events event ih =>
      rw [List.foldl_append, List.foldl_cons, List.foldl_nil]
      cases event with
      | skipped space =>
          rw [emissionsIn_skipped, ← ih, note, skip]
          split <;> rfl
      | emitted e =>
          rw [note, record, Keyed.keys_set, ih, emissionsIn_emitted, spacesOf_concat]
          split
          next hold => rw [Distinct.eraseDups_concat_of_mem (List.mem_eraseDups.mp hold)]
          next hnew =>
            rw [Distinct.eraseDups_concat_of_not_mem fun h => hnew (List.mem_eraseDups.mpr h)]

/-- What is left out was left out at some time and has been written at none. Once a namespace is
written it never comes back. -/
theorem skipped_foldl_note_eq (hfiles : g.files = []) (hempty : g.skipped = [])
    (events : List Event) :
    (events.foldl note g).skipped =
      (leftOutIn events).eraseDups.filter (· ∉ spacesOf (emissionsIn events)) := by
  induction events using List.reverseRecOn with
  | nil =>
      rw [List.foldl_nil, hempty]
      rfl
  | append_singleton events event ih =>
      rw [List.foldl_append, List.foldl_cons, List.foldl_nil]
      cases event with
      | emitted e =>
          rw [note, record, (nodup_skipped_foldl_note hempty events).erase_eq_filter, ih,
            List.filter_filter, leftOutIn_emitted, emissionsIn_emitted, spacesOf_concat]
          apply List.filter_congr
          intro space _
          rw [Bool.eq_iff_iff]
          simp [and_comm]
      | skipped space =>
          have hkeys : space ∈ (events.foldl note g).files.keys ↔
              space ∈ spacesOf (emissionsIn events) := by
            rw [keys_files_foldl_note hfiles, List.mem_eraseDups]
          have hskipped : space ∈ (events.foldl note g).skipped ↔
              space ∈ leftOutIn events ∧ space ∉ spacesOf (emissionsIn events) := by
            rw [ih, List.mem_filter, List.mem_eraseDups, decide_eq_true_eq]
          rw [emissionsIn_skipped, leftOutIn_skipped, note, skip]
          by_cases hleft : space ∈ leftOutIn events
          · -- It is on the list, unless it was written in the meantime.
            rw [Distinct.eraseDups_concat_of_mem hleft, ← ih, if_pos]
            simp [hkeys, hskipped, hleft]
          · rw [Distinct.eraseDups_concat_of_not_mem hleft, List.filter_append, ← ih]
            by_cases hwritten : space ∈ spacesOf (emissionsIn events)
            · simp [hkeys, hwritten]
            · simp [hkeys, hskipped, hleft, hwritten]

/-- Events bear on the stubs and on what is left out only. -/
theorem foldl_note_eq (g : Generation) (events : List Event) :
    events.foldl note g =
      { g with
        files := (events.foldl note g).files
        skipped := (events.foldl note g).skipped } := by
  induction events generalizing g with
  | nil => rfl
  | cons event rest ih =>
      rw [List.foldl_cons, ih]
      cases event with
      | emitted e => rfl
      | skipped space =>
          rw [note, skip]
          split <;> rfl

/-- The record of a run in one piece, and the number of types on it. -/
theorem foldl_note_eq_tallied (destination : Path) (targets : List String) (events : List Event) :
    events.foldl note { destination, targets } =
        tallied destination targets (emissionsIn events) (leftOutIn events) ∧
      (events.foldl note { destination, targets }).typeCount =
        total ((spacesOf (emissionsIn events)).eraseDups.map (lastTypeCount events)) := by
  have hnodup := nodup_keys_foldl_note (g := { destination, targets }) rfl events
  have hkeys := keys_files_foldl_note (g := { destination, targets }) rfl events
  constructor
  · have hfiles := Keyed.eq_filterMap_get? hnodup
    simp only [hkeys, get?_files_foldl_note (g := { destination, targets }) rfl,
      emissionsOf_eq_filter] at hfiles
    rw [foldl_note_eq, hfiles, skipped_foldl_note_eq rfl rfl]
    rfl
  · rw [typeCount_eq_total hnodup (lastTypeCount events), hkeys]
    intro space file hfile
    obtain ⟨e, hlast, -, htypes⟩ := exists_last_of_get?_files rfl hfile
    rw [lastTypeCount, hlast, htypes, List.length_map]
    rfl

end Generation

end StubTree
