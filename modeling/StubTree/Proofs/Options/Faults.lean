import StubTree.Options.Load
import StubTree.Proofs.Manifest.Faults

/-! # Faults of options

All that keeps a value from being options is a fault of the options, unless a number in it cannot be
shown or one of its keys names the options themselves.
-/

namespace StubTree

/-- A fault of the options, or a number that cannot be written if something stands against it. -/
def Fault.IsOption (against : Prop) : Fault → Prop
  | .option _ => True
  | .unwritableNumber => against
  | _ => False

namespace Options

open Loader (Passes passes_ok passes_error passes_foldlM)

variable {α : Type} [Readable α] {against : Prop} {fine : α → Prop} {v : α}
  {entries : List (α × α)} {settings : Keyed String α}

/-- A key of the value is the word for the options themselves. -/
def NamesOwner (v : α) : Prop :=
  ∃ entries, Readable.shape v = .mapping entries ∧ ∃ entry ∈ entries, nameOf entry.1 = .ok ownWord

theorem passes_nameOf (h : Showable against fine) {key : α} (hkey : fine key) :
    Passes (Fault.IsOption against) (nameOf key) := by
  unfold nameOf
  split
  next => exact passes_ok _
  next hnone => exact passes_error ((h.shown hkey).resolve_left (by simp [hnone]))

theorem passes_spelled (h : Showable against fine) (hentries : ∀ entry ∈ entries, fine entry.1) :
    Passes (Fault.IsOption against) (spelled entries) :=
  passes_foldlM [] fun _ entry hentry =>
    (passes_nameOf h (hentries entry hentry)).bind fun _ _ => passes_ok _

/-- Every option that a mapping spells is named by one of its keys. -/
theorem exists_key_of_foldlM {acc : Keyed String α} {name : String}
    (h : entries.foldlM (fun acc (k, v) => return Keyed.set (← nameOf k) v acc) acc =
      (.ok settings : Except Fault (Keyed String α)))
    (hname : name ∈ settings.keys) :
    name ∈ acc.keys ∨ ∃ entry ∈ entries, nameOf entry.1 = .ok name := by
  induction entries generalizing acc with
  | nil =>
      cases h
      exact Or.inl hname
  | cons entry rest ih =>
      rw [List.foldlM_cons] at h
      obtain ⟨_, hstep, h⟩ := exists_of_bind_eq_ok h
      obtain ⟨key, hkey, hstep⟩ := exists_of_bind_eq_ok hstep
      cases hstep
      rcases ih h with hset | ⟨other, hother, hnamed⟩
      · rcases Keyed.mem_keys_set.mp hset with rfl | hold
        · exact Or.inr ⟨entry, List.mem_cons_self, hkey⟩
        · exact Or.inl hold
      · exact Or.inr ⟨other, List.mem_cons_of_mem _ hother, hnamed⟩

theorem exists_key_of_spelled (h : spelled entries = .ok settings) {name : String}
    (hname : name ∈ settings.keys) : ∃ entry ∈ entries, nameOf entry.1 = .ok name :=
  (exists_key_of_foldlM h hname).resolve_left (by simp)

theorem passes_mapError {β : Type} (result : Except OptionFault β) :
    Passes (Fault.IsOption against) (result.mapError .option) := by
  cases result with
  | error cause => exact passes_error trivial
  | ok b => exact passes_ok b

/-- A value that spells no options has a fault of the options, or a number that cannot be written,
or a key that names the options themselves. -/
theorem passes_ofValue (h : Showable against fine) (path : Path) (hv : fine v) :
    Passes (fun fault => fault.IsOption against ∨ fault = .ownerOption ∧ NamesOwner v)
      (ofValue path v) := by
  rw [ofValue]
  split
  · exact passes_ok _
  next entries hshape =>
    have hentries := h.of_mapping hv hshape
    refine ((passes_spelled h fun entry hentry => (hentries entry hentry).1).mono
      fun _ => Or.inl).bind fun settings hspelled => ?_
    refine Passes.bind ?_ fun _ _ => (passes_mapError _).mono fun _ => Or.inl
    rw [refuseOwnWord]
    split
    next howner =>
      have hkey := exists_key_of_spelled hspelled (List.contains_iff_mem.mp howner)
      exact passes_error (Or.inr ⟨rfl, entries, hshape, hkey⟩)
    next => exact passes_ok ()
  · exact passes_error (Or.inl trivial)

end Options

end StubTree
