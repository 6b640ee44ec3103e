import StubTree.Options.Load
import StubTree.Proofs.Outcome

/-! # Valid options

Whatever way options come about, every one of them has passed its check.
-/

namespace StubTree.Options

variable {α : Type} [Readable α] {o o' : Options}

/-- Options that pass the checks they are set with. -/
structure Valid (o : Options) : Prop where
  filled : o.stubFileName ≠ ""
  separators : ∀ c ∈ o.stubFileName.toList, c ≠ '/' ∧ c ≠ '\\'
  ending : o.manifestSuffix.toList.head? = some '.'

theorem filled_eq_ok {name s : String} {v : α} (h : filled name v = .ok s) : s ≠ "" := by
  rw [filled] at h
  split at h
  · split at h
    · cases h
    next hne =>
      cases h
      exact fun heq => hne (beq_iff_eq.mpr heq)
  · cases h

theorem fileName_eq_ok {name s : String} {v : α} (h : fileName name v = .ok s) :
    s ≠ "" ∧ ∀ c ∈ s.toList, c ≠ '/' ∧ c ≠ '\\' := by
  obtain ⟨s', hfilled, h⟩ := exists_of_bind_eq_ok h
  split at h
  · cases h
  next hnone =>
    cases h
    refine ⟨filled_eq_ok hfilled, ?_⟩
    intro c hc
    constructor
    all_goals
      rintro rfl
      exact hnone (List.any_eq_true.mpr ⟨_, hc, rfl⟩)

theorem ending_eq_ok {name s : String} {v : α} (h : ending name v = .ok s) :
    s.toList.head? = some '.' := by
  obtain ⟨s', -, h⟩ := exists_of_bind_eq_ok h
  split at h
  next hhead =>
    cases h
    exact beq_iff_eq.mp hhead
  · cases h

/-- The defaults pass the checks as well. -/
theorem valid_default : Valid {} :=
  have hname : fileName "stub_file_name" (Document.text "__init__.pyi") = .ok "__init__.pyi" := rfl
  { filled := (fileName_eq_ok hname).1
    separators := (fileName_eq_ok hname).2
    ending := rfl }

theorem Valid.set {name : String} {v : α} (h : o.Valid) (hset : o.set name v = .ok o') :
    o'.Valid := by
  unfold Options.set at hset
  split at hset
  · obtain ⟨_, -, hset⟩ := exists_of_bind_eq_ok hset
    cases hset
    exact { h with }
  · obtain ⟨_, -, hset⟩ := exists_of_bind_eq_ok hset
    cases hset
    exact { h with }
  · obtain ⟨name, hname, hset⟩ := exists_of_bind_eq_ok hset
    cases hset
    exact { h with filled := (fileName_eq_ok hname).1, separators := (fileName_eq_ok hname).2 }
  · obtain ⟨suffix, hsuffix, hset⟩ := exists_of_bind_eq_ok hset
    cases hset
    exact { h with ending := ending_eq_ok hsuffix }
  · obtain ⟨_, -, hset⟩ := exists_of_bind_eq_ok hset
    cases hset
    exact { h with }
  · cases hset

theorem Valid.setAll {settings : Keyed String α} (h : o.Valid)
    (hset : o.setAll settings = .ok o') : o'.Valid := by
  induction settings generalizing o with
  | nil =>
      cases hset
      exact h
  | cons setting rest ih =>
      obtain ⟨next, hone, hrest⟩ := exists_of_bind_eq_ok hset
      exact ih (h.set hone) hrest

theorem Valid.merged {overrides : Keyed String α} (h : o.Valid)
    (hmerged : o.merged overrides = .ok o') : o'.Valid := by
  obtain ⟨_, -, hset⟩ := exists_of_bind_eq_ok hmerged
  exact h.setAll (eq_ok_of_mapError hset)

/-- An override for the choice of types leaves the other options as they are. -/
theorem merged_onlyTargetTypes {v : α} (h : o.merged [("only_target_types", v)] = .ok o') :
    ∃ only, o' = { o with onlyTargetTypes := only } := by
  obtain ⟨_, -, hset⟩ := exists_of_bind_eq_ok h
  replace hset := eq_ok_of_mapError hset
  cases hgiven : isGiven v with
  | false =>
      have hnone : o.setAll ([] : Keyed String α) = .ok o' := by
        simpa [hgiven, names, Keyed.get?] using hset
      cases hnone
      exact ⟨o.onlyTargetTypes, rfl⟩
  | true =>
      have hone : o.setAll [("only_target_types", v)] = .ok o' := by
        simpa [hgiven, names, Keyed.get?] using hset
      obtain ⟨_, hone, hnone⟩ := exists_of_bind_eq_ok hone
      cases hnone
      obtain ⟨only, -, hone⟩ := exists_of_bind_eq_ok hone
      cases hone
      exact ⟨only, rfl⟩

theorem valid_of_ofSettings {settings : Keyed String α} (h : ofSettings settings = .ok o) :
    o.Valid := by
  obtain ⟨_, -, hset⟩ := exists_of_bind_eq_ok h
  exact valid_default.setAll (eq_ok_of_mapError hset)

theorem valid_of_ofValue {path : Path} {v : α} (h : ofValue path v = .ok o) : o.Valid := by
  rw [ofValue] at h
  split at h
  · cases h
    exact valid_default
  · obtain ⟨settings, -, hset⟩ := exists_of_bind_eq_ok h
    exact valid_of_ofSettings hset
  · cases h

/-- The options of a file are valid. -/
theorem valid_of_load {disk : Disk} {path : Path} (h : load disk path = .ok o) : o.Valid := by
  obtain ⟨bytes, -, h⟩ := exists_of_bind_eq_ok h
  split at h
  · obtain ⟨_, -, h⟩ := exists_of_bind_eq_ok h
    obtain ⟨value, -, hvalue⟩ := exists_of_bind_eq_ok h
    exact valid_of_ofValue hvalue
  · cases h

end StubTree.Options
