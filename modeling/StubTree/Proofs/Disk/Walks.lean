import StubTree.Proofs.Disk

/-! # Paths below a path

A walk that takes no step back ends below where it started, and every directory it came through
is there.
-/

namespace StubTree

namespace Path

theorem utf8ByteSize_intercalate_le (parts more : List String) :
    ("/".intercalate parts).utf8ByteSize ≤ ("/".intercalate (parts ++ more)).utf8ByteSize := by
  by_cases hparts : parts = []
  · rw [hparts]
    exact Nat.zero_le _
  by_cases hmore : more = []
  · exact Nat.le_of_eq (by rw [hmore, List.append_nil])
  rw [String.intercalate_append_of_ne_nil hparts hmore, String.utf8ByteSize_append,
    String.utf8ByteSize_append]
  omega

/-- A path with more segments is no shorter, but for the dot that stands for none. -/
theorem utf8ByteSize_text_le (anchor : Anchor) (parts more : List String) :
    (⟨anchor, parts⟩ : Path).text.utf8ByteSize ≤
      max 1 (⟨anchor, parts ++ more⟩ : Path).text.utf8ByteSize := by
  have hle := utf8ByteSize_intercalate_le parts more
  by_cases hdot : (anchor == .relative && parts.isEmpty) = true
  · rw [text, if_pos hdot]
    exact Nat.le_max_left _ _
  · have hlonger : ¬ (anchor == .relative && (parts ++ more).isEmpty) = true := by
      simp only [Bool.and_eq_true, List.isEmpty_iff, List.append_eq_nil_iff] at hdot ⊢
      exact fun hempty => hdot ⟨hempty.1, hempty.2.1⟩
    rw [text, if_neg hdot, text, if_neg hlonger, String.utf8ByteSize_append,
      String.utf8ByteSize_append]
    dsimp only
    omega

end Path

namespace Disk

variable {d d' : Disk} {here l : Location} {p : Path} {part : String} {parts more : List String}

/-! ## Walks -/

theorem walk_append (h : d.walk here (parts ++ more) = .ok l) :
    ∃ between, d.walk here parts = .ok between ∧ d.walk between more = .ok l := by
  induction parts generalizing here with
  | nil => exact ⟨here, rfl, h⟩
  | cons part rest ih =>
      rw [List.cons_append, walk] at h
      rw [walk]
      split at h
      · cases h
      · cases h
      next =>
        obtain ⟨next, hstep, hrest⟩ := exists_of_bind_eq_ok h
        obtain ⟨between, hbetween, hmore⟩ := ih hrest
        rw [hstep]
        exact ⟨between, hbetween, hmore⟩

theorem step_of_ne (hpart : part ≠ "..") (h : step here part = .ok l) : l = here ++ [part] := by
  rw [step, if_neg fun heq => hpart (beq_iff_eq.mp heq)] at h
  split at h
  · cases h
  · cases h
    rfl

/-- The last step of a walk starts in a directory. -/
theorem walk_concat (h : d.walk here (parts ++ [part]) = .ok l) :
    ∃ before, d.walk here parts = .ok before ∧ d.at? before = some .directory ∧
      step before part = .ok l := by
  obtain ⟨before, hbefore, hlast⟩ := walk_append h
  rw [walk] at hlast
  split at hlast
  · cases hlast
  · cases hlast
  next hdirectory =>
    obtain ⟨next, hstep, hend⟩ := exists_of_bind_eq_ok hlast
    cases hend
    exact ⟨before, hbefore, hdirectory, hstep⟩

theorem walk_of_dots_not_mem (hdots : ".." ∉ parts) (h : d.walk here parts = .ok l) :
    l = here ++ parts := by
  induction parts generalizing here with
  | nil =>
      cases h
      rw [List.append_nil]
  | cons part rest ih =>
      rw [List.mem_cons, not_or] at hdots
      rw [walk] at h
      split at h
      · cases h
      · cases h
      next =>
        obtain ⟨next, hstep, hrest⟩ := exists_of_bind_eq_ok h
        rw [ih hdots.2 hrest, step_of_ne (Ne.symm hdots.1) hstep, List.append_assoc,
          List.singleton_append]

/-! ## Paths -/

/-- A path that denotes a location goes through the location that a shorter one denotes. -/
theorem locate_append {anchor : Anchor} (h : d.locate ⟨anchor, parts ++ more⟩ = .ok l) :
    ∃ between, d.locate ⟨anchor, parts⟩ = .ok between ∧ d.walk between more = .ok l := by
  rw [locate] at h ⊢
  split at h
  · cases h
  next hfits =>
    have hshorter : ¬ maxPathBytes < (⟨anchor, parts⟩ : Path).text.utf8ByteSize := by
      have hle := Path.utf8ByteSize_text_le anchor parts more
      have hdot : 1 ≤ maxPathBytes := by decide
      omega
    rw [if_neg hshorter]
    exact walk_append h

/-! ## Directories that were made -/

/-- A path that denotes a directory. -/
def HasDirectory (d : Disk) (p : Path) : Prop :=
  ∃ l, d.locate p = .ok l ∧ d.at? l = some .directory

theorem hasDirectory_of_probe (h : d.probe p = .ok (some .directory)) : d.HasDirectory p := by
  rw [probe] at h
  split at h
  · cases h
  split at h
  next l hl => exact ⟨l, hl, Except.ok.inj h⟩
  · cases h
  · cases h

theorem hasDirectory_of_makeDirectory (h : d.makeDirectory p = .ok d') : d'.HasDirectory p := by
  have hkeeps := (extends_of_makeDirectory h).keeps
  obtain ⟨l, hl, h⟩ := exists_of_bind_eq_ok h
  split at h
  · cases h
  next hnone =>
    cases h
    refine ⟨l, hkeeps.locate (locateFor_eq_ok.mp hl).2, ?_⟩
    have hentry : d.at? l ≠ some .directory := by simp [hnone]
    rw [at?_put (ne_nil_of_at? hentry), if_pos rfl]

theorem hasDirectory_of_ensureDirectory (h : d.ensureDirectory p = .ok d') :
    d'.HasDirectory p := by
  rw [ensureDirectory] at h
  split at h
  · split at h
    · cases h
    next _ hprobe _ =>
      cases h
      exact hasDirectory_of_probe hprobe
    · cases h
  · exact hasDirectory_of_makeDirectory h

theorem hasDirectory_of_attempt (h : ensureAbove.attempt d p = (d', none)) :
    d'.HasDirectory p := by
  rw [ensureAbove.attempt] at h
  split at h
  next hensure =>
    cases h
    exact hasDirectory_of_ensureDirectory hensure
  · cases h

theorem hasDirectory_of_ensureAbove {anchor : Anchor}
    (h : d.ensureAbove anchor parts = (d', none)) : d'.HasDirectory ⟨anchor, parts.reverse⟩ := by
  cases parts with
  | nil => exact hasDirectory_of_attempt h
  | cons part above =>
      rw [ensureAbove] at h
      split at h
      next hensure =>
        cases h
        exact hasDirectory_of_ensureDirectory hensure
      next =>
        split at h
        · exact hasDirectory_of_attempt h
        next hfailed => exact absurd h (hfailed d')
      · cases h

/-- Where making directories succeeds, the last of them is there. -/
theorem hasDirectory_of_makeDirectories (h : d.makeDirectories p = (d', none)) :
    d'.HasDirectory p := by
  have hmade := hasDirectory_of_ensureAbove h
  rwa [List.reverse_reverse] at hmade

end Disk

end StubTree
