import StubTree.Proofs.Disk.Walks
import StubTree.Proofs.Loader.Linking

/-! # What can stop a call

A call for a binary fails only where a file cannot be looked up, found or read. It never goes too
deep: every manifest on the way down has a file of its own on the disk, and its name enters the
library before its references are followed.
-/

namespace StubTree

/-! ## The files of manifests -/

namespace Disk

variable {disk : Disk} {p q : Path} {bytes : ByteArray} {m : Manifest}

theorem exists_file_of_read (h : disk.read p = .ok bytes) :
    ∃ l, disk.locateFor p = .ok l ∧ disk.at? l = some (.file bytes) := by
  obtain ⟨l, hl, h⟩ := exists_of_bind_eq_ok h
  refine ⟨l, hl, ?_⟩
  split at h
  next hfile =>
    cases h
    exact hfile
  · cases h
  · cases h

theorem exists_file_of_load (h : Manifest.load disk p = .ok m) :
    ∃ l bytes, disk.locateFor p = .ok l ∧ disk.at? l = some (.file bytes) := by
  obtain ⟨bytes, hread, -⟩ := exists_of_bind_eq_ok h
  rw [readFor] at hread
  obtain ⟨l, hl, hfile⟩ := exists_file_of_read (eq_ok_of_mapError hread)
  exact ⟨l, bytes, hl, hfile⟩

/-- A path names a file where it leads to the location of one. -/
theorem hasFile_iff :
    disk.HasFile p ↔ ∃ l bytes, disk.locateFor p = .ok l ∧ disk.at? l = some (.file bytes) := by
  constructor
  · rintro ⟨entry, hprobe, hfile⟩
    rw [probe] at hprobe
    split at hprobe
    · cases hprobe
      cases hfile
    next hnul =>
      split at hprobe
      next l hlocate =>
        cases hprobe
        refine ⟨l, ?_⟩
        rw [locateFor_eq_ok.mpr ⟨by simpa using hnul, hlocate⟩]
        cases hentry : disk.at? l with
        | none =>
            rw [hentry] at hfile
            cases hfile
        | some e =>
            rw [hentry] at hfile
            cases e with
            | directory => cases hfile
            | file bytes => exact ⟨bytes, rfl, rfl⟩
      · cases hprobe
      · cases hprobe
        cases hfile
  · rintro ⟨l, bytes, hl, hfile⟩
    obtain ⟨hnul, hlocate⟩ := locateFor_eq_ok.mp hl
    refine ⟨some (.file bytes), ?_, rfl⟩
    rw [probe, hnul, hlocate, ← hfile]
    rfl

theorem hasFile_of_load (h : Manifest.load disk p = .ok m) : disk.HasFile p :=
  hasFile_iff.mpr (exists_file_of_load h)

/-- A path from the root that leads to a file spells the location of that file. -/
theorem eq_of_locateFor {l : Location} (hp : Loader.absolute disk q = .ok p)
    (hl : disk.locateFor p = .ok l) : p = ⟨.root, l⟩ := by
  rw [Loader.absolute] at hp
  split at hp
  · cases hp
  cases hp
  have hlocate := (locateFor_eq_ok.mp hl).2
  rw [locate] at hlocate
  split at hlocate
  · cases hlocate
  rw [walk_of_dots_not_mem (Path.dots_not_mem_collapse List.not_mem_nil _) hlocate]
  rfl

/-- The names that the manifests on a disk declare, one for each file that has a manifest. -/
def declaredNames (disk : Disk) : List String :=
  disk.entries.filterMap fun (l, e) =>
    if isFile (some e) then (Manifest.load disk ⟨.root, l⟩).toOption.map (·.name) else none

theorem length_declaredNames_le (disk : Disk) : disk.declaredNames.length ≤ disk.fileCount := by
  rw [declaredNames, fileCount, List.length_filterMap_eq_countP]
  apply List.countP_mono_left
  rintro ⟨l, e⟩ - hsome
  dsimp only at hsome ⊢
  split at hsome
  next hfile => exact hfile
  next => cases hsome

theorem name_mem_declaredNames (hp : Loader.absolute disk q = .ok p)
    (hload : Manifest.load disk p = .ok m) : m.name ∈ disk.declaredNames := by
  obtain ⟨l, bytes, hl, hfile⟩ := exists_file_of_load hload
  have hspelled := eq_of_locateFor hp hl
  subst hspelled
  have hentry : disk.at? l ≠ some .directory := by simp [hfile]
  have hne : l ≠ [] := ne_nil_of_at? hentry
  have hget : Keyed.get? l disk.entries = some (.file bytes) := by
    rw [at?, if_neg (by simpa using hne)] at hfile
    exact hfile
  refine List.mem_filterMap.mpr ⟨(l, .file bytes), Keyed.mem_of_get? hget, ?_⟩
  dsimp only
  rw [hload]
  rfl

end Disk

namespace Loader

variable {disk : Disk} {l l' : Loader} {m : Manifest} {name : String} {dirs : List Path}
  {tolerated : Fault → Prop} {good : String → Prop} {fuel : Nat}

/-- The manifest that directories have for a name: it is in the first file of that name, and
declares it. -/
def Provides (disk : Disk) (suffix : String) (dirs : List Path) (name : String) (m : Manifest) :
    Prop :=
  ∃ path, findFile disk (name ++ suffix) dirs = .ok (some path) ∧
    readExpected disk path (some name) = .ok m

theorem Provides.name_eq {suffix : String} (h : Provides disk suffix dirs name m) :
    m.name = name := by
  obtain ⟨path, -, hread⟩ := h
  exact (readExpected_eq_ok hread).2.2 name rfl

theorem Provides.unique {suffix : String} {m' : Manifest} (h : Provides disk suffix dirs name m)
    (h' : Provides disk suffix dirs name m') : m' = m := by
  obtain ⟨path, hfind, hread⟩ := h
  obtain ⟨path', hfind', hread'⟩ := h'
  rw [hfind] at hfind'
  cases hfind'
  rw [hread] at hread'
  cases hread'
  rfl

/-! ## What is tolerated -/

/-- Whatever stops a call for one of the good names is tolerated, and what a good name references
is good. -/
structure Passable (disk : Disk) (tolerated : Fault → Prop) (good : String → Prop) (l : Loader) :
    Prop where
  resolver : l.resolver = some .searchPaths
  lookedUp : ∀ name fault, good name → name ∉ Keyed.keys l.library →
    findFile disk (name ++ l.suffix) l.searchPaths = .error fault → tolerated fault
  found : ∀ identity, good (shortName identity) → shortName identity ∉ Keyed.keys l.library →
    findFile disk (shortName identity ++ l.suffix) l.searchPaths = .ok none →
    tolerated (.binaryNotFound identity l.searchPaths)
  read : ∀ name path fault, good name → name ∉ Keyed.keys l.library →
    findFile disk (name ++ l.suffix) l.searchPaths = .ok (some path) →
    readExpected disk path (some name) = .error fault → tolerated fault
  wanted : ∀ name m, good name → name ∉ Keyed.keys l.library →
    Provides disk l.suffix l.searchPaths name m → ∀ other ∈ m.wanted, good other

/-- There is room for the manifests that are not loaded: they have fewer names than loading may go
deep. -/
def Room (disk : Disk) (fuel : Nat) (l : Loader) : Prop :=
  ∃ names : List String, names.length < fuel ∧
    ∀ name ∈ disk.declaredNames, name ∉ Keyed.keys l.library → name ∈ names

/-- A later loader, with the same search and more binaries. -/
structure Onward (l l' : Loader) : Prop where
  resolver : l'.resolver = l.resolver
  suffix : l'.suffix = l.suffix
  searchPaths : l'.searchPaths = l.searchPaths
  keys : Keyed.keys l.library ⊆ Keyed.keys l'.library

theorem Adds.onward {added : Library} (h : Adds disk l added l') : Onward l l' where
  resolver := h.resolver
  suffix := h.suffix
  searchPaths := h.searchPaths
  keys _ hname := h.mem_keys hname

theorem onward_addLink (l : Loader) (name : String) (link : Link) :
    Onward l (l.addLink name link) := by
  rw [addLink_eq]
  refine { resolver := rfl, suffix := rfl, searchPaths := rfl, keys := ?_ }
  rw [addLink]
  split
  next => exact fun _ hname => hname
  next => exact fun _ hname => Keyed.mem_keys_set.mpr (Or.inr hname)

theorem Passable.onward (h : Passable disk tolerated good l) (hon : Onward l l') :
    Passable disk tolerated good l' where
  resolver := hon.resolver.trans h.resolver
  lookedUp name fault hgood hnew := by
    rw [hon.suffix, hon.searchPaths]
    exact h.lookedUp name fault hgood fun hold => hnew (hon.keys hold)
  found identity hgood hnew := by
    rw [hon.suffix, hon.searchPaths]
    exact h.found identity hgood fun hold => hnew (hon.keys hold)
  read name path fault hgood hnew := by
    rw [hon.suffix, hon.searchPaths]
    exact h.read name path fault hgood fun hold => hnew (hon.keys hold)
  wanted name m hgood hnew := by
    rw [hon.suffix, hon.searchPaths]
    exact h.wanted name m hgood fun hold => hnew (hon.keys hold)

theorem Room.onward (h : Room disk fuel l) (hon : Onward l l') : Room disk fuel l' := by
  obtain ⟨names, hlength, hnames⟩ := h
  exact ⟨names, hlength, fun name hname hnew => hnames name hname fun hold => hnew (hon.keys hold)⟩

/-- Entering a name leaves room for one less. -/
theorem Room.enter (h : Room disk (fuel + 1) l) (hname : m.name ∈ disk.declaredNames)
    (hnew : m.name ∉ Keyed.keys l.library) : Room disk fuel (l.enter m) := by
  obtain ⟨names, hlength, hnames⟩ := h
  have hmem := hnames m.name hname hnew
  have hpos := List.length_pos_of_mem hmem
  refine ⟨names.erase m.name, ?_, ?_⟩
  · rw [List.length_erase_of_mem hmem]
    omega
  · intro other hother hnew'
    have hkeys : other ∈ Keyed.keys (l.enter m).library ↔
        other = m.name ∨ other ∈ Keyed.keys l.library := Keyed.mem_keys_set
    rw [hkeys, not_or] at hnew'
    exact (List.mem_erase_of_ne hnew'.1).mpr (hnames other hother hnew'.2)

/-- Loading may go as deep as the disk has manifests, and one deeper. -/
theorem room_of_disk (disk : Disk) (l : Loader) : Room disk (depthBound disk) l :=
  ⟨disk.declaredNames, Nat.lt_succ_of_le disk.length_declaredNames_le, fun _ hname _ => hname⟩

/-! ## Calls -/

/-- A failure is one of those that are tolerated. -/
def Passes {α : Type} (tolerated : Fault → Prop) (result : Except Fault α) : Prop :=
  ∀ fault, result = .error fault → tolerated fault

theorem passes_ok {α : Type} (a : α) : Passes tolerated (.ok a) := fun _ h => by cases h

theorem passes_error {α : Type} {fault : Fault} (h : tolerated fault) :
    Passes tolerated (.error fault : Except Fault α) := by
  rintro _ ⟨⟩
  exact h

/-- Steps one after the other fail as they may, if each of them does. -/
theorem Passes.bind {α β : Type} {first : Except Fault α}
    {next : α → Except Fault β}
    (h : Passes tolerated first) (hnext : ∀ a, first = .ok a → Passes tolerated (next a)) :
    Passes tolerated (first >>= next) := by
  cases first with
  | error fault => exact passes_error (h fault rfl)
  | ok a => exact hnext a rfl

theorem Passes.mono {α : Type} {other : Fault → Prop} {result : Except Fault α}
    (h : Passes tolerated result)
    (hmono : ∀ fault, tolerated fault → other fault) : Passes other result :=
  fun fault hfault => hmono fault (h fault hfault)

theorem Passes.map {α β : Type} {result : Except Fault α} (h : Passes tolerated result)
    (f : α → β) :
    Passes tolerated (f <$> result) := by
  cases result with
  | error fault => exact passes_error (h fault rfl)
  | ok a => exact passes_ok _

theorem exists_ok_of_passes {α : Type} {result : Except Fault α}
    (h : Passes (fun _ => False) result) : ∃ a, result = .ok a := by
  cases result with
  | error fault => exact (h fault rfl).elim
  | ok a => exact ⟨a, rfl⟩

/-- Following references gets through where requiring each of them does. The loader that every
next one meets has more binaries, and the same search. -/
theorem linkAll_passes {require : Loader → String → Loader × Except Fault Link}
    (hrequire : ∀ l identity, Supplies disk l identity (require l identity))
    (hpasses : ∀ l identity, Passable disk tolerated good l → Room disk fuel l →
      good (shortName identity) → Passes tolerated (require l identity).2)
    (entered : String) {references : List String}
    (hgood : ∀ reference ∈ references, good (shortName reference))
    (hpassable : Passable disk tolerated good l) (hroom : Room disk fuel l) :
    Passes tolerated (linkAll require entered references l).2 := by
  induction references generalizing l with
  | nil => exact passes_ok ()
  | cons reference rest ih =>
      have hone := hpasses l reference hpassable hroom (hgood reference List.mem_cons_self)
      obtain ⟨added, hadds, -⟩ := hrequire l reference
      rw [linkAll]
      cases hcall : require l reference with
      | mk last result =>
          rw [hcall] at hone hadds
          cases result with
          | error fault =>
              exact passes_error (hone fault rfl)
          | ok link =>
              have hlinked := onward_addLink last entered link
              exact ih (fun other hother => hgood other (List.mem_cons_of_mem _ hother))
                ((hpassable.onward hadds.onward).onward hlinked)
                ((hroom.onward hadds.onward).onward hlinked)

/-- What loading a manifest takes to get through: a fault of its own is tolerated, and if it is
new, what it references is good. -/
structure Opens (disk : Disk) (tolerated : Fault → Prop) (good : String → Prop) (l : Loader)
    (path : Path) (expected : Option String) : Prop where
  read : Passes tolerated (readExpected disk path expected)
  wanted : ∀ m, readExpected disk path expected = .ok m → m.name ∉ Keyed.keys l.library →
    ∀ name ∈ m.wanted, good name

theorem requireWith_passes {load : Load} {identity : String}
    (hload : ∀ path expected, Opens disk tolerated good l path expected →
      Passes tolerated (load l path expected).2)
    (hread : ∀ path expected name, (load l path expected).2 = .ok name →
      ∃ m, readExpected disk path expected = .ok m ∧ m.name = name)
    (hpassable : Passable disk tolerated good l) (hgood : good (shortName identity)) :
    Passes tolerated (requireWith disk load l identity).2 := by
  rw [requireWith]
  cases hget : l.get? identity with
  | some b => exact passes_ok _
  | none =>
      have hnew : shortName identity ∉ Keyed.keys l.library := Keyed.get?_eq_none_iff.mp hget
      simp only [ask, hpassable.resolver, search]
      cases hfind : findFile disk (shortName identity ++ l.suffix) l.searchPaths with
      | error fault =>
          exact passes_error (hpassable.lookedUp _ fault hgood hnew hfind)
      | ok found =>
          cases found with
          | none =>
              exact passes_error (hpassable.found identity hgood hnew hfind)
          | some path =>
              have hopens : Opens disk tolerated good l path (some (shortName identity)) :=
                { read := fun fault => hpassable.read _ path fault hgood hnew hfind
                  wanted := fun m hm _ =>
                    hpassable.wanted _ m hgood hnew ⟨path, hfind, hm⟩ }
              have hpasses := hload path _ hopens
              have hname := hread path (some (shortName identity))
              dsimp only
              cases hcall : load l path (some (shortName identity)) with
              | mk last result =>
                  rw [hcall] at hpasses hname
                  cases result with
                  | error fault =>
                      exact passes_error (hpasses fault rfl)
                  | ok name =>
                      -- What was loaded has the name that was asked for, so it is not refused.
                      obtain ⟨m, hm, rfl⟩ := hname name rfl
                      have hsame : (Link.held m.name).name = shortName identity :=
                        (readExpected_eq_ok hm).2.2 _ rfl
                      dsimp only
                      rw [accept_of_name hsame]
                      exact passes_ok _

theorem loadWithin_passes {path : Path} {expected : Option String}
    (hpassable : Passable disk tolerated good l) (hroom : Room disk fuel l)
    (hopens : Opens disk tolerated good l path expected) :
    Passes tolerated (loadWithin disk .endless fuel l path expected).2 := by
  induction fuel generalizing l path expected with
  | zero =>
      obtain ⟨names, hlength, -⟩ := hroom
      exact absurd hlength (Nat.not_lt_zero _)
  | succ fuel ih =>
      rw [loadWithin, Stack.inside_endless]
      cases hread : readExpected disk path expected with
      | error fault =>
          exact passes_error (hopens.read fault hread)
      | ok m =>
          dsimp only
          cases hget : Keyed.get? m.name l.library with
          | some b => exact passes_ok _
          | none =>
              have hnew := Keyed.get?_eq_none_iff.mp hget
              obtain ⟨hpath, hload, -⟩ := readExpected_eq_ok hread
              have henter := (Adds.enter hload hnew).onward
              have hlinked := linkAll_passes
                (requireWith_supplies (loadWithin_serves .endless fuel))
                (fun l identity hp hr hgood => requireWith_passes
                  (fun path expected hopens => ih hp hr hopens)
                  (fun path expected name => exists_read_of_loadWithin) hp hgood)
                m.name
                (fun reference hreference => hopens.wanted m hread hnew _
                  (List.mem_map_of_mem hreference))
                (hpassable.onward henter)
                (hroom.enter (Disk.name_mem_declaredNames hpath hload) hnew)
              dsimp only
              cases hcall : linkAll (requireWith disk (loadWithin disk .endless fuel)) m.name
                  m.references (l.enter m) with
              | mk last result =>
                  rw [hcall] at hlinked
                  cases result with
                  | error fault =>
                      exact passes_error (hlinked fault rfl)
                  | ok done => exact passes_ok _

/-- Loading a manifest fails only as it may. -/
theorem load_passes {path : Path} {expected : Option String}
    (hpassable : Passable disk tolerated good l)
    (hopens : Opens disk tolerated good l path expected) :
    Passes tolerated (load disk l path expected).2 :=
  loadWithin_passes hpassable (room_of_disk disk l) hopens

/-- Requiring a good name fails only as it may. -/
theorem require_passes {identity : String} (hpassable : Passable disk tolerated good l)
    (hgood : good (shortName identity)) : Passes tolerated (require disk l identity).2 :=
  requireWith_passes (fun _ _ hopens => load_passes hpassable hopens)
    (fun _ _ _ => exists_read_of_load) hpassable hgood

end Loader

end StubTree
