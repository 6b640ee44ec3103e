import StubTree.Proofs.Loader.Calls
import StubTree.Proofs.Path

/-! # Linking

The loaders that come about, and what a call for a binary has done once it has a result. Where
every binary was linked to all it references, every binary still is, and the new ones are those
that the result leads to.
-/

namespace StubTree

namespace Library

variable {lib lib' : Library}

/-- What holds of the library of every loader. -/
structure Sound (lib : Library) : Prop where
  nodup : (Keyed.keys lib).Nodup
  named : ∀ entry ∈ lib, entry.2.manifest.name = entry.1
  fullNames : ∀ entry ∈ lib, (entry.2.manifest.types.map TypeDecl.fullName).Nodup

/-- Every binary is linked to the binaries it references: one link for each reference, in order,
to the entry of its short name. -/
structure FullyLinked (lib : Library) : Prop where
  links : ∀ entry ∈ lib, entry.2.links = entry.2.manifest.wantedLinks
  present : ∀ entry ∈ lib, ∀ name ∈ entry.2.manifest.wanted, name ∈ Keyed.keys lib

/-- Every link leads to an entry. -/
def Closed (lib : Library) : Prop :=
  ∀ entry ∈ lib, ∀ link ∈ entry.2.links, ∃ name ∈ Keyed.keys lib, link = .held name

theorem FullyLinked.closed (h : lib.FullyLinked) : lib.Closed := by
  intro entry hentry link hlink
  rw [h.links entry hentry] at hlink
  obtain ⟨reference, hreference, rfl⟩ := List.mem_map.mp hlink
  exact ⟨_, h.present entry hentry _ (List.mem_map_of_mem hreference), rfl⟩

/-- What an entry is linked to are entries. -/
theorem Closed.exists_of_mem_linksOf (h : lib.Closed) {name : String} {link : Link}
    (hname : name ∈ Keyed.keys lib) (hlink : link ∈ lib.linksOf (.held name)) :
    ∃ other ∈ Keyed.keys lib, link = .held other := by
  obtain ⟨binary, hget⟩ := Keyed.exists_get?_of_mem_keys hname
  rw [linksOf, hget] at hlink
  exact h _ (Keyed.mem_of_get? hget) link hlink

/-- What is reached from an entry is an entry. -/
theorem Closed.mem_keys_of_reaches (h : lib.Closed) {a b : String} (ha : a ∈ Keyed.keys lib)
    (hreaches : lib.Reaches a b) : b ∈ Keyed.keys lib := by
  induction hreaches with
  | refl => exact ha
  | tail _ hlink ih =>
      obtain ⟨name, hname, heq⟩ := h.exists_of_mem_linksOf ih hlink
      cases heq
      exact hname

end Library

namespace Loader

variable {disk : Disk} {l l' : Loader} {added : Library} {allowed : Resolver → Prop}

/-- The path from the root that a call opens by itself. -/
def Call.Opens (disk : Disk) : Call → Path → Prop
  | .target path, p => absolute disk path = .ok p
  | .manifest path _, p => absolute disk path = .ok p
  | .identity _, _ => False

/-- The loaders that come about by calls, whatever the disk is at each, and however they end. The
resolvers that are installed on the way are among those allowed. -/
inductive Reached (allowed : Resolver → Prop) : Loader → Prop
  | new (suffix : String) : Reached allowed { suffix }
  | install {l : Loader} {r : Resolver} (h : Reached allowed l) (hr : allowed r) :
      Reached allowed (l.install r)
  | addSearchPaths {l : Loader} (disk : Disk) (paths : List Path) (h : Reached allowed l) :
      Reached allowed (l.addSearchPaths disk paths).1
  | call {l : Loader} (disk : Disk) (c : Call) (h : Reached allowed l) :
      Reached allowed (l.call disk c).1
  | search {l : Loader} (disk : Disk) (identity : String) (h : Reached allowed l) :
      Reached allowed (search disk (load disk) l identity).1

/-! ## Search paths -/

theorem addSearchPath_eq_ok {p : Path} (h : addSearchPath disk l p = .ok l') :
    ∃ dirs, l' = { l with searchPaths := dirs } ∧ l.searchPaths <+: dirs ∧
      (l.searchPaths.Nodup → dirs.Nodup) := by
  obtain ⟨q, -, h⟩ := exists_of_bind_eq_ok h
  cases h
  split
  next => exact ⟨l.searchPaths, rfl, List.prefix_refl _, id⟩
  next hfresh =>
    refine ⟨_, rfl, List.prefix_append _ _, ?_⟩
    intro hnodup
    exact List.nodup_append_comm.mp (List.nodup_cons.mpr ⟨hfresh, hnodup⟩)

theorem absolute_eq_ok {p : Path} (h : p.hasNul = false) :
    absolute disk p = .ok (p.resolve disk.home) := by
  rw [absolute, h, if_neg Bool.false_ne_true]

theorem addSearchPath_of_absolute {p q : Path} (hp : absolute disk p = .ok q) (l : Loader) :
    ∃ dirs, addSearchPath disk l p = .ok { l with searchPaths := dirs } ∧
      ∀ dir, dir ∈ dirs ↔ dir ∈ l.searchPaths ∨ dir = q := by
  rw [addSearchPath, hp]
  by_cases hold : q ∈ l.searchPaths
  · refine ⟨l.searchPaths, congrArg Except.ok (if_pos hold), fun dir => ?_⟩
    rw [iff_self_or]
    rintro rfl
    exact hold
  · refine ⟨_, congrArg Except.ok (if_neg hold), fun dir => ?_⟩
    rw [List.mem_append, List.mem_singleton]

theorem addSearchPaths_fst (disk : Disk) (l : Loader) (paths : List Path) :
    ∃ dirs, (l.addSearchPaths disk paths).1 = { l with searchPaths := dirs } ∧
      l.searchPaths <+: dirs ∧ (l.searchPaths.Nodup → dirs.Nodup) := by
  induction paths generalizing l with
  | nil => exact ⟨l.searchPaths, rfl, List.prefix_refl _, id⟩
  | cons p rest ih =>
      rw [addSearchPaths]
      split
      next l₁ hone =>
        obtain ⟨dirs, rfl, hstays, hnodup⟩ := addSearchPath_eq_ok hone
        obtain ⟨more, hmore, hstays', hnodup'⟩ := ih { l with searchPaths := dirs }
        exact ⟨more, hmore, hstays.trans hstays', hnodup' ∘ hnodup⟩
      next => exact ⟨l.searchPaths, rfl, List.prefix_refl _, id⟩

theorem mem_searchPaths_of_addSearchPaths {paths : List Path}
    (h : l.addSearchPaths disk paths = (l', .ok ())) (dir : Path) :
    dir ∈ l'.searchPaths ↔ dir ∈ l.searchPaths ∨ ∃ p ∈ paths, absolute disk p = .ok dir := by
  induction paths generalizing l with
  | nil =>
      cases h
      simp
  | cons p rest ih =>
      rw [addSearchPaths] at h
      cases hadd : addSearchPath disk l p with
      | error fault =>
          rw [hadd] at h
          cases h
      | ok l₁ =>
          obtain ⟨q, hq, -⟩ := exists_of_bind_eq_ok hadd
          obtain ⟨dirs, hadd', hdirs⟩ := addSearchPath_of_absolute hq l
          rw [hadd] at hadd' h
          cases hadd'
          rw [ih h, hdirs, List.exists_mem_cons_iff, hq, or_assoc, Except.ok.injEq, eq_comm]

/-! ## One call -/

theorem Completes.mono_direct {direct direct' : Path → Prop} {lib : Library} {root : String}
    (h : Completes disk l direct added lib root) (hdirect : ∀ path, direct path → direct' path) :
    Completes disk l direct' added lib root where
  held := h.held
  linked := h.linked
  reached := h.reached
  sources entry hentry := (h.sources entry hentry).imp_left (And.imp_right (hdirect _))

/-- What a call does: some directory may become a search path, then entries are added, and then
the result may become a target. -/
theorem call_adds (disk : Disk) (l : Loader) (c : Call) :
    ∃ dirs added, l.searchPaths <+: dirs ∧ (l.searchPaths.Nodup → dirs.Nodup) ∧
      Adds disk { l with searchPaths := dirs } added
        { (l.call disk c).1 with targets := l.targets } ∧
      (l.IsStandard → ∀ link, (l.call disk c).2 = .ok link → ∃ root, link = .held root ∧
        Completes disk { l with searchPaths := dirs } (c.Opens disk) added
          (l.call disk c).1.library root) := by
  cases c with
  | identity identity =>
      obtain ⟨added, hadds, hresult⟩ := require_supplies disk l identity
      refine ⟨l.searchPaths, added, List.prefix_refl _, id, { hadds with targets := rfl }, ?_⟩
      intro hstd link hlink
      exact ⟨_, (hresult link hlink).2 hstd⟩
  | manifest path expected =>
      obtain ⟨added, hadds, hresult⟩ := load_serves disk l path expected
      refine ⟨l.searchPaths, added, List.prefix_refl _, id, { hadds with targets := rfl }, ?_⟩
      intro hstd link hlink
      cases hroot : (load disk l path expected).2 with
      | error fault =>
          rw [call_manifest, hroot] at hlink
          cases hlink
      | ok root =>
          rw [call_manifest, hroot] at hlink
          cases hlink
          exact ⟨root, rfl, hresult hstd root hroot⟩
  | target path =>
      simp only [call_target, loadTarget, Stack.inside_endless, loadOn_endless]
      split
      next => exact ⟨_, [], List.prefix_refl _, id, .refl disk l, fun _ _ h => by cases h⟩
      next p hp =>
        split
        next => exact ⟨_, [], List.prefix_refl _, id, .refl disk l, fun _ _ h => by cases h⟩
        next l₁ hpath =>
          obtain ⟨dirs, rfl, hstays, hnodup⟩ := addSearchPath_eq_ok hpath
          obtain ⟨added, hadds, hresult⟩ :=
            load_serves disk { l with searchPaths := dirs } p none
          refine ⟨dirs, added, hstays, hnodup, ?_⟩
          cases hcall : load disk { l with searchPaths := dirs } p none with
          | mk last result =>
              rw [hcall] at hadds hresult
              cases result with
              | error fault => exact ⟨{ hadds with targets := rfl }, fun _ _ h => by cases h⟩
              | ok root =>
                  dsimp only
                  constructor
                  · split <;> exact { hadds with targets := rfl }
                  · intro hstd link hlink
                    cases hlink
                    have hopens : ∀ q, absolute disk p = .ok q → (Call.target path).Opens disk q :=
                      fun q hq => absolute_absolute hp hq ▸ hp
                    have hdone := (hresult hstd root rfl).mono_direct hopens
                    refine ⟨root, rfl, ?_⟩
                    split <;> exact hdone

theorem suffix_call (disk : Disk) (l : Loader) (c : Call) :
    (l.call disk c).1.suffix = l.suffix := by
  obtain ⟨dirs, added, -, -, hadds, -⟩ := call_adds disk l c
  exact hadds.suffix

theorem resolver_call (disk : Disk) (l : Loader) (c : Call) :
    (l.call disk c).1.resolver = l.resolver := by
  obtain ⟨dirs, added, -, -, hadds, -⟩ := call_adds disk l c
  exact hadds.resolver

/-! ## The loaders that come about -/

theorem Grows.sound (h : Grows disk l added l') (hsound : l.library.Sound) :
    l'.library.Sound where
  nodup := by
    rw [h.keys_library, List.nodup_append]
    refine ⟨hsound.nodup, h.nodup, ?_⟩
    intro name hold other hnew heq
    exact h.fresh other hnew (heq ▸ hold)
  named := by
    intro entry hentry
    rw [h.library, List.mem_append] at hentry
    exact hentry.elim (hsound.named entry) fun hnew => (h.read entry hnew).1
  fullNames := by
    intro entry hentry
    rw [h.library, List.mem_append] at hentry
    exact hentry.elim (hsound.fullNames entry) fun hnew =>
      (Manifest.load_eq_ok (h.read entry hnew).2).2

/-- Every binary of the library was read from its path, on the disk as it was then. -/
def WasRead (l : Loader) : Prop :=
  ∀ entry ∈ l.library, ∃ disk, Manifest.load disk entry.2.manifest.path = .ok entry.2.manifest

theorem Grows.wasRead (h : Grows disk l added l') (hread : l.WasRead) : l'.WasRead := by
  intro entry hentry
  rw [h.library, List.mem_append] at hentry
  exact hentry.elim (hread entry) fun hnew => ⟨disk, (h.read entry hnew).2⟩

/-- A standard loader finds entries only, whatever it is called for. -/
theorem Grows.closed (h : Grows disk l added l') (hstd : l.IsStandard)
    (hclosed : l.library.Closed) : l'.library.Closed := by
  intro entry hentry link hlink
  rw [h.library, List.mem_append] at hentry
  rcases hentry with hold | hnew
  · obtain ⟨name, hname, heq⟩ := hclosed entry hold link hlink
    exact ⟨name, h.mem_keys hname, heq⟩
  · exact h.held hstd entry hnew link hlink

/-- Looking in the search paths by itself is like any other call. -/
theorem search_grows (disk : Disk) (l : Loader) (identity : String) :
    ∃ added, Adds disk l added (search disk (load disk) l identity).1 :=
  (search_finds (load_serves disk) l identity).imp fun _ h => h.1

namespace Reached

theorem sound (h : l.Reached allowed) : l.library.Sound := by
  induction h with
  | new suffix =>
      refine { nodup := List.nodup_nil, named := ?_, fullNames := ?_ } <;>
        exact fun _ hentry => by cases hentry
  | install _ _ ih => exact ih
  | addSearchPaths disk paths h ih =>
      obtain ⟨dirs, heq, -⟩ := addSearchPaths_fst disk _ paths
      rw [heq]
      exact ih
  | call disk c h ih =>
      obtain ⟨dirs, added, -, -, hadds, -⟩ := call_adds disk _ c
      exact hadds.toGrows.sound ih
  | search disk identity h ih =>
      obtain ⟨added, hadds⟩ := search_grows disk _ identity
      exact hadds.toGrows.sound ih

theorem wasRead (h : l.Reached allowed) : l.WasRead := by
  induction h with
  | new suffix => exact fun _ hentry => by cases hentry
  | install _ _ ih => exact ih
  | addSearchPaths disk paths h ih =>
      obtain ⟨dirs, heq, -⟩ := addSearchPaths_fst disk _ paths
      rw [heq]
      exact ih
  | call disk c h ih =>
      obtain ⟨dirs, added, -, -, hadds, -⟩ := call_adds disk _ c
      exact hadds.toGrows.wasRead ih
  | search disk identity h ih =>
      obtain ⟨added, hadds⟩ := search_grows disk _ identity
      exact hadds.toGrows.wasRead ih

theorem searchPaths_nodup (h : l.Reached allowed) : l.searchPaths.Nodup := by
  induction h with
  | new suffix => exact List.nodup_nil
  | install _ _ ih => exact ih
  | addSearchPaths disk paths h ih =>
      obtain ⟨dirs, heq, -, hnodup⟩ := addSearchPaths_fst disk _ paths
      rw [heq]
      exact hnodup ih
  | call disk c h ih =>
      obtain ⟨dirs, added, -, hnodup, hadds, -⟩ := call_adds disk _ c
      have hpaths := hadds.searchPaths
      dsimp only at hpaths
      exact hpaths ▸ hnodup ih
  | search disk identity h ih =>
      obtain ⟨added, hadds⟩ := search_grows disk _ identity
      rw [hadds.searchPaths]
      exact ih

/-- Where nothing but the search of the search paths was ever installed, links lead to entries.
The induction carries both, since it is the resolver that finds them. -/
theorem standard (h : l.Reached (· = .searchPaths)) : l.IsStandard ∧ l.library.Closed := by
  induction h with
  | new suffix =>
      constructor
      · intro supply hresolver
        cases hresolver
      · intro entry hentry
        cases hentry
  | install _ hr ih =>
      subst hr
      refine ⟨?_, ih.2⟩
      intro supply hresolver
      cases hresolver
  | addSearchPaths disk paths h ih =>
      obtain ⟨dirs, heq, -⟩ := addSearchPaths_fst disk _ paths
      rw [heq]
      exact ih
  | call disk c h ih =>
      obtain ⟨dirs, added, -, -, hadds, -⟩ := call_adds disk _ c
      exact ⟨hadds.isStandard ih.1, hadds.closed ih.1 ih.2⟩
  | search disk identity h ih =>
      obtain ⟨added, hadds⟩ := search_grows disk _ identity
      exact ⟨hadds.isStandard ih.1, hadds.closed ih.1 ih.2⟩

end Reached

/-- A loader whose links lead to entries, and that finds nothing but entries. -/
structure Regular (l : Loader) : Prop where
  sound : l.library.Sound
  standard : l.IsStandard ∧ l.library.Closed

theorem Reached.regular (h : l.Reached (· = .searchPaths)) : l.Regular where
  sound := h.sound
  standard := h.standard

namespace Regular

/-- It does not matter what was installed before. -/
theorem install (hsound : l.library.Sound) (hclosed : l.library.Closed) :
    (l.install .searchPaths).Regular where
  sound := hsound
  standard := by
    refine ⟨?_, hclosed⟩
    intro supply hresolver
    cases hresolver

theorem addSearchPaths (h : l.Regular) (disk : Disk) (paths : List Path) :
    (l.addSearchPaths disk paths).1.Regular := by
  obtain ⟨dirs, heq, -⟩ := addSearchPaths_fst disk l paths
  rw [heq]
  exact ⟨h.sound, h.standard⟩

theorem call (h : l.Regular) (disk : Disk) (c : Call) : (l.call disk c).1.Regular := by
  obtain ⟨dirs, added, -, -, hadds, -⟩ := call_adds disk l c
  exact ⟨hadds.toGrows.sound h.sound, hadds.isStandard h.standard.1,
    hadds.closed h.standard.1 h.standard.2⟩

end Regular

/-! ## Linking -/

/-- What a call that comes to the entry `root` leaves behind. The entries from before stay in
place, and the new ones are those that the root leads to. -/
structure Linking (disk : Disk) (c : Call) (l l' : Loader) (added : Library) (root : String) :
    Prop where
  library : l'.library = l.library ++ added
  searchPaths : l.searchPaths <+: l'.searchPaths ∧ l'.searchPaths.Nodup
  root_mem : root ∈ Keyed.keys l'.library
  mem_added : ∀ name, name ∈ Keyed.keys added ↔
    l'.library.Reaches root name ∧ name ∉ Keyed.keys l.library
  nodup : (Keyed.keys l'.library).Nodup
  named : ∀ entry ∈ l'.library, entry.2.manifest.name = entry.1
  linked : l'.library.FullyLinked
  read : ∀ entry ∈ added, Manifest.load disk entry.2.manifest.path = .ok entry.2.manifest
  sources : ∀ entry ∈ added, (entry.1 = root ∧ c.Opens disk entry.2.manifest.path) ∨
    l'.FoundAt disk entry.1 entry.2.manifest.path

/-- New entries that were linked to all they reference keep a library fully linked. -/
theorem Grows.fullyLinked (h : Grows disk l added l') (hstd : l.IsStandard)
    (hfull : l.library.FullyLinked)
    (hlinked : ∀ entry ∈ added, entry.2.links = entry.2.manifest.wantedLinks) :
    l'.library.FullyLinked where
  links := by
    intro entry hentry
    rw [h.library, List.mem_append] at hentry
    exact hentry.elim (hfull.links entry) (hlinked entry)
  present := by
    intro entry hentry name hname
    rw [h.library, List.mem_append] at hentry
    rcases hentry with hold | hnew
    · exact h.mem_keys (hfull.present entry hold name hname)
    · obtain ⟨reference, hreference, rfl⟩ := List.mem_map.mp hname
      have hlink : Link.held (shortName reference) ∈ entry.2.links := by
        rw [hlinked entry hnew]
        exact List.mem_map_of_mem hreference
      obtain ⟨other, hother, heq⟩ := h.held hstd entry hnew _ hlink
      cases heq
      exact hother

/-- A call with a result, on a standard loader whose binaries are all linked, links the new ones. -/
theorem exists_linking {c : Call} {link : Link} (hreached : l.Reached allowed)
    (hstd : l.IsStandard) (hfull : l.library.FullyLinked)
    (hresult : (l.call disk c).2 = .ok link) :
    ∃ added root, link = .held root ∧ Linking disk c l (l.call disk c).1 added root := by
  obtain ⟨dirs, added, hstays, hnodup, hadds, hserved⟩ := call_adds disk l c
  obtain ⟨root, rfl, hdone⟩ := hserved hstd link hresult
  have hgrows : Grows disk l added (l.call disk c).1 := { hadds.toGrows with }
  have hsound := hgrows.sound hreached.sound
  have hlinked := hgrows.fullyLinked hstd hfull hdone.linked
  have hpaths : (l.call disk c).1.searchPaths = dirs := hadds.searchPaths
  refine ⟨added, root, rfl, ?_⟩
  refine
    { library := hgrows.library
      searchPaths := hpaths ▸ ⟨hstays, hnodup hreached.searchPaths_nodup⟩
      root_mem := hdone.held
      mem_added := ?_
      nodup := hsound.nodup
      named := hsound.named
      linked := hlinked
      read := fun entry hentry => (hgrows.read entry hentry).2
      sources := ?_ }
  · intro name
    constructor
    · exact fun hname => ⟨hdone.reached name hname, hgrows.fresh name hname⟩
    · rintro ⟨hreaches, hnew⟩
      -- What is reached is held, and what is held and was not there before was added.
      have hmem := hlinked.closed.mem_keys_of_reaches hdone.held hreaches
      rw [hgrows.keys_library, List.mem_append] at hmem
      exact hmem.resolve_left hnew
  · intro entry hentry
    exact (hdone.sources entry hentry).imp_right hadds.foundAt_iff.mpr

/-- Linking: on a standard loader whose binaries are all linked to what they reference, every
call that has a result leaves all of them so, whatever circles the references run in. -/
theorem call_linking (c : Call) {link : Link} (hreached : l.Reached allowed)
    (hstd : l.IsStandard) (hfull : l.library.FullyLinked)
    (hresult : (l.call disk c).2 = .ok link) :
    ∃ added root, link = .held root ∧ Linking disk c l (l.call disk c).1 added root :=
  exists_linking hreached hstd hfull hresult

/-- Two directories with manifests that reference one another, and one of them itself. -/
def ringDisk : Disk :=
  ⟨[], [(["a"], .directory), (["b"], .directory),
    (["a", "A.yaml"], .file "name: A\nreferences: ['B, Version=1', A, C, B]".toUTF8),
    (["a", "B.yaml"], .file "name: B\nreferences: [C]".toUTF8),
    (["b", "B.yaml"], .file "name: B\nreferences: [A]".toUTF8),
    (["b", "C.yaml"], .file "name: C\nreferences: [A, B]".toUTF8)]⟩

/-- A loader that searches the second directory. -/
def ringLoader : Loader :=
  (install { suffix := ".yaml" } .searchPaths |>.addSearchPaths ringDisk [⟨.root, ["b"]⟩]).1

set_option maxRecDepth 100000 in
theorem call_linking_ring :
    (ringLoader.call ringDisk (.target ⟨.root, ["a", "A.yaml"]⟩)).2 = .ok (.held "A") ∧
    ∃ added root, Link.held "A" = .held root ∧
      Linking ringDisk (.target ⟨.root, ["a", "A.yaml"]⟩) ringLoader
        (ringLoader.call ringDisk (.target ⟨.root, ["a", "A.yaml"]⟩)).1 added root ∧
      Keyed.keys added = ["A", "B", "C"] := by
  have hresult : (ringLoader.call ringDisk (.target ⟨.root, ["a", "A.yaml"]⟩)).2 =
      .ok (.held "A") := by
    apply eq_ok_of_toOption
    decide +kernel
  have hreached : ringLoader.Reached (fun _ => True) :=
    .addSearchPaths _ _ (.install (.new ".yaml") trivial)
  have hstd : ringLoader.IsStandard := by
    intro supply hresolver
    cases hresolver
  have hempty : ringLoader.library = [] := rfl
  have hfull : ringLoader.library.FullyLinked := by
    constructor <;> simp [hempty]
  obtain ⟨added, root, hroot, hlinking⟩ := call_linking _ hreached hstd hfull hresult
  refine ⟨hresult, added, root, hroot, hlinking, ?_⟩
  have hkeys : Keyed.keys (ringLoader.call ringDisk (.target ⟨.root, ["a", "A.yaml"]⟩)).1.library =
      ["A", "B", "C"] := by
    decide +kernel
  rw [hlinking.library, hempty, List.nil_append] at hkeys
  exact hkeys

end Loader

end StubTree
