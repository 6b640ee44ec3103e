import StubTree.Proofs.Library.Within
import StubTree.Proofs.Loader.Failure
import StubTree.Proofs.Loader.Passage

/-! # Binaries from one directory

Where all manifests are looked up in one directory, it has one manifest for each name, and so a
library that is loaded from it is known by its names: two of them agree on every binary that both
have. Whatever one loader has loaded from the directory, any other one can load as well.
-/

namespace StubTree

namespace Loader

variable {disk disk' : Disk} {dir path : Path} {l l' ref : Loader} {name suffix : String}
  {m : Manifest} {calls more : List (Call × String)}

/-- A path to the file that a directory has for a name. The manifest in it declares that name, if
it can be read at all. -/
structure TargetIn (disk : Disk) (suffix : String) (dir path : Path) (name : String) : Prop where
  absolute : absolute disk path = .ok (dir.entry (name ++ suffix))
  parent : (dir.entry (name ++ suffix)).parent = dir
  declares : ∀ m, Manifest.load disk (dir.entry (name ++ suffix)) = .ok m → m.name = name

/-- The second disk has every manifest of a directory that the first one has. -/
def KeepsManifests (disk disk' : Disk) (suffix : String) (dir : Path) : Prop :=
  ∀ name m, Provides disk suffix [dir] name m → Provides disk' suffix [dir] name m

/-! ## The manifest of a name -/

theorem findFile_of_hasFile {fileName : String} (h : disk.HasFile (dir.entry fileName)) :
    findFile disk fileName [dir] = .ok (some (dir.entry fileName)) := by
  obtain ⟨entry, hprobe, hfile⟩ := h
  rw [findFile, hprobe]
  exact if_pos hfile

theorem findFile_eq_entry {fileName : String} {candidate : Path}
    (h : findFile disk fileName [dir] = .ok (some candidate)) :
    disk.HasFile (dir.entry fileName) ∧ candidate = dir.entry fileName := by
  obtain ⟨before, here, after, hsplit, -, hfile, rfl⟩ := findFile_eq_some h
  obtain rfl : here = dir := by
    have hmem : here ∈ [dir] := hsplit ▸ List.mem_append_right _ List.mem_cons_self
    exact List.mem_singleton.mp hmem
  exact ⟨hfile, rfl⟩

theorem absolute_of_load {q : Path} (hpath : absolute disk q = .ok path)
    (hload : Manifest.load disk path = .ok m) : absolute disk path = .ok path := by
  obtain ⟨here, -, hhere, -⟩ := Disk.exists_file_of_load hload
  have hnul := (Disk.locateFor_eq_ok.mp hhere).1
  cases hself : absolute disk path with
  | ok p => rw [absolute_absolute hpath hself]
  | error fault => simp [absolute, hnul] at hself

theorem readExpected_of_load {expected : Option String} (hpath : absolute disk path = .ok m.path)
    (hload : Manifest.load disk m.path = .ok m) (hname : ∀ name ∈ expected, m.name = name) :
    readExpected disk path expected = .ok m := by
  rw [readExpected, hpath]
  simp only [bind, Except.bind, hload]
  cases expected with
  | none => rfl
  | some name => exact if_pos (beq_iff_eq.mpr (hname name rfl))

/-- What stands on a search path, and no other directory is searched, the directory has. -/
theorem provides_of_foundAt (hpaths : ∀ p ∈ l.searchPaths, p = dir)
    (hfound : l.FoundAt disk m.name m.path) (hload : Manifest.load disk m.path = .ok m) :
    Provides disk l.suffix [dir] m.name m := by
  obtain ⟨before, here, after, hsplit, -, hfile, habsolute⟩ := hfound
  obtain rfl : here = dir := hpaths here (hsplit ▸ List.mem_append_right _ List.mem_cons_self)
  refine ⟨_, findFile_of_hasFile hfile, readExpected_of_load habsolute hload ?_⟩
  rintro _ ⟨⟩
  rfl

/-- The manifest that a directory has for a name is the one in the file of that name. -/
theorem readExpected_of_provides (h : Provides disk suffix [dir] name m) :
    readExpected disk (dir.entry (name ++ suffix)) none = .ok m := by
  obtain ⟨candidate, hfind, hread⟩ := h
  obtain ⟨-, rfl⟩ := findFile_eq_entry hfind
  obtain ⟨hpath, hload, -⟩ := readExpected_eq_ok hread
  exact readExpected_of_load hpath hload fun _ hnone => by cases hnone

theorem absolute_of_home (hhome : disk'.home = disk.home) (p : Path) :
    absolute disk' p = absolute disk p := by
  rw [absolute, absolute, hhome]

/-- The directory of a path from the root comes to itself. -/
theorem eq_parent_of_absolute {p q : Path} (hp : absolute disk path = .ok p)
    (hq : absolute disk p.parent = .ok q) : q = p.parent := by
  rw [absolute] at hp hq
  split at hp
  · cases hp
  split at hq
  · cases hq
  cases hp
  cases hq
  exact Path.resolve_parent_resolve disk.home path

/-- Where all directories and files stay as they are, so do the manifests of a directory. -/
theorem keepsManifests_of_at? (hhome : disk'.home = disk.home)
    (hentries : ∀ l e, disk.at? l = some e → disk'.at? l = some e) :
    KeepsManifests disk disk' suffix dir := by
  have h : disk.Keeps disk' := ⟨hhome, fun l => hentries l _⟩
  rintro name m ⟨path, hfind, hread⟩
  obtain ⟨hfile, rfl⟩ := findFile_eq_entry hfind
  refine ⟨_, findFile_of_hasFile ?_, ?_⟩
  · obtain ⟨l, bytes, hl, hentry⟩ := Disk.hasFile_iff.mp hfile
    exact Disk.hasFile_iff.mpr ⟨l, bytes, h.locateFor hl, hentries l _ hentry⟩
  · obtain ⟨hpath, hload, hname⟩ := readExpected_eq_ok hread
    refine readExpected_of_load ((absolute_of_home hhome _).trans hpath) ?_ hname
    obtain ⟨l, bytes, hl, hentry⟩ := Disk.exists_file_of_load hload
    have hread' := Disk.read_of_at? (h.locateFor hl) (hentries l _ hentry)
    rw [← Disk.read_of_at? hl hentry] at hread'
    rw [Manifest.load, Disk.readFor, hread']
    exact hload

namespace TargetIn

theorem name_eq (h : TargetIn disk suffix dir path name) {p : Path}
    (hpath : Loader.absolute disk path = .ok p) (hload : Manifest.load disk p = .ok m) :
    m.name = name := by
  rw [h.absolute] at hpath
  cases hpath
  exact h.declares m hload

theorem provides (h : TargetIn disk suffix dir path name)
    (hpath : Loader.absolute disk path = .ok m.path) (hload : Manifest.load disk m.path = .ok m) :
    Provides disk suffix [dir] name m := by
  have hname := h.name_eq hpath hload
  have hself := absolute_of_load hpath hload
  rw [h.absolute] at hpath
  have hentry := Except.ok.inj hpath
  refine ⟨dir.entry (name ++ suffix), findFile_of_hasFile ?_, ?_⟩
  · rw [hentry]
    exact Disk.hasFile_of_load hload
  · refine readExpected_of_load ?_ hload ?_
    · rw [hentry]
      exact hself
    · rintro _ ⟨⟩
      exact hname

/-- A target stays one where the directory has a manifest for its name. -/
theorem transfer (h : TargetIn disk suffix dir path name) (hhome : disk'.home = disk.home)
    (hprovides : Provides disk' suffix [dir] name m) : TargetIn disk' suffix dir path name where
  absolute := (absolute_of_home hhome path).trans h.absolute
  parent := h.parent
  declares m' hload' := by
    obtain ⟨hpath, hload, -⟩ := readExpected_eq_ok (readExpected_of_provides hprovides)
    rw [absolute_of_home hhome] at hpath
    rw [absolute_absolute h.absolute hpath, hload'] at hload
    cases hload
    exact hprovides.name_eq

/-- The directory of a target is searched by the name that it has already. -/
theorem absolute_dir (h : TargetIn disk suffix dir path name) {p : Path}
    (hp : Loader.absolute disk dir = .ok p) : p = dir := by
  have hparent := h.parent
  rw [← hparent] at hp
  rw [← hparent]
  exact eq_parent_of_absolute h.absolute hp

end TargetIn

/-! ## Loaders that are stocked from one directory -/

/-- A loader that has looked up all its manifests in one directory. -/
structure Stocked (disk : Disk) (suffix : String) (dir : Path) (l : Loader) : Prop where
  reached : l.Reached (· = .searchPaths)
  suffix_eq : l.suffix = suffix
  searchPaths : ∀ p ∈ l.searchPaths, p = dir
  linked : l.library.FullyLinked
  provides : ∀ entry ∈ l.library, Provides disk suffix [dir] entry.1 entry.2.manifest

namespace Stocked

theorem new (disk : Disk) (suffix : String) (dir : Path) :
    Stocked disk suffix dir { suffix } where
  reached := .new suffix
  suffix_eq := rfl
  searchPaths _ h := by cases h
  linked := by constructor <;> exact fun _ h => by cases h
  provides _ h := by cases h

theorem transfer (h : Stocked disk suffix dir l) (hkeeps : KeepsManifests disk disk' suffix dir) :
    Stocked disk' suffix dir l :=
  { h with provides := fun entry hentry => hkeeps _ _ (h.provides entry hentry) }

theorem install (h : Stocked disk suffix dir l) :
    Stocked disk suffix dir (l.install .searchPaths) :=
  { h with reached := h.reached.install rfl }

theorem addSearchPath (h : Stocked disk suffix dir l) {p : Path} (hp : absolute disk p = .ok dir) :
    ∃ dirs, l.addSearchPath disk p = .ok { l with searchPaths := dirs } ∧ dir ∈ dirs ∧
      Stocked disk suffix dir { l with searchPaths := dirs } := by
  obtain ⟨dirs, hadd, hmem⟩ := addSearchPath_of_absolute hp l
  have hreached := h.reached.addSearchPaths disk [p]
  rw [Loader.addSearchPaths, hadd] at hreached
  have hpaths : ∀ q ∈ dirs, q = dir := fun q hq => ((hmem q).mp hq).elim (h.searchPaths q) id
  exact ⟨dirs, hadd, (hmem dir).mpr (Or.inr rfl),
    { h with reached := hreached, searchPaths := hpaths }⟩

/-- The search paths that are added all come to the directory. -/
theorem addSearchPaths (h : Stocked disk suffix dir l) {paths : List Path}
    (hpaths : ∀ p ∈ paths, absolute disk p = .ok dir) :
    ∃ dirs, l.addSearchPaths disk paths = ({ l with searchPaths := dirs }, .ok ()) ∧
      (dir ∈ l.searchPaths ∨ paths ≠ [] → dir ∈ dirs) ∧
      Stocked disk suffix dir { l with searchPaths := dirs } := by
  induction paths generalizing l with
  | nil => exact ⟨l.searchPaths, rfl, fun hdir => hdir.resolve_right (not_not.mpr rfl), h⟩
  | cons p rest ih =>
      obtain ⟨dirs, hone, hdir, hstocked⟩ := h.addSearchPath (hpaths p List.mem_cons_self)
      obtain ⟨last, hrest, hlast, hstocked'⟩ :=
        ih hstocked fun q hq => hpaths q (List.mem_cons_of_mem _ hq)
      refine ⟨last, ?_, fun _ => hlast (Or.inl hdir), hstocked'⟩
      rw [Loader.addSearchPaths, hone]
      exact hrest

/-! ### Two of them -/

section

variable (h : Stocked disk suffix dir l) (href : Stocked disk suffix dir ref)

include h href

/-- An entry of both is the same in both. -/
theorem get?_eq (hname : name ∈ Keyed.keys l.library) (hheld : name ∈ Keyed.keys ref.library) :
    Keyed.get? name ref.library = Keyed.get? name l.library := by
  obtain ⟨⟨m, links⟩, hget⟩ := Keyed.exists_get?_of_mem_keys hname
  obtain ⟨⟨m', links'⟩, hget'⟩ := Keyed.exists_get?_of_mem_keys hheld
  have hmem := Keyed.mem_of_get? hget
  have hmem' := Keyed.mem_of_get? hget'
  have hprovides' := href.provides _ hmem'
  have hmanifest : m' = m := (h.provides _ hmem).unique hprovides'
  have hlinks : links = m.wantedLinks := h.linked.links _ hmem
  have hlinks' : links' = m'.wantedLinks := href.linked.links _ hmem'
  rw [hget, hget', hlinks, hlinks', hmanifest]

theorem within (hkeys : Keyed.keys l.library ⊆ Keyed.keys ref.library) :
    l.library.Within ref.library :=
  fun _ hname => h.get?_eq href hname (hkeys hname)

/-- What a binary of both leads to in one of them, the other one has. -/
theorem mem_keys_of_reaches {a b : String} (ha : a ∈ Keyed.keys l.library)
    (hheld : a ∈ Keyed.keys ref.library) (hreaches : l.library.Reaches a b) :
    b ∈ Keyed.keys ref.library := by
  have hboth : b ∈ Keyed.keys l.library ∧ b ∈ Keyed.keys ref.library := by
    induction hreaches with
    | refl => exact ⟨ha, hheld⟩
    | @tail c d _ hlink ih =>
        have hlink' := hlink
        rw [Library.linksOf, ← h.get?_eq href ih.1 ih.2] at hlink'
        exact ⟨h.linked.closed.mem_keys_of_reaches ih.1 (.single hlink),
          href.linked.closed.mem_keys_of_reaches ih.2 (.single hlink')⟩
  exact hboth.2

end

/-- Whatever the other loader has, the search for it gets through. -/
theorem passable (h : Stocked disk suffix dir l) (href : Stocked disk suffix dir ref)
    (hresolver : l.resolver = some .searchPaths)
    (hdir : dir ∈ l.searchPaths) :
    Passable disk (fun _ => False) (· ∈ Keyed.keys ref.library) l := by
  have hpaths : l.searchPaths = [dir] := by
    have hnodup := h.reached.searchPaths_nodup
    apply List.perm_singleton.mp
    rw [List.perm_ext_iff_of_nodup hnodup (List.nodup_singleton dir)]
    intro p
    rw [List.mem_singleton]
    exact ⟨h.searchPaths p, fun hp => hp ▸ hdir⟩
  have hprovides : ∀ name ∈ Keyed.keys ref.library, ∃ m,
      Provides disk l.suffix l.searchPaths name m ∧
        ∀ other ∈ m.wanted, other ∈ Keyed.keys ref.library := by
    intro name hname
    obtain ⟨⟨m, links⟩, hget⟩ := Keyed.exists_get?_of_mem_keys hname
    have hmem := Keyed.mem_of_get? hget
    have hm := href.provides _ hmem
    have hwanted := href.linked.present _ hmem
    rw [← h.suffix_eq, ← hpaths] at hm
    exact ⟨m, hm, hwanted⟩
  refine { resolver := hresolver, lookedUp := ?_, found := ?_, read := ?_, wanted := ?_ }
  · intro name fault hname _ hfind
    obtain ⟨m, ⟨path, hpath, -⟩, -⟩ := hprovides name hname
    rw [hfind] at hpath
    cases hpath
  · intro identity hname _ hfind
    obtain ⟨m, ⟨path, hpath, -⟩, -⟩ := hprovides _ hname
    rw [hfind] at hpath
    cases hpath
  · intro name candidate fault hname _ hfind hread
    obtain ⟨m, ⟨path, hpath, hm⟩, -⟩ := hprovides name hname
    rw [hfind] at hpath
    cases hpath
    rw [hread] at hm
    cases hm
  · intro name m hname _ hm
    obtain ⟨m', hm', hwanted⟩ := hprovides name hname
    rw [hm.unique hm'] at hwanted
    exact hwanted

/-- What the other loader has can be loaded as a target. -/
theorem loadTarget_passes (h : Stocked disk suffix dir l) (href : Stocked disk suffix dir ref)
    (hresolver : l.resolver = some .searchPaths)
    (htarget : TargetIn disk suffix dir path name) (hheld : name ∈ Keyed.keys ref.library) :
    Passes (fun _ => False) (l.loadTarget disk path).2 := by
  obtain ⟨⟨m, links⟩, hget⟩ := Keyed.exists_get?_of_mem_keys hheld
  have hmem := Keyed.mem_of_get? hget
  have hprovides := href.provides _ hmem
  have hwanted := href.linked.present _ hmem
  have hread := readExpected_of_provides hprovides
  -- The directory of a path that can be read can be searched, and is the one that is.
  have hparent : absolute disk dir = .ok dir := by
    cases hadd : l.addSearchPath disk (dir.entry (name ++ suffix)).parent with
    | error fault => exact absurd hadd (addSearchPath_ne_error hread)
    | ok _ =>
        obtain ⟨q, hq, -⟩ := exists_of_bind_eq_ok hadd
        rw [htarget.parent] at hq
        rwa [htarget.absolute_dir hq] at hq
  obtain ⟨dirs, hadd, hdir, hstocked⟩ := h.addSearchPath hparent
  have hopens : Opens disk (fun _ => False) (· ∈ Keyed.keys ref.library)
      { l with searchPaths := dirs } (dir.entry (name ++ suffix)) none := by
    refine { read := ?_, wanted := ?_ }
    · rw [hread]
      exact passes_ok m
    · intro m' hm' _
      rw [hread] at hm'
      cases hm'
      exact hwanted
  have hpasses := load_passes (hstocked.passable href hresolver hdir) hopens
  rw [loadTarget, Stack.inside_endless, loadOn_endless, htarget.absolute]
  dsimp only
  rw [htarget.parent, hadd]
  dsimp only
  cases hload : load disk { l with searchPaths := dirs } (dir.entry (name ++ suffix)) none with
  | mk last result =>
      rw [hload] at hpasses
      cases result with
      | ok found => exact passes_ok found
      | error fault => exact (hpasses fault rfl).elim

end Stocked

/-! ## Calls -/

/-- What loading a target does besides what it loads: its directory is a search path, and its name
a target. -/
theorem loadTarget_eq_ok (h : l.loadTarget disk path = (l', .ok name)) :
    ∃ p q, absolute disk path = .ok p ∧ absolute disk p.parent = .ok q ∧
      (∀ dir, dir ∈ l'.searchPaths ↔ dir ∈ l.searchPaths ∨ dir = q) ∧
      (∀ other, other ∈ l'.targets ↔ other ∈ l.targets ∨ other = name) ∧
      (l.targets.Nodup → l'.targets.Nodup) := by
  rw [loadTarget, Stack.inside_endless, loadOn_endless] at h
  split at h
  · cases h
  next p hp =>
    split at h
    · cases h
    next l₁ hadd =>
      obtain ⟨q, hq, -⟩ := exists_of_bind_eq_ok hadd
      obtain ⟨dirs, hadd', hdirs⟩ := addSearchPath_of_absolute hq l
      rw [hadd] at hadd'
      cases hadd'
      obtain ⟨added, hadds, -⟩ := load_serves disk { l with searchPaths := dirs } p none
      split at h
      · cases h
      next last found hload =>
        rw [hload] at hadds
        have hpaths : last.searchPaths = dirs := hadds.searchPaths
        have htargets : last.targets = l.targets := hadds.targets
        cases h
        refine ⟨p, q, hp, hq, ?_, ?_, ?_⟩
        · split <;> exact fun dir => hpaths ▸ hdirs dir
        · split
          next hold =>
            intro other
            rw [htargets, iff_self_or]
            rintro rfl
            exact htargets ▸ hold
          next => simp [htargets]
        · split
          next => exact htargets ▸ id
          next hnew =>
            intro hnodup
            rw [← htargets] at hnodup
            exact List.nodup_append_comm.mp (List.nodup_cons.mpr ⟨hnew, hnodup⟩)

/-- A call that looks up all its manifests in one directory. -/
def Call.In (disk : Disk) (suffix : String) (dir : Path) : Call → Prop
  | .target path => ∃ name, TargetIn disk suffix dir path name
  | .manifest _ _ => False
  | .identity _ => True

/-- A call for what another loader has from the directory. -/
def Call.Held (disk : Disk) (suffix : String) (dir : Path) (ref : Loader) : Call → Prop
  | .target path => ∃ name ∈ Keyed.keys ref.library, TargetIn disk suffix dir path name
  | .manifest _ _ => False
  | .identity asked => shortName asked ∈ Keyed.keys ref.library

theorem Call.Held.in_directory {c : Call} (h : c.Held disk suffix dir ref) :
    c.In disk suffix dir := by
  cases c with
  | target path =>
      obtain ⟨name, -, htarget⟩ := h
      exact ⟨name, htarget⟩
  | manifest path expected => exact h
  | identity identity => trivial

/-- What the other loader has a call gets, by its identity only if the directory is searched. -/
theorem Stocked.call_passes {c : Call} (h : Stocked disk suffix dir l)
    (href : Stocked disk suffix dir ref) (hresolver : l.resolver = some .searchPaths)
    (hheld : c.Held disk suffix dir ref)
    (hsearched : ∀ identity, c = .identity identity → dir ∈ l.searchPaths) :
    Passes (fun _ => False) (l.call disk c).2 := by
  cases c with
  | target path =>
      obtain ⟨name, hname, htarget⟩ := hheld
      exact (h.loadTarget_passes href hresolver htarget hname).map Link.held
  | manifest path expected => exact hheld.elim
  | identity identity =>
      exact require_passes (h.passable href hresolver (hsearched identity rfl)) hheld

/-- What a call that comes to a name does to the targets. -/
theorem targets_call {c : Call} (h : l.call disk c = (l', .ok (.held name))) :
    (∀ other, other ∈ l'.targets ↔ other ∈ l.targets ∨ (∃ path, c = .target path) ∧ other = name) ∧
      (l.targets.Nodup → l'.targets.Nodup) := by
  cases c with
  | target path =>
      cases htarget : l.loadTarget disk path with
      | mk last result =>
          rw [call_target, htarget] at h
          cases result with
          | error fault => cases h
          | ok found =>
              cases h
              obtain ⟨p, q, -, -, -, hmem, hnodup⟩ := loadTarget_eq_ok htarget
              exact ⟨by simpa using hmem, hnodup⟩
  | manifest path expected =>
      obtain ⟨added, hadds, -⟩ := load_serves disk l path expected
      have htargets := hadds.targets.symm.trans (congrArg (·.1.targets) h)
      dsimp only at htargets
      simp [← htargets]
  | identity identity =>
      obtain ⟨added, hadds, -⟩ := require_supplies disk l identity
      rw [call] at h
      rw [h] at hadds
      have htargets : l'.targets = l.targets := hadds.targets
      simp [htargets]

/-- Calls that come to names, one after the other. -/
inductive Calls (disk : Disk) : Loader → List (Call × String) → Loader → Prop
  | nil (l : Loader) : Calls disk l [] l
  | cons {l l' l'' : Loader} {c : Call} {name : String} {calls : List (Call × String)}
      (h : l.call disk c = (l', .ok (.held name))) (hrest : Calls disk l' calls l'') :
      Calls disk l ((c, name) :: calls) l''

/-- A call that looks up its manifests in the directory searches no other one. -/
theorem Stocked.searchPaths_call {c : Call} (h : Stocked disk suffix dir l)
    (hc : c.In disk suffix dir) (hcall : l.call disk c = (l', .ok (.held name))) :
    (∀ p ∈ l'.searchPaths, p = dir) ∧
      (dir ∈ l.searchPaths ∨ (∃ path, c = .target path) → dir ∈ l'.searchPaths) := by
  cases c with
  | target path =>
      obtain ⟨other, htarget⟩ := hc
      cases hload : l.loadTarget disk path with
      | mk last result =>
          rw [Loader.call, hload] at hcall
          cases result with
          | error fault => cases hcall
          | ok found =>
              cases hcall
              obtain ⟨p, q, hp, hq, hmem, -⟩ := loadTarget_eq_ok hload
              rw [htarget.absolute] at hp
              cases hp
              rw [htarget.parent] at hq
              obtain rfl : q = dir := htarget.absolute_dir hq
              refine ⟨?_, fun _ => (hmem q).mpr (Or.inr rfl)⟩
              exact fun p hp => ((hmem p).mp hp).elim (h.searchPaths p) id
  | manifest path expected => exact hc.elim
  | identity identity =>
      obtain ⟨added, hadds, -⟩ := require_supplies disk l identity
      rw [Loader.call] at hcall
      rw [hcall] at hadds
      have hpaths : l'.searchPaths = l.searchPaths := hadds.searchPaths
      rw [hpaths]
      exact ⟨h.searchPaths, fun hdir => hdir.resolve_right (by simp)⟩

theorem Stocked.call {c : Call} (h : Stocked disk suffix dir l) (hc : c.In disk suffix dir)
    (hcall : l.call disk c = (l', .ok (.held name))) : Stocked disk suffix dir l' := by
  obtain ⟨hpaths, -⟩ := h.searchPaths_call hc hcall
  obtain ⟨added, root, -, hlinking⟩ :=
    exists_linking h.reached h.reached.standard.1 h.linked (congrArg Prod.snd hcall)
  have hreached := h.reached.call disk c
  have hsuffix := (suffix_call disk l c).trans h.suffix_eq
  rw [hcall] at hlinking hreached hsuffix
  refine
    { reached := hreached
      suffix_eq := hsuffix
      searchPaths := hpaths
      linked := hlinking.linked
      provides := ?_ }
  intro entry hentry
  have hnamed := hlinking.named entry hentry
  rw [hlinking.library, List.mem_append] at hentry
  rcases hentry with hold | hnew
  · exact h.provides entry hold
  have hread := hlinking.read entry hnew
  rw [← hnamed]
  -- A new manifest stands in the directory, as the target itself or where it was found.
  rcases hlinking.sources entry hnew with ⟨-, hopens⟩ | hfound
  · cases c with
    | target path =>
        obtain ⟨other, htarget⟩ := hc
        rw [htarget.name_eq hopens hread]
        exact htarget.provides hopens hread
    | manifest path expected => exact hc.elim
    | identity identity => exact hopens.elim
  · rw [← hnamed] at hfound
    exact hsuffix ▸ provides_of_foundAt hpaths hfound hread

namespace Calls

theorem append {l'' : Loader} (h : Calls disk l calls l') (h' : Calls disk l' more l'') :
    Calls disk l (calls ++ more) l'' := by
  induction h with
  | nil => exact h'
  | cons hcall _ ih => exact .cons hcall (ih h')

theorem resolver_eq (h : Calls disk l calls l') : l'.resolver = l.resolver := by
  induction h with
  | nil => rfl
  | @cons l _ _ c _ _ hcall _ ih =>
      have hone := resolver_call disk l c
      rw [hcall] at hone
      exact ih.trans hone

/-- The targets are those from before, and the names that targets were loaded by. -/
theorem targets (h : Calls disk l calls l') :
    (∀ name, name ∈ l'.targets ↔ name ∈ l.targets ∨ ∃ path, (.target path, name) ∈ calls) ∧
      (l.targets.Nodup → l'.targets.Nodup) := by
  induction h with
  | nil => simp
  | cons hcall _ ih =>
      obtain ⟨hmem, hnodup⟩ := targets_call hcall
      refine ⟨fun other => ?_, ih.2 ∘ hnodup⟩
      rw [ih.1, hmem]
      simp only [List.mem_cons, Prod.mk.injEq, exists_or, exists_and_right, eq_comm, or_assoc]

section

variable (h : Calls disk l calls l') (hstocked : Stocked disk suffix dir l)
  (hcalls : ∀ call ∈ calls, call.1.In disk suffix dir)

include h hstocked hcalls

theorem stocked : Stocked disk suffix dir l' := by
  induction h with
  | nil => exact hstocked
  | cons hcall _ ih =>
      exact ih (hstocked.call (hcalls _ List.mem_cons_self) hcall)
        fun call hmem => hcalls call (List.mem_cons_of_mem _ hmem)

/-- The directory is searched after the first target, if it was not before. -/
theorem mem_searchPaths (hdir : dir ∈ l.searchPaths ∨ ∃ path name, (.target path, name) ∈ calls) :
    dir ∈ l'.searchPaths := by
  induction h with
  | nil => simpa using hdir
  | cons hcall _ ih =>
      have hone := hcalls _ List.mem_cons_self
      have hsearched := (hstocked.searchPaths_call hone hcall).2
      apply ih (hstocked.call hone hcall) fun call hmem => hcalls call (List.mem_cons_of_mem _ hmem)
      rcases hdir with hdir | ⟨path, name, hmem⟩
      · exact Or.inl (hsearched (Or.inl hdir))
      · rcases List.mem_cons.mp hmem with heq | hmem
        · exact Or.inl (hsearched (Or.inr ⟨path, (Prod.mk.inj heq).1.symm⟩))
        · exact Or.inr ⟨path, name, hmem⟩

/-- What calls load the other loader has, if it has what they come to. -/
theorem keys_subset (href : Stocked disk suffix dir ref)
    (hkeys : Keyed.keys l.library ⊆ Keyed.keys ref.library)
    (hnames : ∀ call ∈ calls, call.2 ∈ Keyed.keys ref.library) :
    Keyed.keys l'.library ⊆ Keyed.keys ref.library := by
  induction h with
  | nil => exact hkeys
  | @cons l l₁ _ c name _ hcall _ ih =>
      have hnext := hstocked.call (hcalls _ List.mem_cons_self) hcall
      apply ih hnext fun call hmem => hcalls call (List.mem_cons_of_mem _ hmem)
      · obtain ⟨added, root, hroot, hlinking⟩ := exists_linking hstocked.reached
          hstocked.reached.standard.1 hstocked.linked (congrArg Prod.snd hcall)
        rw [hcall] at hlinking
        cases hroot
        intro other hother
        by_cases hold : other ∈ Keyed.keys l.library
        · exact hkeys hold
        have hreaches : l₁.library.Reaches name other := by
          rw [hlinking.library, Keyed.keys_append, List.mem_append] at hother
          exact ((hlinking.mem_added other).mp (hother.resolve_left hold)).1
        have hheld := hnames _ List.mem_cons_self
        exact hnext.mem_keys_of_reaches href hlinking.root_mem hheld hreaches
      · exact fun call hmem => hnames call (List.mem_cons_of_mem _ hmem)

end

end Calls

end Loader

end StubTree
