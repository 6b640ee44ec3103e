import StubTree.Proofs.Loader.Linking

/-! # Calls that fail

A call that cannot read the manifest it opens leaves the library as it was. One that fails later,
on a reference at whatever depth, leaves the binary that it opened in the library, short of links;
since a binary that is there is never loaded again, no later call links it any further.
-/

namespace StubTree.Loader

variable {disk : Disk} {l l' : Loader} {m : Manifest} {links : List Link} {added : Library}
  {path : Path} {expected : Option String} {identity : String} {fault : Fault}

/-- The manifest that a call opens: the one at its path, or the one that the search paths have for
an identity. -/
def Call.Reads (disk : Disk) (l : Loader) : Call → Manifest → Prop
  | .target path, m => ∃ p, absolute disk path = .ok p ∧ readExpected disk p none = .ok m
  | .manifest path expected, m => readExpected disk path expected = .ok m
  | .identity identity, m => ∃ path,
      findFile disk (shortName identity ++ l.suffix) l.searchPaths = .ok (some path) ∧
        readExpected disk path (some (shortName identity)) = .ok m

/-- A binary that a failed call has opened and left behind. It is linked to the references before
the one that failed, and every later call for it comes to it as it is, whatever the disk has by
then. -/
structure Stranded (disk : Disk) (l : Loader) (m : Manifest) (links : List Link) (added : Library)
    (l' : Loader) : Prop extends Grows disk l ((m.name, ⟨m, links⟩) :: added) l' where
  short : links.length < m.references.length
  stays : ∀ disk' c, Keyed.get? m.name (l'.call disk' c).1.library = some ⟨m, links⟩
  loaded : ∀ disk' path expected m', readExpected disk' path expected = .ok m' →
    m'.name = m.name → load disk' l' path expected = (l', .ok m.name)
  required : ∀ disk' identity, shortName identity = m.name →
    l'.require disk' identity = (l', .ok (.held m.name))

/-- What a failed call leaves behind: nothing, if it opened no manifest; else a stranded binary. -/
def Leaves (disk : Disk) (l : Loader) (reads : Manifest → Prop) (l' : Loader) : Prop :=
  ((∀ m, ¬ reads m) ∧ l'.library = l.library) ∨
    ∃ m links added, reads m ∧ Stranded disk l m links added l'

/-! ## Entries that are there -/

theorem get?_call {b : Binary} {name : String} (hget : Keyed.get? name l.library = some b)
    (disk : Disk) (c : Call) : Keyed.get? name (l.call disk c).1.library = some b := by
  obtain ⟨dirs, added, -, -, hadds, -⟩ := call_adds disk l c
  have hlibrary : (l.call disk c).1.library = l.library ++ added := hadds.library
  rw [hlibrary, Keyed.get?_append_of_mem (Keyed.mem_keys_of_get? hget), hget]

theorem load_of_get? {b : Binary} (hread : readExpected disk path expected = .ok m)
    (hget : Keyed.get? m.name l.library = some b) :
    load disk l path expected = (l, .ok m.name) := by
  rw [load, loadOn, depthBound, loadWithin, hread]
  dsimp only
  rw [hget]

theorem require_of_get? {b : Binary} (hget : Keyed.get? (shortName identity) l.library = some b) :
    l.require disk identity = (l, .ok (.held (shortName identity))) := by
  have hcached : l.get? identity = some b := hget
  rw [require, requireWith, hcached]

theorem Stranded.of_grows (h : Grows disk l ((m.name, ⟨m, links⟩) :: added) l')
    (hshort : links.length < m.references.length) : Stranded disk l m links added l' := by
  have hget : Keyed.get? m.name l'.library = some ⟨m, links⟩ := by
    rw [h.library, Keyed.get?_append_of_not_mem (h.fresh m.name List.mem_cons_self),
      Keyed.get?_cons, if_pos rfl]
  refine { h with short := hshort, stays := get?_call hget, loaded := ?_, required := ?_ }
  · intro disk' path expected m' hread hname
    rw [← hname] at hget ⊢
    exact load_of_get? hread hget
  · intro disk' identity hname
    rw [← hname] at hget ⊢
    exact require_of_get? hget

/-! ## Failures -/

/-- Loading fails on the manifest itself, before it enters, or on one of its references. -/
theorem load_failed (h : (load disk l path expected).2 = .error fault) :
    Leaves disk l (fun m => readExpected disk path expected = .ok m)
      (load disk l path expected).1 := by
  rw [load, loadOn, depthBound, loadWithin, Stack.inside_endless] at h ⊢
  cases hread : readExpected disk path expected with
  | error cause => exact Or.inl ⟨fun m hm => (by cases hm), rfl⟩
  | ok m =>
      rw [hread] at h
      dsimp only at h ⊢
      cases hget : Keyed.get? m.name l.library with
      | some b =>
          rw [hget] at h
          cases h
      | none =>
          rw [hget] at h
          dsimp only at h ⊢
          obtain ⟨-, hload, -⟩ := readExpected_eq_ok hread
          have henter := Adds.enter hload (Keyed.get?_eq_none_iff.mp hget)
          have hheld : m.name ∈ Keyed.keys (l.enter m).library := by
            rw [henter.keys_library]
            simp
          obtain ⟨links, added, hadds, -, hshort⟩ := linkAll_from
            (requireWith_supplies (loadWithin_serves .endless disk.fileCount)) [] rfl henter rfl
            (fun _ => ⟨rfl, .root_only hheld⟩)
          refine Or.inr ⟨m, links, added, rfl, ?_⟩
          cases hlink : linkAll (requireWith disk (loadWithin disk .endless disk.fileCount)) m.name
              m.references (l.enter m) with
          | mk last result =>
              rw [hlink] at h hadds hshort
              cases result with
              | ok done => cases h
              | error cause => exact .of_grows hadds.toGrows (hshort cause rfl)

/-- Requiring an identity fails where the search paths have no file for it, or as loading that file
does. What was loaded from it is never refused, for its name was checked. -/
theorem require_failed (hhook : l.resolver = some .searchPaths)
    (h : (l.require disk identity).2 = .error fault) :
    Leaves disk l ((Call.identity identity).Reads disk l) (l.require disk identity).1 := by
  rw [require, Stack.inside_endless, loadOn_endless, requireWith] at h ⊢
  cases hget : l.get? identity with
  | some b =>
      rw [hget] at h
      cases h
  | none =>
      simp only [hget, ask, hhook, search] at h ⊢
      cases hfind : findFile disk (shortName identity ++ l.suffix) l.searchPaths with
      | error cause =>
          refine Or.inl ⟨?_, rfl⟩
          rintro m ⟨path, hpath, -⟩
          rw [hfind] at hpath
          cases hpath
      | ok found =>
          cases found with
          | none =>
              refine Or.inl ⟨?_, rfl⟩
              rintro m ⟨path, hpath, -⟩
              rw [hfind] at hpath
              cases hpath
          | some path =>
              simp only [hfind] at h ⊢
              have hreads : ∀ m, (Call.identity identity).Reads disk l m ↔
                  readExpected disk path (some (shortName identity)) = .ok m := by
                intro m
                simp [Call.Reads, hfind]
              cases hload : load disk l path (some (shortName identity)) with
              | mk last result =>
                  rw [hload] at h
                  cases result with
                  | error cause =>
                      have hfailed := load_failed (congrArg Prod.snd hload)
                      rw [hload] at hfailed
                      simpa only [Leaves, hreads] using hfailed
                  | ok root =>
                      obtain ⟨m, hread, hname⟩ := exists_read_of_load (congrArg Prod.snd hload)
                      obtain ⟨-, -, hexpected⟩ := readExpected_eq_ok hread
                      have hroot := hname.symm.trans (hexpected _ rfl)
                      simp [accept, Link.name, hroot] at h

/-- A path that can be read has a directory that can be searched. -/
theorem addSearchPath_ne_error (hread : readExpected disk path expected = .ok m) :
    addSearchPath disk l path.parent ≠ .error fault := by
  obtain ⟨habsolute, -⟩ := readExpected_eq_ok hread
  rw [absolute] at habsolute
  split at habsolute
  · cases habsolute
  next hnul =>
    have hparent : ¬ path.parent.hasNul = true := by
      intro h
      obtain ⟨part, hpart, hmem⟩ := List.any_eq_true.mp h
      exact hnul (List.any_eq_true.mpr ⟨part, List.dropLast_subset _ hpart, hmem⟩)
    rw [addSearchPath, absolute, if_neg hparent]
    intro h
    cases h

/-- A target fails on its path, which is not read then, or as loading what is there does. Its
directory joins the search paths before that, which leaves the library as it was. -/
theorem loadTarget_failed (h : (loadTarget disk l path).2 = .error fault) :
    Leaves disk l ((Call.target path).Reads disk l) (loadTarget disk l path).1 := by
  simp only [loadTarget, Stack.inside_endless, loadOn_endless] at h ⊢
  cases habsolute : absolute disk path with
  | error cause =>
      refine Or.inl ⟨?_, rfl⟩
      rintro m ⟨p, hp, -⟩
      rw [habsolute] at hp
      cases hp
  | ok p =>
      have hreads : ∀ m, (Call.target path).Reads disk l m ↔
          readExpected disk p none = .ok m := by
        intro m
        simp [Call.Reads, habsolute]
      simp only [habsolute] at h ⊢
      cases hpath : addSearchPath disk l p.parent with
      | error cause =>
          exact Or.inl ⟨fun m hm => addSearchPath_ne_error ((hreads m).mp hm) hpath, rfl⟩
      | ok l₁ =>
          obtain ⟨dirs, rfl, -⟩ := addSearchPath_eq_ok hpath
          simp only [hpath] at h ⊢
          cases hload : load disk { l with searchPaths := dirs } p none with
          | mk last result =>
              rw [hload] at h
              cases result with
              | ok root => cases h
              | error cause =>
                  have hfailed := load_failed (congrArg Prod.snd hload)
                  rw [hload] at hfailed
                  rcases hfailed with hnone | ⟨m, links, added, hm, hstranded⟩
                  · exact Or.inl ⟨fun m => (hreads m).not.mpr (hnone.1 m), hnone.2⟩
                  · exact Or.inr ⟨m, links, added, (hreads m).mpr hm, { hstranded with }⟩

/-- What a call leaves behind that fails: the library as it was if it opened no manifest, and else
the binary it opened, never to be linked. -/
theorem call_failed (c : Call) (hhook : l.resolver = some .searchPaths)
    (h : (l.call disk c).2 = .error fault) : Leaves disk l (c.Reads disk l) (l.call disk c).1 := by
  cases c with
  | identity identity => exact require_failed hhook h
  | manifest path expected =>
      cases hload : load disk l path expected with
      | mk last result =>
          rw [call_manifest, hload] at h ⊢
          cases result with
          | ok root => cases h
          | error cause =>
              have hfailed := load_failed (congrArg Prod.snd hload)
              rwa [hload] at hfailed
  | target path =>
      cases hload : loadTarget disk l path with
      | mk last result =>
          rw [call, hload] at h ⊢
          cases result with
          | ok root => cases h
          | error cause =>
              have hfailed := loadTarget_failed (congrArg Prod.snd hload)
              rwa [hload] at hfailed

/-- A manifest with two references, of which one has a file. -/
def orphanDisk : Disk :=
  ⟨[], [(["a"], .directory),
    (["a", "A.yaml"], .file "name: A\nreferences: [B, C]".toUTF8),
    (["a", "B.yaml"], .file "name: B".toUTF8)]⟩

/-- The disk on which the other reference has a file, too. -/
def mendedDisk : Disk :=
  ⟨[], orphanDisk.entries ++ [(["a", "C.yaml"], .file "name: C".toUTF8)]⟩

def orphanTarget : Path := ⟨.root, ["a", "A.yaml"]⟩

def orphanLoader : Loader := install { suffix := ".yaml" } .searchPaths

/-- The loader after the target could not be linked. -/
def orphanedLoader : Loader := (orphanLoader.call orphanDisk (.target orphanTarget)).1

set_option maxRecDepth 100000 in
/-- The failed call leaves two binaries behind, and the second call for the target comes to it
though it is linked to one of its two references only. -/
theorem call_failed_orphan :
    (∃ fault, (orphanLoader.call orphanDisk (.target orphanTarget)).2 = .error fault) ∧
    Keyed.keys orphanLoader.library = [] ∧ Keyed.keys orphanedLoader.library = ["A", "B"] ∧
    (∃ m added, m.references = ["B", "C"] ∧
      Stranded orphanDisk orphanLoader m [.held "B"] added orphanedLoader) ∧
    (orphanedLoader.call mendedDisk (.target orphanTarget)).2 = .ok (.held "A") := by
  have hevaluated :
      (orphanLoader.call orphanDisk (.target orphanTarget)).2.toOption = none ∧
      (orphanedLoader.library.map fun entry =>
        (entry.1, entry.2.manifest.references, entry.2.links)) =
        [("A", ["B", "C"], [.held "B"]), ("B", [], [])] ∧
      (orphanedLoader.call mendedDisk (.target orphanTarget)).2.toOption = some (.held "A") := by
    decide +kernel
  obtain ⟨hnone, hlibrary, hagain⟩ := hevaluated
  obtain ⟨fault, hfault⟩ := exists_error_of_toOption hnone
  have hkeys : Keyed.keys orphanedLoader.library = ["A", "B"] := by
    have hnames := congrArg (List.map Prod.fst) hlibrary
    rwa [List.map_map] at hnames
  refine ⟨⟨fault, hfault⟩, rfl, hkeys, ?_, eq_ok_of_toOption hagain⟩
  rcases call_failed (.target orphanTarget) rfl hfault with ⟨-, hsame⟩ | ⟨m, links, added, -, h⟩
  · have hempty : orphanedLoader.library = [] := hsame
    rw [hempty] at hkeys
    cases hkeys
  · have hgrown : orphanedLoader.library = (m.name, ⟨m, links⟩) :: added := h.library
    rw [hgrown, List.map_cons, List.cons.injEq, Prod.mk.injEq, Prod.mk.injEq] at hlibrary
    obtain ⟨⟨-, hreferences, rfl⟩, -⟩ := hlibrary
    exact ⟨m, added, hreferences, h⟩

end StubTree.Loader
