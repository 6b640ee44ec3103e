import StubTree.Proofs.Loader.Directory
import StubTree.Proofs.Session.Loading

/-! # Builds from one directory

Where the targets of a build stand in one directory, and no other one is searched, what is loaded
is known by the names that are asked for: whatever another session has loaded from the directory
can be loaded, and nothing more is loaded than what the names lead to.
-/

namespace StubTree

open Loader (TargetIn Stocked Calls Declared KeepsManifests)

/-- The targets are files of one directory, each named for the binary it declares, and no other
directory is searched. -/
structure OneDirectory (disk : Disk) (suffix : String) (dir : Path)
    (targets searchPaths : List Path) : Prop where
  targets : ∀ path ∈ targets, ∃ name, TargetIn disk suffix dir path name
  searchPaths : ∀ path ∈ searchPaths, Loader.absolute disk path = .ok dir

variable {disk : Disk} {dir : Path} {suffix : String} {s s' loaded : Session} {l ref : Loader}
  {targets searchPaths : List Path} {identities names found : List String}
  {said : List Progress} {choice : Option Document}

namespace OneDirectory

theorem of_subset {targets' : List Path} (hdir : OneDirectory disk suffix dir targets searchPaths)
    (hsubset : targets' ⊆ targets) : OneDirectory disk suffix dir targets' searchPaths where
  targets path hpath := hdir.targets path (hsubset hpath)
  searchPaths := hdir.searchPaths

/-- A target is loaded by the name that its file is named for. -/
theorem targetIn_of_declared (hdir : OneDirectory disk suffix dir targets searchPaths)
    {path : Path} {name : String} (hpath : path ∈ targets)
    (hdeclared : Declared disk path name) : TargetIn disk suffix dir path name := by
  obtain ⟨other, htarget⟩ := hdir.targets path hpath
  obtain ⟨p, m, hp, hm, rfl⟩ := hdeclared
  rw [htarget.name_eq hp hm]
  exact htarget

/-- On a disk that has the manifests as well, what the targets declare stays as it is. -/
theorem declared_transfer {disk' : Disk} (hdir : OneDirectory disk suffix dir targets searchPaths)
    (hhome : disk'.home = disk.home) (hkeeps : KeepsManifests disk disk' suffix dir)
    {path : Path} {name : String} (hpath : path ∈ targets) (hdeclared : Declared disk path name) :
    TargetIn disk' suffix dir path name ∧ Declared disk' path name := by
  have htarget := hdir.targetIn_of_declared hpath hdeclared
  obtain ⟨p, m, hp, hm, rfl⟩ := hdeclared
  obtain rfl := (Manifest.load_eq_ok hm).1
  have hprovides := hkeeps _ _ (htarget.provides hp hm)
  have htarget' := htarget.transfer hhome hprovides
  obtain ⟨hpath', hload, -⟩ := Loader.readExpected_eq_ok (Loader.readExpected_of_provides hprovides)
  have hentry := Loader.absolute_absolute htarget'.absolute hpath'
  exact ⟨htarget', m.path, m, hentry ▸ htarget'.absolute, hload, rfl⟩

theorem transfer {disk' : Disk} (hdir : OneDirectory disk suffix dir targets searchPaths)
    (hhome : disk'.home = disk.home) (hkeeps : KeepsManifests disk disk' suffix dir)
    (hdeclared : ∀ path ∈ targets, ∃ name, Declared disk path name) :
    OneDirectory disk' suffix dir targets searchPaths where
  targets path hpath := by
    obtain ⟨name, hname⟩ := hdeclared path hpath
    exact ⟨name, (hdir.declared_transfer hhome hkeeps hpath hname).1⟩
  searchPaths path hpath := (Loader.absolute_of_home hhome path).trans (hdir.searchPaths path hpath)

theorem calls_in (hdir : OneDirectory disk suffix dir targets searchPaths) (found : List String) :
    ∀ call ∈ (targets.map Loader.Call.target).zip found, call.1.In disk suffix dir := by
  intro call hcall
  obtain ⟨path, hpath, heq⟩ := List.mem_map.mp (List.of_mem_zip hcall).1
  rw [← heq]
  exact hdir.targets path hpath

end OneDirectory

namespace Session

/-! ## The calls of a build -/

theorem calls_loadAll {tell : String → Progress} {calls : List Loader.Call}
    (hregular : s.loader.Regular)
    (h : s.loadAll disk tell calls = (s', said, .ok names)) :
    Calls disk s.loader (calls.zip names) s'.loader := by
  induction calls generalizing s said names with
  | nil =>
      cases h
      exact .nil _
  | cons c rest ih =>
      rw [loadAll] at h
      split at h
      next => cases h
      next loader link hcall =>
        obtain ⟨-, hnext, hlink⟩ := loads_call hregular hcall
        cases hrest : ({ s with loader }.register link.name).loadAll disk tell rest with
        | mk last outcome =>
            obtain ⟨more, result⟩ := outcome
            dsimp only at h
            rw [hrest] at h
            cases result with
            | error fault => cases h
            | ok later =>
                cases h
                rw [hlink] at hcall
                exact .cons hcall (ih hnext hrest)

/-- The calls of a build before its first round: one for each target, and then one for each
built-in binary. -/
theorem calls_of_loading (hregular : s.loader.Regular)
    (h : s.Loading disk targets searchPaths choice loaded names said) :
    ∃ dirs found, (s.loader.install .searchPaths).addSearchPaths disk searchPaths =
        ({ s.loader.install .searchPaths with searchPaths := dirs }, .ok ()) ∧
      List.Forall₂ (Declared disk) targets found ∧
      names = found ++ s.options.builtinBinaries.map shortName ∧
      Calls disk { s.loader.install .searchPaths with searchPaths := dirs }
        ((targets.map .target).zip found ++ (s.options.builtinBinaries.map .identity).zip
          (s.options.builtinBinaries.map shortName)) loaded.loader := by
  cases h with
  | @stages chosen prepared after loaded found builtins said more hchoose hprepare htargets
      hbuiltins =>
      obtain ⟨only, rfl⟩ := choose_eq_ok hchoose
      obtain ⟨dirs, hdirs, -⟩ :=
        Loader.addSearchPaths_fst disk (s.loader.install .searchPaths) searchPaths
      have hprepared := (Loader.Regular.install hregular.sound hregular.standard.2).addSearchPaths
        disk searchPaths
      have hloader := congrArg (·.1.loader) hprepare
      have hok := congrArg (·.2) hprepare
      dsimp only [prepare] at hloader hok
      rw [hloader] at hdirs hprepared
      obtain ⟨-, hafter, hdeclared⟩ := loadTargets_eq_ok hprepared htargets
      obtain ⟨-, -, rfl⟩ := loadBuiltins_eq_ok hafter hbuiltins
      have hoptions := options_loadTargets disk prepared targets
      rw [htargets, ← congrArg (·.1.options) hprepare] at hoptions
      have hidentities : after.options.builtinBinaries = s.options.builtinBinaries :=
        congrArg (·.builtinBinaries) hoptions
      have hcalls := (calls_loadAll hprepared htargets).append (calls_loadAll hafter hbuiltins)
      rw [hidentities] at hcalls
      rw [hdirs] at hcalls
      refine ⟨dirs, found, Prod.ext (hloader.trans hdirs) hok, hdeclared, ?_, hcalls⟩
      rw [hidentities]

/-- The targets of a session that a build has loaded are those from before, and what its targets
declare. -/
theorem Loading.mem_targets (h : s.Loading disk targets searchPaths choice loaded names said)
    (hregular : s.loader.Regular) {name : String} :
    name ∈ loaded.loader.targets ↔
      name ∈ s.loader.targets ∨ ∃ path ∈ targets, Declared disk path name := by
  obtain ⟨dirs, found, -, hdeclared, -, hcalls⟩ := calls_of_loading hregular h
  rw [hcalls.targets.1, ← Loader.mem_iff_of_declared hdeclared]
  refine or_congr_right ?_
  constructor
  · rintro ⟨path, hmem⟩
    rcases List.mem_append.mp hmem with hmem | hmem
    · exact (List.of_mem_zip hmem).2
    · simpa using (List.of_mem_zip hmem).1
  · intro hmem
    have hlength : (targets.map Loader.Call.target).length = found.length := by
      rw [List.length_map, hdeclared.length_eq]
    obtain ⟨c, hzip⟩ := exists_mem_zip_right hlength hmem
    obtain ⟨path, -, rfl⟩ := List.mem_map.mp (List.of_mem_zip hzip).1
    exact ⟨path, List.mem_append_left _ hzip⟩

theorem Loading.nodup_targets (h : s.Loading disk targets searchPaths choice loaded names said)
    (hregular : s.loader.Regular) (hnodup : s.loader.targets.Nodup) :
    loaded.loader.targets.Nodup := by
  obtain ⟨dirs, found, -, -, -, hcalls⟩ := calls_of_loading hregular h
  exact hcalls.targets.2 hnodup

/-! ## One directory -/

section

variable (hstocked : Stocked disk suffix dir s.loader)
  (hdir : OneDirectory disk suffix dir targets searchPaths)
  (h : s.Loading disk targets searchPaths choice loaded names said)

include hstocked hdir h

/-- The calls of a build look up their manifests in the directory. -/
theorem calls_in_of_loading :
    ∃ l calls, Stocked disk suffix dir l ∧ l.library = s.loader.library ∧
      Calls disk l calls loaded.loader ∧
      ∀ call ∈ calls, call.1.In disk suffix dir ∧ call.2 ∈ names := by
  obtain ⟨dirs, found, hadded, -, rfl, hcalls⟩ := calls_of_loading hstocked.reached.regular h
  obtain ⟨dirs', hadded', -, hprepared⟩ := hstocked.install.addSearchPaths hdir.searchPaths
  rw [hadded] at hadded'
  cases hadded'
  refine ⟨_, _, hprepared, rfl, hcalls, ?_⟩
  intro call hcall
  rcases List.mem_append.mp hcall with hcall | hcall
  · exact ⟨hdir.calls_in found call hcall, List.mem_append_left _ (List.of_mem_zip hcall).2⟩
  · obtain ⟨identity, -, heq⟩ := List.mem_map.mp (List.of_mem_zip hcall).1
    rw [← heq]
    exact ⟨trivial, List.mem_append_right _ (List.of_mem_zip hcall).2⟩

theorem stocked_of_loading : Stocked disk suffix dir loaded.loader := by
  obtain ⟨l, calls, hprepared, -, hcalls, hin⟩ := calls_in_of_loading hstocked hdir h
  exact hcalls.stocked hprepared fun call hcall => (hin call hcall).1

/-- What a build loads another loader has, if it has the binaries that the build asks for. -/
theorem keys_subset_of_loading (href : Stocked disk suffix dir ref)
    (hkeys : Keyed.keys s.loader.library ⊆ Keyed.keys ref.library)
    (hnames : ∀ name ∈ names, name ∈ Keyed.keys ref.library) :
    Keyed.keys loaded.loader.library ⊆ Keyed.keys ref.library := by
  obtain ⟨l, calls, hprepared, hlibrary, hcalls, hin⟩ := calls_in_of_loading hstocked hdir h
  exact hcalls.keys_subset hprepared (fun call hcall => (hin call hcall).1) href (hlibrary ▸ hkeys)
    fun call hcall => hnames _ (hin call hcall).2

end

/-! ## Two builds -/

/-- What a build loads is in the library of another one that has more targets. -/
theorem within_of_subset {loaded' : Session} {targets' : List Path} {names' : List String}
    (hstocked : Stocked disk suffix dir s.loader)
    (hdir : OneDirectory disk suffix dir targets searchPaths)
    (h : s.Loading disk targets searchPaths choice loaded names said)
    (href : Stocked disk suffix dir loaded'.loader) (hloaded' : Loaded disk targets' loaded' names')
    (hkeys : Keyed.keys s.loader.library ⊆ Keyed.keys loaded'.loader.library)
    (hsubset : targets ⊆ targets')
    (hbuiltins : loaded'.options.builtinBinaries = loaded.options.builtinBinaries) :
    loaded.loader.library.Within loaded'.loader.library := by
  have hregular := hstocked.reached.regular
  have hloaded := h.toLoaded hregular
  apply (stocked_of_loading hstocked hdir h).within href
  apply keys_subset_of_loading hstocked hdir h href hkeys
  intro name hname
  apply hloaded'.held
  rw [hloaded'.mem_names, hbuiltins]
  refine (hloaded.mem_names.mp hname).imp_left ?_
  rintro ⟨path, hpath, hdeclared⟩
  exact ⟨path, hsubset hpath, hdeclared⟩

/-! ## What another loader has -/

/-- A row of calls gets what the other loader has. -/
theorem loadAll_ok {tell : String → Progress} {calls : List Loader.Call}
    (hstocked : Stocked disk suffix dir s.loader) (href : Stocked disk suffix dir ref)
    (hresolver : s.loader.resolver = some .searchPaths)
    (hheld : ∀ c ∈ calls, c.Held disk suffix dir ref)
    (hsearched : ∀ identity, .identity identity ∈ calls → dir ∈ s.loader.searchPaths) :
    ∃ found, (s.loadAll disk tell calls).2.2 = .ok found := by
  refine Loader.exists_ok_of_passes (loadAll_passes (fun calls l => Stocked disk suffix dir l ∧
    l.resolver = some .searchPaths ∧ (∀ c ∈ calls, c.Held disk suffix dir ref) ∧
    ∀ identity, .identity identity ∈ calls → dir ∈ l.searchPaths) ?_
    ⟨hstocked, hresolver, hheld, hsearched⟩)
  rintro c rest l ⟨hl, hresolver, hheld, hsearched⟩
  obtain ⟨hone, hrest⟩ := List.forall_mem_cons.mp hheld
  refine ⟨hl.call_passes href hresolver hone fun identity hc =>
    hsearched identity (hc ▸ List.mem_cons_self), fun link hlink => ?_⟩
  obtain ⟨-, -, hname⟩ := loads_call (s := ⟨{}, l, {}⟩) hl.reached.regular
    (Prod.ext rfl hlink)
  rw [hname] at hlink
  have hcall : l.call disk c = ((l.call disk c).1, .ok (.held link.name)) := Prod.ext rfl hlink
  refine ⟨hl.call hone.in_directory hcall, (Loader.resolver_call disk l c).trans hresolver, hrest,
    fun identity hmem => ?_⟩
  exact (hl.searchPaths_call hone.in_directory hcall).2
    (Or.inl (hsearched identity (List.mem_cons_of_mem _ hmem)))

/-- After the first target, the directory is searched. -/
theorem mem_searchPaths_of_loadTargets (hstocked : Stocked disk suffix dir s.loader)
    (hdir : OneDirectory disk suffix dir targets searchPaths)
    (h : s.loadTargets disk targets = (s', said, .ok found))
    (hsearched : dir ∈ s.loader.searchPaths ∨ targets ≠ []) : dir ∈ s'.loader.searchPaths := by
  have hlength := (loadTargets_eq_ok hstocked.reached.regular h).2.2.length_eq
  apply (calls_loadAll hstocked.reached.regular h).mem_searchPaths hstocked (hdir.calls_in found)
  refine hsearched.imp_right fun hsome => ?_
  obtain ⟨path, hpath⟩ := List.exists_mem_of_ne_nil _ hsome
  rw [← List.length_map (f := Loader.Call.target)] at hlength
  exact ⟨path, exists_mem_zip_left hlength (List.mem_map_of_mem hpath)⟩

/-- A build can load what another loader has from its directory. -/
theorem exists_loading_of_held {chosen : Session} (hstocked : Stocked disk suffix dir s.loader)
    (href : Stocked disk suffix dir ref)
    (hdir : OneDirectory disk suffix dir targets searchPaths)
    (hsearched : targets ≠ [] ∨ searchPaths ≠ [] ∨ s.options.builtinBinaries = [])
    (hchoose : s.choose choice = .ok chosen)
    (htargets : ∀ path ∈ targets, ∃ name ∈ Keyed.keys ref.library,
      TargetIn disk suffix dir path name)
    (hbuiltins : ∀ identity ∈ s.options.builtinBinaries,
      shortName identity ∈ Keyed.keys ref.library) :
    ∃ loaded names said, s.Loading disk targets searchPaths choice loaded names said := by
  obtain ⟨only, rfl⟩ := choose_eq_ok hchoose
  obtain ⟨dirs, hadded, hdirs, hprepared⟩ := hstocked.install.addSearchPaths hdir.searchPaths
  let prepared : Session := ⟨{ s.options with onlyTargetTypes := only },
    { s.loader.install .searchPaths with searchPaths := dirs }, {}⟩
  have hprepare : Session.prepare disk { s with
      options := { s.options with onlyTargetTypes := only }
      registry := {} } searchPaths = (prepared, .ok ()) := by
    rw [prepare]
    dsimp only
    rw [hadded]
  have hheld : ∀ c ∈ targets.map Loader.Call.target, c.Held disk suffix dir ref :=
    List.forall_mem_map.mpr htargets
  obtain ⟨found, hfound⟩ : ∃ found, (prepared.loadTargets disk targets).2.2 = .ok found :=
    loadAll_ok hprepared href rfl hheld (by simp)
  cases hafter : prepared.loadTargets disk targets with
  | mk after outcome =>
      obtain ⟨said, result⟩ := outcome
      rw [hafter] at hfound
      cases hfound
      have hcalls := calls_loadAll hprepared.reached.regular hafter
      have hnext := hcalls.stocked hprepared (hdir.calls_in found)
      have hidentities : after.options.builtinBinaries = s.options.builtinBinaries := by
        have hoptions := options_loadTargets disk prepared targets
        rw [hafter] at hoptions
        exact congrArg (·.builtinBinaries) hoptions
      have hlastDir : s.options.builtinBinaries ≠ [] → dir ∈ after.loader.searchPaths := by
        intro hne
        apply mem_searchPaths_of_loadTargets hprepared hdir hafter
        rcases hsearched with hsome | hpaths | hnone
        · exact Or.inr hsome
        · exact Or.inl (hdirs (Or.inr hpaths))
        · exact absurd hnone hne
      rw [← hidentities] at hbuiltins hlastDir
      have hidentity : ∀ c ∈ after.options.builtinBinaries.map Loader.Call.identity,
          c.Held disk suffix dir ref := List.forall_mem_map.mpr hbuiltins
      obtain ⟨builtins, hlast⟩ : ∃ builtins,
          (after.loadBuiltins disk after.options.builtinBinaries).2.2 = .ok builtins := by
        refine loadAll_ok hnext href (hcalls.resolver_eq.trans rfl) hidentity fun _ hmem => ?_
        obtain ⟨identity, hmem, -⟩ := List.mem_map.mp hmem
        exact hlastDir (List.ne_nil_of_mem hmem)
      cases hloaded : after.loadBuiltins disk after.options.builtinBinaries with
      | mk loaded outcome =>
          obtain ⟨more, result⟩ := outcome
          rw [hloaded] at hlast
          cases hlast
          exact ⟨loaded, _, _, .stages hchoose hprepare hafter hloaded⟩

/-- What one session has loaded from the directory, another one with the same options can load as
well. -/
theorem canLoad_of_loading {targets' : List Path} (hstocked : Stocked disk suffix dir s.loader)
    (hdir : OneDirectory disk suffix dir targets searchPaths)
    (h : s.Loading disk targets searchPaths choice loaded names said)
    (hstocked' : Stocked disk suffix dir s'.loader) (hoptions : s'.options = s.options)
    (hsubset : targets' ⊆ targets)
    (hsearched : targets' ≠ [] ∨ searchPaths ≠ [] ∨ s.options.builtinBinaries = []) :
    s'.CanLoad disk targets' searchPaths choice := by
  have hregular := hstocked.reached.regular
  have hloaded := h.toLoaded hregular
  obtain ⟨chosen, hchoose, -⟩ := h.exists_chosen
  obtain ⟨only, hchosen⟩ := h.options
  refine exists_loading_of_held hstocked' (stocked_of_loading hstocked hdir h)
    (hdir.of_subset hsubset) (hoptions ▸ hsearched) (choose_of_options hoptions hchoose) ?_ ?_
  · intro path hpath
    obtain ⟨name, hname, hdeclared⟩ := hloaded.exists_declared (hsubset hpath)
    exact ⟨name, hloaded.held name hname, hdir.targetIn_of_declared (hsubset hpath) hdeclared⟩
  · intro identity hidentity
    rw [hoptions] at hidentity
    apply hloaded.held
    rw [hloaded.mem_names, hchosen]
    exact Or.inr (List.mem_map_of_mem hidentity)

/-! ## Two binaries that refer to one another -/

/-- Two targets whose types refer to one another, and one of them to a third binary. -/
def pairDisk : Disk :=
  ⟨[], [(["m"], .directory),
    (["m", "A.yaml"], .file ("\n".intercalate
      ["name: A", "references: [B, C]", "types:", "- name: P.X", "  base: Q.Y", "- name: R.U",
        "  base: S.V"]).toUTF8),
    (["m", "B.yaml"], .file ("\n".intercalate
      ["name: B", "references: [A]", "types:", "- name: Q.Y", "  base: P.Z",
        "- name: P.Z", "  visibility: internal", "- name: Q.Z"]).toUTF8),
    (["m", "C.yaml"], .file ("\n".intercalate
      ["name: C", "types:", "- name: S.V"]).toUTF8)]⟩

def pairTarget (name : String) : Path := ⟨.root, ["m", name ++ ".yaml"]⟩

def pairDestination : Path := ⟨.root, ["m", "out"]⟩

/-- Both targets stand in the directory under the names that they declare. -/
theorem pairTargets {name : String} (hname : name ∈ ["A", "B"]) :
    TargetIn pairDisk ".yaml" ⟨.root, ["m"]⟩ (pairTarget name) name ∧
      Declared pairDisk (pairTarget name) name := by
  have hevaluated : ∀ name ∈ ["A", "B"],
      (Manifest.load pairDisk (pairTarget name)).toOption.map (·.name) = some name ∧
      (Loader.absolute pairDisk (pairTarget name)).toOption =
        some ((⟨.root, ["m"]⟩ : Path).entry (name ++ ".yaml")) ∧
      (⟨.root, ["m"]⟩ : Path).entry (name ++ ".yaml") = pairTarget name := by
    decide +kernel
  obtain ⟨hload, habsolute, hentry⟩ := hevaluated name hname
  obtain ⟨m, hm, hdeclared⟩ := Option.map_eq_some_iff.mp hload
  have hloaded := eq_ok_of_toOption hm
  have hpath := eq_ok_of_toOption habsolute
  refine ⟨{ absolute := hpath, parent := ?_, declares := ?_ }, pairTarget name, m, ?_, hloaded,
    hdeclared⟩
  · rw [hentry]
    rfl
  · intro m' hm'
    rw [hentry, hloaded] at hm'
    cases hm'
    exact hdeclared
  · rw [hpath, hentry]

theorem pairDirectory :
    OneDirectory pairDisk ".yaml" ⟨.root, ["m"]⟩ [pairTarget "A", pairTarget "B"] [] where
  targets path hpath := by
    simp only [List.mem_cons, List.not_mem_nil, or_false] at hpath
    rcases hpath with rfl | rfl
    · exact ⟨"A", (pairTargets (by simp)).1⟩
    · exact ⟨"B", (pairTargets (by simp)).1⟩
  searchPaths _ h := by cases h

end Session

end StubTree
