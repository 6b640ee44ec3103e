import Mathlib.Data.List.Forall2
import StubTree.Proofs.Loader.Passage
import StubTree.Proofs.Session.Reached

/-! # What a build loads

Loading the targets and the built-in binaries registers what they export, one binary after the
other. The library only grows meanwhile, so what a binary exports when it is registered is what
it exports in the end.
-/

namespace StubTree

/-- Every item of a row has a partner in another one that is as long. -/
theorem exists_mem_zip_left {α β : Type} {xs : List α} {ys : List β} (h : xs.length = ys.length)
    {x : α} (hx : x ∈ xs) : ∃ y, (x, y) ∈ xs.zip ys := by
  rw [← List.map_fst_zip h.le] at hx
  obtain ⟨⟨_, y⟩, hmem, rfl⟩ := List.mem_map.mp hx
  exact ⟨y, hmem⟩

theorem exists_mem_zip_right {α β : Type} {xs : List α} {ys : List β} (h : xs.length = ys.length)
    {y : β} (hy : y ∈ ys) : ∃ x, (x, y) ∈ xs.zip ys := by
  rw [← List.map_snd_zip h.ge] at hy
  obtain ⟨⟨x, _⟩, hmem, rfl⟩ := List.mem_map.mp hy
  exact ⟨x, hmem⟩

/-- The name that the manifest at a path declares. -/
def Loader.Declared (disk : Disk) (path : Path) (name : String) : Prop :=
  ∃ p m, absolute disk path = .ok p ∧ Manifest.load disk p = .ok m ∧ m.name = name

theorem Loader.Declared.unique {disk : Disk} {path : Path} {name name' : String}
    (h : Declared disk path name) (h' : Declared disk path name') : name = name' := by
  obtain ⟨p, m, hp, hm, rfl⟩ := h
  obtain ⟨p', m', hp', hm', rfl⟩ := h'
  rw [hp] at hp'
  cases hp'
  rw [hm] at hm'
  cases hm'
  rfl

/-- What is gathered from the names that paths declare. -/
theorem Loader.mem_flatMap_of_declared {disk : Disk} {paths : List Path} {names : List String}
    (h : List.Forall₂ (Declared disk) paths names) {α : Type} {a : α} (of : String → List α) :
    a ∈ names.flatMap of ↔ ∃ path ∈ paths, ∃ name, Declared disk path name ∧ a ∈ of name := by
  induction h with
  | nil => simp
  | @cons path name _ _ hdeclared _ ih =>
      have hfirst : a ∈ of name ↔ ∃ name', Declared disk path name' ∧ a ∈ of name' := by
        constructor
        · exact fun ha => ⟨name, hdeclared, ha⟩
        · rintro ⟨name', hdeclared', ha⟩
          exact hdeclared.unique hdeclared' ▸ ha
      rw [List.flatMap_cons, List.mem_append, ih, hfirst, List.exists_mem_cons_iff]

theorem Loader.mem_iff_of_declared {disk : Disk} {paths : List Path} {names : List String}
    (h : List.Forall₂ (Declared disk) paths names) {name : String} :
    name ∈ names ↔ ∃ path ∈ paths, Declared disk path name := by
  have hmem := mem_flatMap_of_declared h (a := name) fun other => [other]
  simpa using hmem

theorem Library.exported_append {lib : Library} {name : String} (h : name ∈ Keyed.keys lib)
    (added : Library) : Library.exported (lib ++ added) name = lib.exported name := by
  rw [exported, exported, manifest?, manifest?, Keyed.get?_append_of_mem h]

namespace Session

variable {disk : Disk} {s s' s'' loaded : Session} {names more : List String}

/-- What loading the binaries of some names has done to a session. -/
structure Loads (s s' : Session) (names : List String) : Prop where
  options : s'.options = s.options
  library : ∃ added, s'.loader.library = s.loader.library ++ added
  held : ∀ name ∈ names, name ∈ Keyed.keys s'.loader.library
  registry : s'.registry = s.registry.addAll (names.flatMap s'.loader.library.exported)

namespace Loads

theorem refl (s : Session) : Loads s s [] where
  options := rfl
  library := ⟨[], (List.append_nil _).symm⟩
  held _ h := by cases h
  registry := rfl

theorem trans (h : Loads s s' names) (h' : Loads s' s'' more) : Loads s s'' (names ++ more) where
  options := h'.options.trans h.options
  library := by
    obtain ⟨added, hadded⟩ := h.library
    obtain ⟨added', hadded'⟩ := h'.library
    exact ⟨added ++ added', by rw [hadded', hadded, List.append_assoc]⟩
  held := by
    intro name hname
    rcases List.mem_append.mp hname with hname | hname
    · obtain ⟨added, hadded⟩ := h'.library
      rw [hadded, Keyed.keys_append]
      exact List.mem_append_left _ (h.held name hname)
    · exact h'.held name hname
  registry := by
    obtain ⟨added, hadded⟩ := h'.library
    -- The exports are looked up in the last library, where the earlier binaries are as they were.
    have hexported : names.flatMap s''.loader.library.exported =
        names.flatMap s'.loader.library.exported := by
      rw [hadded]
      exact List.flatMap_congr fun name hname => Library.exported_append (h.held name hname) added
    rw [h'.registry, h.registry, List.flatMap_append, hexported, Registry.addAll,
      Registry.addAll, Registry.addAll, List.foldl_append]

/-- A binary is registered as it was loaded. -/
theorem register {loader : Loader} {name : String}
    (hlibrary : ∃ added, loader.library = s.loader.library ++ added)
    (hname : name ∈ Keyed.keys loader.library) :
    Loads s ({ s with loader }.register name) [name] where
  options := rfl
  library := hlibrary
  held other hother := by
    rw [List.mem_singleton.mp hother]
    exact hname
  registry := by
    rw [List.flatMap_singleton]
    rfl

end Loads

/-! ## One binary -/

theorem declared_of_load {l : Loader} {path : Path} {expected : Option String} {name : String}
    (h : (Loader.load disk l path expected).2 = .ok name) : Loader.Declared disk path name := by
  obtain ⟨m, hread, hname⟩ := Loader.exists_read_of_load h
  obtain ⟨hpath, hload, -⟩ := Loader.readExpected_eq_ok hread
  exact ⟨m.path, m, hpath, hload, hname⟩

theorem declared_of_loadTarget {l : Loader} {path : Path} {name : String}
    (h : (l.loadTarget disk path).2 = .ok name) : Loader.Declared disk path name := by
  rw [Loader.loadTarget, Stack.inside_endless, Loader.loadOn_endless] at h
  split at h
  · cases h
  next p hp =>
    split at h
    · cases h
    next l' _ =>
      have hload : (Loader.load disk l' p none).2 = .ok name := by
        split at h
        · cases h
        next heq =>
          rw [heq]
          exact h
      obtain ⟨q, m, hq, hm, hname⟩ := declared_of_load hload
      rw [Loader.absolute_absolute hp hq] at hm
      exact ⟨p, m, hp, hm, hname⟩

/-- A call comes to a binary of a name: the one that the manifest at its path declares, or the short
name of its identity. -/
def Yields (disk : Disk) : Loader.Call → String → Prop
  | .target path, name => Loader.Declared disk path name
  | .manifest path _, name => Loader.Declared disk path name
  | .identity identity, name => name = shortName identity

theorem yields_of_call {l : Loader} {c : Loader.Call} {link : Link}
    (h : (l.call disk c).2 = .ok link) : Yields disk c link.name := by
  cases c with
  | identity identity =>
      obtain ⟨added, -, hsupplied⟩ := Loader.require_supplies disk l identity
      exact (hsupplied link h).1
  | target path =>
      obtain ⟨name, hload, rfl⟩ := map_eq_ok_iff.mp h
      exact declared_of_loadTarget hload
  | manifest path expected =>
      obtain ⟨name, hload, rfl⟩ := map_eq_ok_iff.mp h
      exact declared_of_load hload

/-- A regular loader comes to binaries of its library, and stays regular. -/
theorem loads_call {c : Loader.Call} {loader : Loader} {link : Link}
    (hregular : s.loader.Regular) (h : s.loader.call disk c = (loader, .ok link)) :
    Loads s ({ s with loader }.register link.name) [link.name] ∧
      loader.Regular ∧ link = .held link.name := by
  obtain ⟨dirs, added, -, -, hadds, hserved⟩ := Loader.call_adds disk s.loader c
  obtain ⟨root, rfl, hdone⟩ := hserved hregular.standard.1 _ (congrArg Prod.snd h)
  have hnext := hregular.call disk c
  rw [h] at hadds hdone hnext
  exact ⟨.register ⟨added, hadds.library⟩ hdone.held, hnext, rfl⟩

/-! ## Targets and built-in binaries -/

/-- An outcome can be told by its value alone. -/
theorem outcome_eq_of_toOption {α : Type} {outcome : Outcome α} {a : α}
    (h : outcome.2.2.toOption = some a) : outcome = (outcome.1, outcome.2.1, .ok a) :=
  Prod.ext rfl (Prod.ext rfl (eq_ok_of_toOption h))

theorem loadAll_eq_ok {tell : String → Progress} {calls : List Loader.Call}
    {said : List Progress} (hregular : s.loader.Regular)
    (h : s.loadAll disk tell calls = (s', said, .ok names)) :
    Loads s s' names ∧ s'.loader.Regular ∧ List.Forall₂ (Yields disk) calls names := by
  induction calls generalizing s said names with
  | nil =>
      cases h
      exact ⟨.refl _, hregular, .nil⟩
  | cons c rest ih =>
      rw [loadAll] at h
      split at h
      next => cases h
      next loader link hcall =>
        obtain ⟨hone, hnext, -⟩ := loads_call hregular hcall
        cases hrest : ({ s with loader }.register link.name).loadAll disk tell rest with
        | mk last outcome =>
            obtain ⟨more, result⟩ := outcome
            dsimp only at h
            rw [hrest] at h
            cases result with
            | error fault => cases h
            | ok later =>
                cases h
                obtain ⟨hloads, hlast, hall⟩ := ih hnext hrest
                exact ⟨hone.trans hloads, hlast,
                  .cons (yields_of_call (congrArg Prod.snd hcall)) hall⟩

theorem loadTargets_eq_ok {targets : List Path} {said : List Progress}
    (hregular : s.loader.Regular)
    (h : s.loadTargets disk targets = (s', said, .ok names)) :
    Loads s s' names ∧ s'.loader.Regular ∧
      List.Forall₂ (Loader.Declared disk) targets names := by
  obtain ⟨hloads, hlast, hall⟩ := loadAll_eq_ok hregular h
  rw [List.forall₂_map_left_iff] at hall
  exact ⟨hloads, hlast, hall⟩

theorem loadBuiltins_eq_ok {identities : List String} {said : List Progress}
    (hregular : s.loader.Regular)
    (h : s.loadBuiltins disk identities = (s', said, .ok names)) :
    Loads s s' names ∧ s'.loader.Regular ∧
      names = identities.map shortName := by
  obtain ⟨hloads, hlast, hall⟩ := loadAll_eq_ok hregular h
  rw [List.forall₂_map_left_iff] at hall
  have hnames : List.Forall₂ Eq (identities.map shortName) names :=
    List.forall₂_map_left_iff.mpr (hall.imp fun _ _ => Eq.symm)
  rw [List.forall₂_eq_eq_eq] at hnames
  exact ⟨hloads, hlast, hnames.symm⟩

/-- A row of calls fails only as its calls may, given what each of them finds: what holds of a
loader and of the calls that are still to come. -/
theorem loadAll_passes {tolerated : Fault → Prop} {tell : String → Progress}
    (ready : List Loader.Call → Loader → Prop)
    (hcall : ∀ c rest l, ready (c :: rest) l →
      Loader.Passes tolerated (l.call disk c).2 ∧
        ∀ link, (l.call disk c).2 = .ok link → ready rest (l.call disk c).1)
    {calls : List Loader.Call} (hready : ready calls s.loader) :
    Loader.Passes tolerated (s.loadAll disk tell calls).2.2 := by
  induction calls generalizing s with
  | nil => exact Loader.passes_ok []
  | cons c rest ih =>
      obtain ⟨hpasses, hnext⟩ := hcall c rest s.loader hready
      rw [loadAll]
      cases hresult : s.loader.call disk c with
      | mk loader result =>
          rw [hresult] at hpasses hnext
          cases result with
          | error fault => exact Loader.passes_error (hpasses fault rfl)
          | ok link =>
              have hrest := ih (s := { s with loader }.register link.name) (hnext link rfl)
              exact hrest.map (link.name :: ·)

/-! ## Sessions with one loader -/

theorem loadAll_congr (tell : String → Progress) (disk : Disk) (hloader : s'.loader = s.loader)
    (calls : List Loader.Call) :
    (s'.loadAll disk tell calls).1.loader = (s.loadAll disk tell calls).1.loader ∧
      (s'.loadAll disk tell calls).2.2 = (s.loadAll disk tell calls).2.2 := by
  induction calls generalizing s s' with
  | nil => exact ⟨hloader, rfl⟩
  | cons c rest ih =>
      rw [loadAll, loadAll, hloader]
      split
      next => exact ⟨rfl, rfl⟩
      next loader link hcall =>
        have hsame : ({ s' with loader }.register link.name).loader =
            ({ s with loader }.register link.name).loader := rfl
        obtain ⟨hlast, hresult⟩ := ih hsame
        exact ⟨hlast, congrArg (Except.map (link.name :: ·)) hresult⟩

theorem options_loadAll (disk : Disk) (tell : String → Progress) (s : Session)
    (calls : List Loader.Call) : (s.loadAll disk tell calls).1.options = s.options :=
  loadAll_preserves (fun last => last.options = s.options) (fun _ _ hs => hs) (fun _ _ hs => hs)
    calls rfl

theorem options_loadTargets (disk : Disk) (s : Session) (targets : List Path) :
    (s.loadTargets disk targets).1.options = s.options :=
  options_loadAll disk .target s _

theorem options_loadBuiltins (disk : Disk) (s : Session) (identities : List String) :
    (s.loadBuiltins disk identities).1.options = s.options :=
  options_loadAll disk .builtin s _

/-! ## A build -/

/-- What a build comes through before its first round. -/
inductive Loading (s : Session) (disk : Disk) (targets searchPaths : List Path)
    (onlyTargetTypes : Option Document) : Session → List String → List Progress → Prop
  | stages {chosen prepared after loaded : Session} {found builtins : List String}
      {said more : List Progress}
      (hchoose : s.choose onlyTargetTypes = .ok chosen)
      (hprepare : Session.prepare disk { chosen with registry := {} } searchPaths =
        (prepared, .ok ()))
      (htargets : prepared.loadTargets disk targets = (after, said, .ok found))
      (hbuiltins : after.loadBuiltins disk after.options.builtinBinaries =
        (loaded, more, .ok builtins)) :
      Loading s disk targets searchPaths onlyTargetTypes loaded (found ++ builtins) (said ++ more)

/-- Whether a build comes to its first round. -/
def CanLoad (s : Session) (disk : Disk) (targets searchPaths : List Path)
    (choice : Option Document) : Prop :=
  ∃ loaded names said, s.Loading disk targets searchPaths choice loaded names said

/-- What holds of a session that a build has loaded, before its first round. -/
structure Loaded (disk : Disk) (targets : List Path) (loaded : Session) (names : List String) :
    Prop where
  loader : loaded.loader.Regular
  found : ∃ found, List.Forall₂ (Loader.Declared disk) targets found ∧
    names = found ++ loaded.options.builtinBinaries.map shortName
  held : ∀ name ∈ names, name ∈ Keyed.keys loaded.loader.library
  registry : loaded.registry = Registry.addAll {} (names.flatMap loaded.loader.library.exported)

section

variable {destination : Path} {targets searchPaths : List Path}
  {onlyTargetTypes : Option Document} {g : Generation}

/-- A build with a result is a generation of what it loaded. -/
theorem exists_loading
    (h : (s.build disk destination targets searchPaths onlyTargetTypes).result = .ok g) :
    ∃ loaded names said, s.Loading disk targets searchPaths onlyTargetTypes loaded names said ∧
      s.build disk destination targets searchPaths onlyTargetTypes =
        { loaded.generate disk destination with
          said := said ++ (loaded.generate disk destination).said } := by
  rw [build] at h ⊢
  split at h
  next => cases h
  next chosen hchoose =>
    split at h
    next => cases h
    next prepared hprepare =>
      split at h
      next => cases h
      next after said found htargets =>
        split at h
        next => cases h
        next loaded more builtins hbuiltins =>
          exact ⟨loaded, _, _, .stages hchoose hprepare htargets hbuiltins, rfl⟩

theorem build_of_loading {said : List Progress}
    (h : s.Loading disk targets searchPaths onlyTargetTypes loaded names said)
    (destination : Path) :
    s.build disk destination targets searchPaths onlyTargetTypes =
      { loaded.generate disk destination with
        said := said ++ (loaded.generate disk destination).said } := by
  cases h with
  | stages hchoose hprepare htargets hbuiltins =>
      rw [build, hchoose]
      dsimp only
      rw [hprepare]
      dsimp only
      rw [htargets]
      dsimp only
      rw [hbuiltins]

/-- Loading leaves the options as they are chosen. -/
theorem Loading.exists_chosen {said : List Progress}
    (h : s.Loading disk targets searchPaths onlyTargetTypes loaded names said) :
    ∃ chosen, s.choose onlyTargetTypes = .ok chosen ∧ loaded.options = chosen.options := by
  cases h with
  | @stages chosen prepared after loaded found builtins said more hchoose hprepare htargets
      hbuiltins =>
      have hprepared := congrArg (·.1.options) hprepare
      have hafter := options_loadTargets disk prepared targets
      have hloaded := options_loadBuiltins disk after after.options.builtinBinaries
      rw [htargets] at hafter
      rw [hbuiltins] at hloaded
      exact ⟨chosen, hchoose, hloaded.trans (hafter.trans hprepared.symm)⟩

/-- Loading changes no option but the choice of types. -/
theorem Loading.options {said : List Progress}
    (h : s.Loading disk targets searchPaths onlyTargetTypes loaded names said) :
    ∃ only, loaded.options = { s.options with onlyTargetTypes := only } := by
  obtain ⟨chosen, hchoose, hoptions⟩ := h.exists_chosen
  obtain ⟨only, rfl⟩ := choose_eq_ok hchoose
  exact ⟨only, hoptions⟩

/-- Sessions with the same options have the same options when they are loaded. -/
theorem Loading.options_eq {loaded' : Session} {targets' searchPaths' : List Path}
    {names' : List String} {said said' : List Progress} {disk' : Disk}
    (h : s.Loading disk targets searchPaths onlyTargetTypes loaded names said)
    (h' : s'.Loading disk' targets' searchPaths' onlyTargetTypes loaded' names' said')
    (hoptions : s'.options = s.options) : loaded'.options = loaded.options := by
  obtain ⟨chosen, hchoose, hloaded⟩ := h.exists_chosen
  obtain ⟨chosen', hchoose', hloaded'⟩ := h'.exists_chosen
  rw [choose_of_options hoptions hchoose] at hchoose'
  cases hchoose'
  rw [hloaded, hloaded']

/-- What is loaded depends on the loader and on the built-in binaries alone. -/
theorem Loading.congr {loaded' : Session} {names' : List String} {said said' : List Progress}
    {onlyTargetTypes' : Option Document}
    (h : s.Loading disk targets searchPaths onlyTargetTypes loaded names said)
    (h' : s'.Loading disk targets searchPaths onlyTargetTypes' loaded' names' said')
    (hloader : s'.loader = s.loader)
    (hbuiltins : s'.options.builtinBinaries = s.options.builtinBinaries) :
    loaded'.loader = loaded.loader ∧ names' = names := by
  cases h with
  | @stages chosen prepared after loaded found builtins said more hchoose hprepare htargets
      hlast =>
      cases h' with
      | @stages chosen' prepared' after' loaded' found' builtins' said' more' hchoose' hprepare'
          htargets' hlast' =>
          obtain ⟨only, rfl⟩ := choose_eq_ok hchoose
          obtain ⟨only', rfl⟩ := choose_eq_ok hchoose'
          have hprepared : prepared'.loader = prepared.loader := by
            have heq := congrArg (·.1.loader) hprepare
            have heq' := congrArg (·.1.loader) hprepare'
            dsimp only [prepare] at heq heq'
            rw [← heq, ← heq', hloader]
          have hidentities : after'.options.builtinBinaries = after.options.builtinBinaries := by
            have hafter := options_loadTargets disk prepared targets
            have hafter' := options_loadTargets disk prepared' targets
            rw [htargets, ← congrArg (·.1.options) hprepare] at hafter
            rw [htargets', ← congrArg (·.1.options) hprepare'] at hafter'
            rw [hafter, hafter']
            exact hbuiltins
          obtain ⟨hafter, hfound⟩ :=
            loadAll_congr .target disk hprepared (targets.map .target)
          rw [← loadTargets, ← loadTargets, htargets, htargets'] at hafter hfound
          obtain ⟨hloaded, hmore⟩ := loadAll_congr .builtin disk hafter
            (after.options.builtinBinaries.map .identity)
          rw [← loadBuiltins, ← loadBuiltins, hlast, ← hidentities, hlast'] at hloaded hmore
          cases hfound
          cases hmore
          exact ⟨hloaded, rfl⟩

theorem loaded_of_loading {said : List Progress} (hsound : s.loader.library.Sound)
    (hclosed : s.loader.library.Closed)
    (h : s.Loading disk targets searchPaths onlyTargetTypes loaded names said) :
    Loaded disk targets loaded names := by
  cases h with
  | @stages chosen prepared after loaded found builtins said more hchoose hprepare htargets
      hbuiltins =>
      obtain ⟨only, rfl⟩ := choose_eq_ok hchoose
      have hprepared : prepared.loader.Regular := by
        have hcalls := (Loader.Regular.install hsound hclosed).addSearchPaths disk searchPaths
        have heq := congrArg (·.1.loader) hprepare
        dsimp only at heq
        rw [← heq]
        exact hcalls
      have hregistry : prepared.registry = {} := (congrArg (·.1.registry) hprepare).symm
      obtain ⟨hloads, hafter, hdeclared⟩ := loadTargets_eq_ok hprepared htargets
      obtain ⟨hloads', hloaded, hnames⟩ := loadBuiltins_eq_ok hafter hbuiltins
      refine
        { loader := hloaded
          found := ⟨found, hdeclared, ?_⟩
          held := (hloads.trans hloads').held
          registry := ?_ }
      · rw [hnames, hloads'.options]
      · rw [(hloads.trans hloads').registry, hregistry]

theorem Loading.toLoaded {said : List Progress}
    (h : s.Loading disk targets searchPaths onlyTargetTypes loaded names said)
    (hregular : s.loader.Regular) : Loaded disk targets loaded names :=
  loaded_of_loading hregular.sound hregular.standard.2 h

theorem Loaded.mem_names (h : Loaded disk targets loaded names) {name : String} :
    name ∈ names ↔ (∃ path ∈ targets, Loader.Declared disk path name) ∨
      name ∈ loaded.options.builtinBinaries.map shortName := by
  obtain ⟨found, hfound, rfl⟩ := h.found
  rw [List.mem_append, Loader.mem_iff_of_declared hfound]

theorem Loaded.exists_declared (h : Loaded disk targets loaded names) {path : Path}
    (hpath : path ∈ targets) : ∃ name ∈ names, Loader.Declared disk path name := by
  obtain ⟨found, hfound, rfl⟩ := h.found
  obtain ⟨name, hzip⟩ := exists_mem_zip_left hfound.length_eq hpath
  exact ⟨name, List.mem_append_left _ (List.of_mem_zip hzip).2, List.forall₂_zip hfound hzip⟩

/-- Of the disk that a session was loaded from, it matters only what the targets declare. -/
theorem Loaded.transfer {disk' : Disk} (h : Loaded disk targets loaded names)
    (hdeclared : ∀ path ∈ targets, ∀ name, Loader.Declared disk path name →
      Loader.Declared disk' path name) : Loaded disk' targets loaded names where
  loader := h.loader
  found := by
    obtain ⟨found, hfound, heq⟩ := h.found
    refine ⟨found, ?_, heq⟩
    have hboth := (List.forall₂_and_left targets found).mpr ⟨hdeclared, hfound⟩
    exact hboth.imp fun path name ⟨htransfer, hname⟩ => htransfer name hname
  held := h.held
  registry := h.registry

/-- What is loaded for the same targets has the same names, in the same order. -/
theorem Loaded.names_eq {loaded' : Session} {names' : List String}
    (h : Loaded disk targets loaded names) (h' : Loaded disk targets loaded' names')
    (hbuiltins : loaded'.options.builtinBinaries = loaded.options.builtinBinaries) :
    names' = names := by
  obtain ⟨found, hfound, rfl⟩ := h.found
  obtain ⟨found', hfound', rfl⟩ := h'.found
  have hunique : Relator.RightUnique (Loader.Declared disk) := fun _ _ _ => Loader.Declared.unique
  rw [List.right_unique_forall₂' hunique hfound' hfound, hbuiltins]

theorem build_eq_ok (hreached : s.loader.Reached (· = .searchPaths))
    (h : (s.build disk destination targets searchPaths onlyTargetTypes).result = .ok g) :
    ∃ loaded names said, Loaded disk targets loaded names ∧
      s.build disk destination targets searchPaths onlyTargetTypes =
        { loaded.generate disk destination with
          said := said ++ (loaded.generate disk destination).said } := by
  obtain ⟨loaded, names, said, hloading, hbuild⟩ := exists_loading h
  have hregular := hreached.regular
  exact ⟨loaded, names, said, hloading.toLoaded hregular, hbuild⟩

end

/-- A build without built-in binaries whose targets were loaded is a generation. -/
theorem build_of_loadTargets {prepared : Session} {said : List Progress} {destination : Path}
    {targets searchPaths : List Path}
    (hprepare : Session.prepare disk { s with registry := {} } searchPaths = (prepared, .ok ()))
    (htargets : prepared.loadTargets disk targets = (loaded, said, .ok names))
    (hbuiltins : loaded.options.builtinBinaries = []) :
    s.build disk destination targets searchPaths none =
      { loaded.generate disk destination with
        said := said ++ [] ++ (loaded.generate disk destination).said } := by
  have hnone : loaded.loadBuiltins disk loaded.options.builtinBinaries = (loaded, [], .ok []) := by
    rw [hbuiltins]
    rfl
  exact build_of_loading (.stages rfl hprepare htargets hnone) destination

end Session

end StubTree
