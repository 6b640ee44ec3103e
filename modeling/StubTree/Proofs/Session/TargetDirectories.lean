import StubTree.Proofs.Loader.Directory
import StubTree.Proofs.Session.Loading

/-! # The directories of the targets

The directory of a target joins the search paths when the turn of the target comes, and not before:
what an earlier target references is looked up without it. So a reference is found for certain if
its file stands in a search path, or in the directory of a target that comes no later than the one
whose references are followed.
-/

namespace StubTree

/-- The faults of a binary that is not found, or not under its name. -/
def Fault.IsResolution : Fault → Prop
  | .binaryNotFound _ _ | .binaryMisnamed _ _ _ => True
  | _ => False

namespace Loader

variable {disk : Disk} {suffix fileName : String} {visible : Path → Prop} {dirs : List Path}
  {dir path : Path} {m : Manifest} {l : Loader} {fault : Fault}

/-- A visible directory is the only one that has a file for a name, and the manifest in the file
declares the name. -/
structure SoleFile (disk : Disk) (suffix : String) (visible : Path → Prop) (name : String)
    (dir : Path) (m : Manifest) : Prop where
  inView : visible dir
  file : disk.HasFile (dir.entry (name ++ suffix))
  read : readExpected disk (dir.entry (name ++ suffix)) (some name) = .ok m
  sole : ∀ other, visible other → disk.HasFile (other.entry (name ++ suffix)) → other = dir

/-- The names that a manifest leads to, along the files that visible directories have for them. -/
inductive LeadsTo (disk : Disk) (suffix : String) (visible : Path → Prop) (m : Manifest) :
    String → Prop
  | referenced {name : String} (h : name ∈ m.wanted) : LeadsTo disk suffix visible m name
  | onward {name other : String} {dir : Path} {next : Manifest}
      (h : LeadsTo disk suffix visible m name)
      (hfile : SoleFile disk suffix visible name dir next) (hwanted : other ∈ next.wanted) :
      LeadsTo disk suffix visible m other

theorem not_leadsTo {name : String} (hwanted : m.wanted = []) :
    ¬ LeadsTo disk suffix visible m name := by
  intro h
  induction h with
  | referenced h =>
      rw [hwanted] at h
      cases h
  | onward _ _ _ ih => exact ih

/-- A target that can be read, and leads to no name without a file of its own in a visible
directory. -/
def Resolvable (disk : Disk) (suffix : String) (visible : Path → Prop) (path : Path) : Prop :=
  ∃ p m, absolute disk path = .ok p ∧ Manifest.load disk p = .ok m ∧
    ∀ name, LeadsTo disk suffix visible m name → ∃ dir next,
      SoleFile disk suffix visible name dir next

/-- The directory that joins the search paths with a target. -/
def TargetDirectory (disk : Disk) (target dir : Path) : Prop :=
  ∃ p, absolute disk target = .ok p ∧ dir = p.parent

theorem targetDirectory_iff {p : Path} (hp : absolute disk path = .ok p) :
    TargetDirectory disk path dir ↔ dir = p.parent := by
  rw [TargetDirectory, hp]
  simp

/-! ## Looking up files -/

theorem findFile_eq_none (h : findFile disk fileName dirs = .ok none) :
    ∀ dir ∈ dirs, ¬ disk.HasFile (dir.entry fileName) := by
  induction dirs with
  | nil => exact fun _ hdir => by cases hdir
  | cons here rest ih =>
      rw [findFile] at h
      obtain ⟨entry, hprobe, h⟩ := exists_of_bind_eq_ok h
      split at h
      · cases h
      next hnone =>
        rintro dir (_ | ⟨_, hdir⟩)
        · rintro ⟨entry', hprobe', hfile⟩
          rw [hprobe] at hprobe'
          cases hprobe'
          exact hnone hfile
        · exact ih h dir hdir

/-- Where every name that a manifest leads to has its file, nothing that it references is missed. -/
theorem passable_of_soleFile (hresolver : l.resolver = some .searchPaths)
    (hvisible : ∀ dir, dir ∈ l.searchPaths ↔ visible dir)
    (hfiles : ∀ name, LeadsTo disk l.suffix visible m name → ∃ dir next,
      SoleFile disk l.suffix visible name dir next) :
    Passable disk (¬ ·.IsResolution) (LeadsTo disk l.suffix visible m) l := by
  -- What the search for a name finds is the sole file of it.
  have hfound : ∀ name path, LeadsTo disk l.suffix visible m name →
      findFile disk (name ++ l.suffix) l.searchPaths = .ok (some path) →
      ∃ dir next, SoleFile disk l.suffix visible name dir next ∧
        path = dir.entry (name ++ l.suffix) := by
    intro name path hleads hfind
    obtain ⟨dir, next, hsole⟩ := hfiles name hleads
    obtain ⟨before, here, after, hsplit, -, hfile, rfl⟩ := findFile_eq_some hfind
    have hmem : here ∈ l.searchPaths := hsplit ▸ List.mem_append_right _ List.mem_cons_self
    obtain rfl := hsole.sole here ((hvisible here).mp hmem) hfile
    exact ⟨here, next, hsole, rfl⟩
  refine { resolver := hresolver, lookedUp := ?_, found := ?_, read := ?_, wanted := ?_ }
  · intro name fault _ _ hfind
    obtain ⟨_, -, hprobe⟩ := findFile_eq_error hfind
    obtain rfl := (Disk.probe_eq_error hprobe).2
    exact id
  · intro identity hleads _ hfind
    obtain ⟨dir, next, hsole⟩ := hfiles _ hleads
    exact absurd hsole.file (findFile_eq_none hfind dir ((hvisible dir).mpr hsole.inView))
  · intro name path fault hleads _ hfind hread
    obtain ⟨dir, next, hsole, rfl⟩ := hfound name path hleads hfind
    rw [hsole.read] at hread
    cases hread
  · rintro name next hleads _ ⟨path, hfind, hread⟩
    obtain ⟨dir, next', hsole, rfl⟩ := hfound name path hleads hfind
    rw [hsole.read] at hread
    cases hread
    exact fun other => hleads.onward hsole

/-- Loading a target comes to no fault of resolution, if what it leads to can be found in the search
paths and in the directory of the target. -/
theorem loadTarget_resolves (hresolver : l.resolver = some .searchPaths)
    (hresolvable : Resolvable disk l.suffix
      (fun dir => dir ∈ l.searchPaths ∨ TargetDirectory disk path dir) path) :
    Passes (¬ ·.IsResolution) (l.loadTarget disk path).2 := by
  obtain ⟨p, m, hp, hm, hfiles⟩ := hresolvable
  obtain rfl := (Manifest.load_eq_ok hm).1
  have hread : readExpected disk m.path none = .ok m :=
    readExpected_of_load (absolute_of_load hp hm) hm fun _ hnone => by cases hnone
  rw [loadTarget, Stack.inside_endless, loadOn_endless, hp]
  dsimp only
  cases hadd : addSearchPath disk l m.path.parent with
  | error fault => exact absurd hadd (addSearchPath_ne_error hread)
  | ok l₁ =>
      obtain ⟨q, hq, -⟩ := exists_of_bind_eq_ok hadd
      obtain ⟨dirs, hadd', hdirs⟩ := addSearchPath_of_absolute hq l
      rw [hadd] at hadd'
      cases hadd'
      obtain rfl := eq_parent_of_absolute hp hq
      have hvisible : ∀ dir, dir ∈ dirs ↔ dir ∈ l.searchPaths ∨ TargetDirectory disk path dir := by
        intro dir
        rw [hdirs, targetDirectory_iff hp]
      have hopens : Opens disk (¬ ·.IsResolution)
          (LeadsTo disk l.suffix
            (fun dir => dir ∈ l.searchPaths ∨ TargetDirectory disk path dir) m)
          { l with searchPaths := dirs } m.path none := by
        refine { read := hread ▸ passes_ok m, wanted := ?_ }
        intro m' hm' _ name hname
        rw [hread] at hm'
        cases hm'
        exact .referenced hname
      have hpassable :=
        passable_of_soleFile (l := { l with searchPaths := dirs }) hresolver hvisible hfiles
      have hpasses := load_passes hpassable hopens
      dsimp only
      cases hload : load disk { l with searchPaths := dirs } m.path none with
      | mk last result =>
          rw [hload] at hpasses
          cases result with
          | ok name => exact passes_ok name
          | error fault => exact hpasses

end Loader

namespace Session

open Loader (Resolvable TargetDirectory Passes SoleFile)

variable {s : Session} {disk : Disk} {targets : List Path}

/-- Loading targets comes to no fault of resolution, if what each of them leads to can be found when
its turn comes. -/
theorem loadTargets_passes (hresolver : s.loader.resolver = some .searchPaths)
    (hresolvable : ∀ before path after, targets = before ++ path :: after →
      Resolvable disk s.loader.suffix (fun dir => dir ∈ s.loader.searchPaths ∨
        ∃ target ∈ before ++ [path], TargetDirectory disk target dir) path) :
    Passes (¬ ·.IsResolution) (s.loadTargets disk targets).2.2 := by
  refine loadAll_passes (fun calls l => ∃ targets : List Path, calls = targets.map .target ∧
    l.resolver = some .searchPaths ∧ ∀ before path after, targets = before ++ path :: after →
      Resolvable disk l.suffix (fun dir => dir ∈ l.searchPaths ∨
        ∃ target ∈ before ++ [path], TargetDirectory disk target dir) path)
    ?_ ⟨targets, rfl, hresolver, hresolvable⟩
  rintro c calls l ⟨waiting, hcalls, hsearching, hturns⟩
  obtain ⟨path, rest, rfl, rfl, rfl⟩ := List.map_eq_cons_iff.mp hcalls.symm
  have hfirst := hturns [] path rest rfl
  simp only [List.nil_append, List.mem_singleton, exists_eq_left] at hfirst
  have hone := Loader.loadTarget_resolves hsearching hfirst
  refine ⟨hone.map Link.held, fun link hlink => ?_⟩
  have hsuffix := Loader.suffix_call disk l (.target path)
  have hresolver' := Loader.resolver_call disk l (.target path)
  cases hload : l.loadTarget disk path with
  | mk last result =>
      rw [Loader.call_target, hload] at hlink hsuffix hresolver' ⊢
      obtain ⟨name, rfl⟩ : ∃ name, result = .ok name := by
        cases result with
        | ok name => exact ⟨name, rfl⟩
        | error fault => cases hlink
      obtain ⟨p, q, hp, hq, hpaths, -, -⟩ := Loader.loadTarget_eq_ok hload
      obtain rfl := Loader.eq_parent_of_absolute hp hq
      refine ⟨rest, rfl, hresolver'.trans hsearching, ?_⟩
      intro before other after hsplit
      have hturn := hturns (path :: before) other after (congrArg (path :: ·) hsplit)
      -- The directory of this target is a search path by then.
      have hvisible : (fun dir => dir ∈ last.searchPaths ∨
          ∃ target ∈ before ++ [other], TargetDirectory disk target dir) =
          fun dir => dir ∈ l.searchPaths ∨
            ∃ target ∈ path :: before ++ [other], TargetDirectory disk target dir := by
        funext dir
        rw [hpaths, List.cons_append, List.exists_mem_cons_iff, Loader.targetDirectory_iff hp,
          or_assoc]
      dsimp only at hsuffix ⊢
      rw [hsuffix, hvisible]
      exact hturn

/-- Loading the targets of a build comes to no fault of resolution, if what each of them leads to
can be found in the search paths, old and new, and in the directories of the targets up to it. -/
theorem loadTargets_resolves {prepared : Session} {searchPaths : List Path}
    (hprepare : s.prepare disk searchPaths = (prepared, .ok ()))
    (hresolvable : ∀ before path after, targets = before ++ path :: after →
      Resolvable disk s.loader.suffix (fun dir => dir ∈ s.loader.searchPaths ∨
        (∃ p ∈ searchPaths, Loader.absolute disk p = .ok dir) ∨
        ∃ target ∈ before ++ [path], TargetDirectory disk target dir) path) :
    Passes (¬ ·.IsResolution) (prepared.loadTargets disk targets).2.2 := by
  have hloader := congrArg (·.1.loader) hprepare
  have hok := congrArg (·.2) hprepare
  dsimp only [prepare] at hloader hok
  obtain ⟨dirs, hdirs, -⟩ :=
    Loader.addSearchPaths_fst disk (s.loader.install .searchPaths) searchPaths
  rw [hdirs] at hloader
  have hpaths := Loader.mem_searchPaths_of_addSearchPaths (Prod.ext hdirs hok)
  apply loadTargets_passes
  · rw [← hloader]
    rfl
  · intro before path after hsplit
    have hturn := hresolvable before path after hsplit
    rw [← hloader]
    simp only [hpaths, or_assoc]
    exact hturn

/-! ## Two targets apart -/

/-- Two targets in two directories, of which one references the other. -/
def apartDisk : Disk :=
  ⟨[], [(["a"], .directory), (["a", "A.yaml"], .file "name: A\nreferences: [B]".toUTF8),
    (["b"], .directory), (["b", "B.yaml"], .file "name: B".toUTF8)]⟩

def apartDirectory (part : String) : Path := ⟨.root, [part]⟩

def apartReferencing : Path := ⟨.root, ["a", "A.yaml"]⟩

def apartReferenced : Path := ⟨.root, ["b", "B.yaml"]⟩

/-- A new session, prepared for a build without search paths. -/
def apartSession : Session := ((Session.new {}).prepare apartDisk []).1

section

variable {visible : Path → Prop} {name : String} {dir : Path} {wanted : List String}

/-- Each of the directories has one file, under the name that it declares. -/
theorem apart_soleFile
    (hvisible : ∀ dir, visible dir → dir ∈ [apartDirectory "a", apartDirectory "b"])
    (hdir : visible dir) (hmem : (name, dir, wanted) ∈
      [("A", apartDirectory "a", ["B"]), ("B", apartDirectory "b", [])]) :
    ∃ m, SoleFile apartDisk ".yaml" visible name dir m ∧ m.wanted = wanted := by
  have hevaluated : ∀ e ∈ [("A", apartDirectory "a", ["B"]), ("B", apartDirectory "b", [])],
      (Loader.findFile apartDisk (e.1 ++ ".yaml") [e.2.1]).toOption =
        some (some (e.2.1.entry (e.1 ++ ".yaml"))) ∧
      (Loader.readExpected apartDisk (e.2.1.entry (e.1 ++ ".yaml")) (some e.1)).toOption.map
        (·.wanted) = some e.2.2 ∧
      ∀ other ∈ [apartDirectory "a", apartDirectory "b"], other = e.2.1 ∨
        (Loader.findFile apartDisk (e.1 ++ ".yaml") [other]).toOption = some none := by
    decide +kernel
  obtain ⟨hfile, hread, hother⟩ := hevaluated _ hmem
  obtain ⟨m, hm, hwanted⟩ := Option.map_eq_some_iff.mp hread
  refine ⟨m, ?_, hwanted⟩
  refine
    { inView := hdir
      file := (Loader.findFile_eq_entry (eq_ok_of_toOption hfile)).1
      read := eq_ok_of_toOption hm
      sole := ?_ }
  intro other hinView hhas
  refine (hother other (hvisible other hinView)).resolve_right fun hnone => ?_
  exact Loader.findFile_eq_none (eq_ok_of_toOption hnone) other List.mem_cons_self hhas

theorem apart_targets :
    (∃ m, Manifest.load apartDisk apartReferencing = .ok m ∧ m.wanted = ["B"]) ∧
      (∃ m, Manifest.load apartDisk apartReferenced = .ok m ∧ m.wanted = []) ∧
      Loader.absolute apartDisk apartReferencing = .ok apartReferencing ∧
      Loader.absolute apartDisk apartReferenced = .ok apartReferenced := by
  have hevaluated :
      (Manifest.load apartDisk apartReferencing).toOption.map (·.wanted) = some ["B"] ∧
      (Manifest.load apartDisk apartReferenced).toOption.map (·.wanted) = some [] ∧
      (Loader.absolute apartDisk apartReferencing).toOption = some apartReferencing ∧
      (Loader.absolute apartDisk apartReferenced).toOption = some apartReferenced := by
    decide +kernel
  obtain ⟨hfirst, hsecond, hp, hq⟩ := hevaluated
  obtain ⟨m, hm, hwanted⟩ := Option.map_eq_some_iff.mp hfirst
  obtain ⟨m', hm', hwanted'⟩ := Option.map_eq_some_iff.mp hsecond
  exact ⟨⟨m, eq_ok_of_toOption hm, hwanted⟩, ⟨m', eq_ok_of_toOption hm', hwanted'⟩,
    eq_ok_of_toOption hp, eq_ok_of_toOption hq⟩

theorem apart_directory (dir : Path) :
    (TargetDirectory apartDisk apartReferencing dir ↔ dir = apartDirectory "a") ∧
      (TargetDirectory apartDisk apartReferenced dir ↔ dir = apartDirectory "b") := by
  obtain ⟨-, -, hp, hq⟩ := apart_targets
  exact ⟨Loader.targetDirectory_iff hp, Loader.targetDirectory_iff hq⟩

/-- The target without references leads nowhere. -/
theorem resolvable_referenced : Resolvable apartDisk ".yaml" visible apartReferenced := by
  obtain ⟨-, ⟨m, hm, hwanted⟩, -, hp⟩ := apart_targets
  exact ⟨apartReferenced, m, hp, hm, fun name hleads => absurd hleads (Loader.not_leadsTo hwanted)⟩

/-- The other target leads to what it references, which leads nowhere. -/
theorem resolvable_referencing
    (hvisible : ∀ dir, visible dir → dir ∈ [apartDirectory "a", apartDirectory "b"])
    (hdir : visible (apartDirectory "b")) :
    Resolvable apartDisk ".yaml" visible apartReferencing := by
  obtain ⟨⟨m, hm, hwanted⟩, -, hp, -⟩ := apart_targets
  obtain ⟨next, hsole, hnone⟩ : ∃ next,
      SoleFile apartDisk ".yaml" visible "B" (apartDirectory "b") next ∧ next.wanted = [] :=
    apart_soleFile hvisible hdir (by simp)
  refine ⟨apartReferencing, m, hp, hm, ?_⟩
  have hleads : ∀ name, Loader.LeadsTo apartDisk ".yaml" visible m name → name = "B" := by
    intro name hleads
    induction hleads with
    | referenced h =>
        rw [hwanted] at h
        exact List.mem_singleton.mp h
    | onward _ hfile hmem ih =>
        subst ih
        have hsame := hsole.sole _ hfile.inView hfile.file
        rw [hsame] at hfile
        have hread := hfile.read
        rw [hsole.read] at hread
        cases hread
        rw [hnone] at hmem
        cases hmem
  intro name hname
  rw [hleads name hname]
  exact ⟨_, next, hsole⟩

end

theorem apart_visible {target : Path} (htarget : target ∈ [apartReferencing, apartReferenced])
    (hdir : TargetDirectory apartDisk target dir) :
    dir ∈ [apartDirectory "a", apartDirectory "b"] := by
  simp only [List.mem_cons, List.not_mem_nil, or_false] at htarget ⊢
  rcases htarget with rfl | rfl
  · exact Or.inl ((apart_directory dir).1.mp hdir)
  · exact Or.inr ((apart_directory dir).2.mp hdir)

/-- In the one order all that the targets lead to is found. -/
theorem loadTargets_resolves_apart :
    Passes (¬ ·.IsResolution)
        (apartSession.loadTargets apartDisk [apartReferenced, apartReferencing]).2.2 ∧
      (apartSession.loadTargets apartDisk [apartReferenced, apartReferencing]).2.2 =
        .ok ["B", "A"] := by
  have hevaluated :
      (apartSession.loadTargets apartDisk [apartReferenced, apartReferencing]).2.2.toOption =
        some ["B", "A"] := by
    decide +kernel
  have hprepare : (Session.new {}).prepare apartDisk [] = (apartSession, .ok ()) := rfl
  refine ⟨loadTargets_resolves hprepare ?_, eq_ok_of_toOption hevaluated⟩
  intro before path after hsplit
  rcases before with _ | ⟨first, _ | ⟨second, rest⟩⟩
  · cases hsplit
    exact resolvable_referenced
  · cases hsplit
    apply resolvable_referencing
    · rintro dir (hdir | ⟨p, hp, -⟩ | ⟨target, htarget, hdir⟩)
      · cases hdir
      · cases hp
      · exact apart_visible (by simpa [or_comm] using htarget) hdir
    · exact Or.inr (Or.inr ⟨apartReferenced, List.mem_cons_self, (apart_directory _).2.mpr rfl⟩)
  · simp at hsplit

/-- The directories of the two targets. -/
def apartVisible (dir : Path) : Prop :=
  ∃ target ∈ [apartReferencing, apartReferenced], TargetDirectory apartDisk target dir

/-- The binary that is not found, and where it was looked for. -/
def missing? : Except Fault Generation → Option (String × List Path)
  | .error (.binaryNotFound identity searched) => some (identity, searched)
  | _ => none

theorem eq_error_of_missing? {result : Except Fault Generation} {identity : String}
    {searched : List Path} (h : missing? result = some (identity, searched)) :
    result = .error (.binaryNotFound identity searched) := by
  unfold missing? at h
  split at h
  · cases h
    rfl
  · cases h

/-- In the other order a reference is looked up too soon: though the directories of the targets have
a file for every name, one is not found. -/
theorem build_unresolved_apart :
    (∀ path ∈ [apartReferencing, apartReferenced], Resolvable apartDisk ".yaml" apartVisible path) ∧
    (∀ name ∈ ["A", "B"], ∃ dir m, SoleFile apartDisk ".yaml" apartVisible name dir m) ∧
    ((Session.new {}).build apartDisk ⟨.root, ["out"]⟩ [apartReferencing, apartReferenced] []
      none).result = .error (.binaryNotFound "B" [apartDirectory "a"]) := by
  have hevaluated : missing? ((Session.new {}).build apartDisk ⟨.root, ["out"]⟩
      [apartReferencing, apartReferenced] [] none).result = some ("B", [apartDirectory "a"]) := by
    decide +kernel
  have hvisible : ∀ dir, apartVisible dir → dir ∈ [apartDirectory "a", apartDirectory "b"] := by
    rintro dir ⟨target, htarget, hdir⟩
    exact apart_visible htarget hdir
  have hfirst : apartVisible (apartDirectory "a") :=
    ⟨apartReferencing, List.mem_cons_self, (apart_directory _).1.mpr rfl⟩
  have hsecond : apartVisible (apartDirectory "b") :=
    ⟨apartReferenced, by simp, (apart_directory _).2.mpr rfl⟩
  refine ⟨?_, ?_, ?_⟩
  · intro path hpath
    simp only [List.mem_cons, List.not_mem_nil, or_false] at hpath
    rcases hpath with rfl | rfl
    · exact resolvable_referencing hvisible hsecond
    · exact resolvable_referenced
  · intro name hname
    simp only [List.mem_cons, List.not_mem_nil, or_false] at hname
    rcases hname with rfl | rfl
    · obtain ⟨m, hsole, -⟩ := apart_soleFile hvisible hfirst (List.mem_cons_self)
      exact ⟨_, m, hsole⟩
    · obtain ⟨m, hsole, -⟩ := apart_soleFile hvisible hsecond
        (List.mem_cons_of_mem _ List.mem_cons_self)
      exact ⟨_, m, hsole⟩
  · exact eq_error_of_missing? hevaluated

end Session

end StubTree
