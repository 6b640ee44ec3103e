import StubTree.Proofs.Session.Agreement
import StubTree.Proofs.Session.OneDirectory
import StubTree.Proofs.Session.Restriction
import StubTree.Proofs.Text.Sorted

/-! # The order of the targets

Builds of the same targets from one directory, in whatever order and however often each of them is
named, load the same binaries, reach the same types and end with the same stubs. In what order the
namespaces are written, and how often each of them, is all that can differ.
-/

namespace StubTree

open Loader (Stocked)

/-- What two builds have in common that come to the same stubs in whatever order. The file of a stub
has the same text after both, unless another stub on record has the same file. -/
structure Built.SameStubs (b b' : Built) (g g' : Generation) : Prop where
  targets : g'.targets = g.targets
  keys : g'.files.keys.Perm g.files.keys
  files : ∀ space file, g.files.get? space = some file →
    ∃ file', g'.files.get? space = some file' ∧ file'.path = file.path ∧ file'.types = file.types
  contents : SameContents b.events b'.events
  written : ∀ space file, g.files.get? space = some file →
    (∃ e, lastEmission? space b.events = some e ∧ b.disk.read file.path = .ok e.text.toUTF8 ∧
      b'.disk.read file.path = .ok e.text.toUTF8) ∨
    ∃ other otherFile, other ≠ space ∧ g.files.get? other = some otherFile ∧
      (b.disk.SameFile file.path otherFile.path ∨ b'.disk.SameFile file.path otherFile.path)
  skipped : g'.skipped.Perm g.skipped
  typeCount : g'.typeCount = g.typeCount

/-- The file of an up-to-date stub has its text, unless another stub has the same file. -/
theorem Plan.UpToDate.read_or_shared {p : Plan} {s : Stage} {space : Namespace} {e : Emission}
    (h : p.UpToDate s space e) :
    s.disk.read e.path = .ok e.text.toUTF8 ∨ ∃ other e', other ≠ space ∧
      lastEmission? other s.events = some e' ∧ s.disk.SameFile e.path e'.path := by
  obtain ⟨l, hl, hfile | ⟨other, e', hne, hlast, hl'⟩⟩ := h.written
  · exact Or.inl (Disk.read_of_at? hl hfile)
  · exact Or.inr ⟨other, e', hne, hlast, l, (Disk.locateFor_eq_ok.mp hl).2,
      (Disk.locateFor_eq_ok.mp hl').2⟩

namespace Session

variable {s s' : Session} {disk : Disk} {dir destination : Path}
  {targets targets' searchPaths : List Path} {last last' : Stage} {g g' : Generation}
  {seed seed' : TypeId → Prop}

/-- The file of a stub has its text after both runs, unless another stub has the same file after
one of them. -/
theorem written_of_sameContents {p p' : Plan} (hfresh : p.Fresh last) (hfresh' : p'.Fresh last')
    (hcontents : SameContents last.events last'.events) {space : Namespace} {e : Emission}
    (hlast : lastEmission? space last.events = some e) :
    (last.disk.read e.path = .ok e.text.toUTF8 ∧ last'.disk.read e.path = .ok e.text.toUTF8) ∨
      ∃ other e', other ≠ space ∧ lastEmission? other last.events = some e' ∧
        (last.disk.SameFile e.path e'.path ∨ last'.disk.SameFile e.path e'.path) := by
  obtain ⟨e', hlast', hpath, -, htext⟩ := hcontents.exists_last hlast
  have hread' := (hfresh'.upToDate space e' hlast').read_or_shared
  rw [hpath, htext] at hread'
  rcases (hfresh.upToDate space e hlast).read_or_shared with hread | ⟨other, e₁, hne, h₁, hshared⟩
  · rcases hread' with hread' | ⟨other, e₂, hne, h₂, hshared⟩
    · exact Or.inl ⟨hread, hread'⟩
    · obtain ⟨e₁, h₁, hpath₁, -⟩ := hcontents.symm.exists_last h₂
      rw [← hpath₁] at hshared
      exact Or.inr ⟨other, e₁, hne, h₁, Or.inr hshared⟩
  · exact Or.inr ⟨other, e₁, hne, h₁, Or.inl hshared⟩

theorem sameStubs_of_agree (h : Plan.Agree ⟨s, destination⟩ ⟨s', destination⟩ seed seed')
    (hs : Plan.Following ⟨s, destination⟩ seed last)
    (hs' : Plan.Following ⟨s', destination⟩ seed' last')
    (hqueue : last.registry.queue = []) (hqueue' : last'.registry.queue = [])
    (htargets : s'.loader.targetNames = s.loader.targetNames)
    (hresult : (s.builtFrom destination last).result = .ok g)
    (hresult' : (s'.builtFrom destination last').result = .ok g') :
    (s.builtFrom destination last).SameStubs (s'.builtFrom destination last') g g' := by
  cases hresult
  cases hresult'
  have hcontents := h.sameContents hs hs' hqueue hqueue'
  refine
    { targets := ?_
      keys := hcontents.perm_keys rfl rfl
      files := fun _ _ => hcontents.exists_file rfl rfl
      contents := hcontents
      written := ?_
      skipped := ?_
      typeCount := hcontents.typeCount_eq rfl rfl }
  · rw [Generation.targets_foldl_note, Generation.targets_foldl_note]
    exact htargets
  · intro space file hfile
    obtain ⟨e, hlast, hpath, -⟩ := Generation.exists_last_of_get?_files rfl hfile
    rw [hpath]
    refine (written_of_sameContents hs.toFresh hs'.toFresh hcontents hlast).imp ?_ ?_
    · exact fun hread => ⟨e, hlast, hread⟩
    · rintro ⟨other, e', hne, hlast', hshared⟩
      obtain ⟨otherFile, hother, hpath'⟩ := Generation.exists_get?_files_of_last
        (g := ⟨destination, s.loader.targetNames, [], []⟩) rfl hlast'
      rw [← hpath'] at hshared
      exact ⟨other, otherFile, hne, hother, hshared⟩
  · rw [List.perm_ext_iff_of_nodup (Generation.nodup_skipped_foldl_note rfl _)
      (Generation.nodup_skipped_foldl_note rfl _)]
    intro space
    rw [Generation.mem_skipped_foldl_note rfl rfl, Generation.mem_skipped_foldl_note rfl rfl]
    exact h.left_out_iff hs hs' hqueue hqueue'

/-! ## Builds -/

variable {o : Options} {choice : Option Document}

theorem canLoad_of_mem_iff (hdir : OneDirectory disk o.manifestSuffix dir targets searchPaths)
    (hmem : ∀ path, path ∈ targets' ↔ path ∈ targets)
    (h : (Session.new o).CanLoad disk targets searchPaths choice) :
    (Session.new o).CanLoad disk targets' searchPaths choice := by
  by_cases hnone : targets' = []
  · have hempty : targets = [] := List.eq_nil_iff_forall_not_mem.mpr fun path hpath => by
      simpa [hnone] using (hmem path).mpr hpath
    rwa [hnone, ← hempty]
  obtain ⟨loaded, names, said, hloading⟩ := h
  have hnew := Stocked.new disk o.manifestSuffix dir
  exact canLoad_of_loading hnew hdir hloading hnew rfl (fun path => (hmem path).mp) (Or.inl hnone)

/-- Sessions that have loaded the same targets agree on what is to be written. -/
theorem agree_of_loading {loaded loaded' : Session} {names names' : List String}
    {said said' : List Progress}
    (hdir : OneDirectory disk o.manifestSuffix dir targets searchPaths)
    (hdir' : OneDirectory disk o.manifestSuffix dir targets' searchPaths)
    (hmem : ∀ path, path ∈ targets' ↔ path ∈ targets)
    (h : (Session.new o).Loading disk targets searchPaths choice loaded names said)
    (h' : (Session.new o).Loading disk targets' searchPaths choice loaded' names' said') :
    Plan.Agree ⟨loaded, destination⟩ ⟨loaded', destination⟩ (loaded.Seed disk targets)
        (loaded'.Seed disk targets') ∧
      loaded'.loader.targetNames = loaded.loader.targetNames := by
  have hnew := Stocked.new disk o.manifestSuffix dir
  have hregular := regular_new o
  have hloaded := h.toLoaded hregular
  have hloaded' := h'.toLoaded hregular
  have hoptions := h.options_eq h' rfl
  have hwithin := within_of_subset hnew hdir h (stocked_of_loading hnew hdir' h') hloaded'
    (List.nil_subset _) (fun path hpath => (hmem path).mpr hpath)
    (congrArg (·.builtinBinaries) hoptions)
  have hnames : ∀ name, name ∈ names' ↔ name ∈ names := by
    intro name
    rw [hloaded.mem_names, hloaded'.mem_names, hoptions]
    simp only [hmem]
  have htargets : ∀ name, name ∈ loaded'.loader.targets ↔ name ∈ loaded.loader.targets := by
    intro name
    rw [h.mem_targets hregular, h'.mem_targets hregular]
    simp only [hmem]
  refine ⟨agree_of_within hloaded hloaded' hoptions hnames hwithin ?_ destination, ?_⟩
  · intro t
    rw [Wants, Wants, hoptions, htargets]
  · have hnodup : loaded.loader.targets.Nodup := h.nodup_targets hregular List.nodup_nil
    have hnodup' : loaded'.loader.targets.Nodup := h'.nodup_targets hregular List.nodup_nil
    exact Text.sorted_eq_of_perm ((List.perm_ext_iff_of_nodup hnodup' hnodup).mpr htargets)

/-- The order of the targets does not matter, nor how often each is named: where they stand in one
directory, they can be loaded in every order or in none, and builds with a result come to the same
stubs, the same record of them and the same namespaces that are left out. -/
theorem build_order_irrelevant (hdir : OneDirectory disk o.manifestSuffix dir targets searchPaths)
    (hmem : ∀ path, path ∈ targets' ↔ path ∈ targets) (destination : Path)
    (choice : Option Document) :
    ((Session.new o).CanLoad disk targets searchPaths choice ↔
      (Session.new o).CanLoad disk targets' searchPaths choice) ∧
    ∀ g g',
      ((Session.new o).build disk destination targets searchPaths choice).result = .ok g →
      ((Session.new o).build disk destination targets' searchPaths choice).result = .ok g' →
      ((Session.new o).build disk destination targets searchPaths choice).SameStubs
        ((Session.new o).build disk destination targets' searchPaths choice) g g' := by
  have hdir' : OneDirectory disk o.manifestSuffix dir targets' searchPaths :=
    hdir.of_subset fun path => (hmem path).mp
  refine ⟨⟨canLoad_of_mem_iff hdir hmem, canLoad_of_mem_iff hdir' fun path => (hmem path).symm⟩, ?_⟩
  intro g g' hresult hresult'
  obtain ⟨loaded, names, said, last, hloading, hloaded, hfollowing, hqueue, hrecord, hbuild⟩ :=
    exists_following (regular_new o) hresult
  obtain ⟨loaded', names', said', last', hloading', hloaded', hfollowing', hqueue', hrecord',
    hbuild'⟩ := exists_following (regular_new o) hresult'
  obtain ⟨hagree, htargets⟩ := agree_of_loading hdir hdir' hmem hloading hloading'
  have hsame := sameStubs_of_agree hagree hfollowing hfollowing' hqueue hqueue' htargets hrecord
    hrecord'
  rw [hbuild, hbuild']
  exact { hsame with }

/-! ## Another order -/

/-- The types and the emissions of every stub on record, and the namespaces that are left out. -/
def pairSummary (g : Generation) : List (Namespace × List String × Nat) × List Namespace :=
  (g.files.map fun f => (f.1, f.2.types, f.2.emissions), g.skipped)

/-- What a build of the types of targets leaves on record, computed without sorting. -/
def pairRecord? (targets : List Path) :
    Option (List (Namespace × List String × Nat) × List Namespace) :=
  ((Session.new {}).buildInOrder pairDisk pairDestination targets [] (some (.bool true))).bind
    fun b => b.result.toOption.map pairSummary

set_option synthInstance.maxSize 1000 in
set_option maxRecDepth 100000 in
theorem pair_evaluated :
    pairRecord? [pairTarget "A", pairTarget "B"] =
        some ([(.named "P", ["X", "Z"], 2), (.named "R", ["U"], 1), (.named "Q", ["Y", "Z"], 1)],
          [.named "S"]) ∧
      pairRecord? [pairTarget "B", pairTarget "A", pairTarget "B"] =
        some ([(.named "Q", ["Y", "Z"], 1), (.named "P", ["X", "Z"], 1), (.named "R", ["U"], 1)],
          [.named "S"]) := by
  decide +kernel

/-- The build of the types of some targets. -/
def pairBuild (targets : List Path) : Built :=
  (Session.new {}).build pairDisk pairDestination targets [] (some (.bool true))

/-- The second order writes no stub twice, and comes to the same stubs. -/
theorem build_order_irrelevant_pair :
    ∃ g g', (pairBuild [pairTarget "A", pairTarget "B"]).result = .ok g ∧
      (pairBuild [pairTarget "B", pairTarget "A", pairTarget "B"]).result = .ok g' ∧
      (pairBuild [pairTarget "A", pairTarget "B"]).SameStubs
        (pairBuild [pairTarget "B", pairTarget "A", pairTarget "B"]) g g' ∧
      pairSummary g =
        ([(.named "P", ["X", "Z"], 2), (.named "R", ["U"], 1), (.named "Q", ["Y", "Z"], 1)],
          [.named "S"]) ∧
      pairSummary g' =
        ([(.named "Q", ["Y", "Z"], 1), (.named "P", ["X", "Z"], 1), (.named "R", ["U"], 1)],
          [.named "S"]) := by
  obtain ⟨hrecord, hrecord'⟩ := pair_evaluated
  obtain ⟨g, hresult, hsummary⟩ := exists_result_of_buildInOrder hrecord
  obtain ⟨g', hresult', hsummary'⟩ := exists_result_of_buildInOrder hrecord'
  have hmem : ∀ path, path ∈ [pairTarget "B", pairTarget "A", pairTarget "B"] ↔
      path ∈ [pairTarget "A", pairTarget "B"] := by
    intro path
    rw [List.mem_cons, or_iff_right_iff_imp]
    rintro rfl
    exact List.mem_cons_of_mem _ List.mem_cons_self
  have hsame := (build_order_irrelevant (o := {}) pairDirectory hmem pairDestination
    (some (.bool true))).2 g g' hresult hresult'
  exact ⟨g, g', hresult, hresult', hsame, hsummary, hsummary'⟩

end Session

end StubTree
