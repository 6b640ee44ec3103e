import StubTree.Proofs.Disk.Walks
import StubTree.Proofs.Session.Loading
import StubTree.Proofs.Session.UpToDate
import StubTree.Proofs.Stub.Directory

/-! # Where stubs are written

The stubs of plain namespaces are apart from each other and below the destination: each is a new
name in the directories of its namespace. A stub cannot be written onto the directory itself, nor
onto the one above it, since both were made before.
-/

namespace StubTree

/-- The emission behind the last record of a namespace is one of the events. -/
theorem mem_events_of_lastEmission? {space : Namespace} {events : List Event} {e : Emission}
    (h : lastEmission? space events = some e) : .emitted e ∈ events ∧ e.space = space := by
  obtain ⟨event, hevent, heq⟩ := List.mem_filterMap.mp (List.mem_of_getLast? h)
  split at heq
  next e' =>
    split at heq
    next hspace =>
      cases heq
      exact ⟨hevent, hspace⟩
    next => cases heq
  next => cases heq

/-- Where a file is not a directory but its own is there, it is a new name in it. -/
theorem Disk.locate_file {d : Disk} {anchor : Anchor} {parts names : List String} {name : String}
    {l : Location} (hnames : names ≠ []) (hdots : ".." ∉ names)
    (hdirectory : d.HasDirectory ⟨anchor, parts ++ names⟩)
    (hl : d.locate ⟨anchor, parts ++ names ++ [name].filter Path.isSegment⟩ = .ok l)
    (hfile : d.at? l ≠ some .directory) :
    ∃ root, d.locate ⟨anchor, parts⟩ = .ok root ∧ l = root ++ names ++ [name] := by
  by_cases hsegment : Path.isSegment name = true
  · rw [List.filter_cons_of_pos hsegment, List.filter_nil, List.append_assoc] at hl
    obtain ⟨root, hroot, hwalk⟩ := locate_append hl
    obtain ⟨last, hlast, hthere, hstep⟩ := walk_concat hwalk
    refine ⟨root, hroot, ?_⟩
    rw [← walk_of_dots_not_mem hdots hlast]
    refine step_of_ne ?_ hstep
    rintro rfl
    -- A step back comes to the directory above, through which the walk came before.
    obtain ⟨above, part, rfl⟩ : ∃ above part, names = above ++ [part] :=
      ⟨_, _, (List.dropLast_append_getLast hnames).symm⟩
    obtain ⟨before, -, hbefore, hstep'⟩ := walk_concat hlast
    have hpart : part ≠ ".." := fun heq => hdots (heq ▸ List.mem_append_right _ List.mem_cons_self)
    rw [step_of_ne hpart hstep'] at hstep
    cases hstep
    rw [List.dropLast_concat] at hfile
    exact hfile hbefore
  · rw [List.filter_cons_of_neg hsegment, List.filter_nil, List.append_nil] at hl
    obtain ⟨l', hl', hthere⟩ := hdirectory
    rw [hl] at hl'
    cases hl'
    exact absurd hthere hfile

namespace Plan

variable {p : Plan} {s s' : Stage} {d d' : Disk} {e : Emission}

/-- A stub in the directories of its namespace, if these are plain. -/
structure Placed (p : Plan) (d : Disk) (e : Emission) : Prop where
  allowed : e.space.check = .ok ()
  below : e.space.Plain → ∃ root, d.locate p.destination = .ok root ∧
    d.locate e.path = .ok (root ++ e.space.directories ++ [p.session.options.stubFileName])

theorem Placed.mono (h : p.Placed d e) (hkeeps : d.Keeps d') : p.Placed d' e where
  allowed := h.allowed
  below hplain := by
    obtain ⟨root, hroot, hpath⟩ := h.below hplain
    exact ⟨root, hkeeps.locate hroot, hkeeps.locate hpath⟩

/-- A stub that was just written. -/
theorem placed_of_write {directory : Path} {made disk : Disk} {bytes : ByteArray}
    (hvalid : p.session.options.Valid)
    (hdirectory : e.space.directory p.destination = .ok directory)
    (hpath : e.path = p.stubPath directory)
    (hmade : d.makeDirectories directory = (made, none))
    (hwrite : made.write e.path bytes = .ok disk) : p.Placed made e where
  allowed := Namespace.check_of_directory hdirectory
  below hplain := by
    have hslash : '/' ∉ p.session.options.stubFileName.toList :=
      fun hmem => (hvalid.separators '/' hmem).1 rfl
    have hthere := Disk.hasDirectory_of_makeDirectories hmade
    obtain ⟨l, hl, hentry, -⟩ := Disk.write_eq_ok hwrite
    replace hl := (Disk.locateFor_eq_ok.mp hl).2
    rw [hplain.directory_eq_ok hdirectory] at hpath hthere
    rw [hpath, stubPath, Path.entry_of_not_mem _ hslash] at hl ⊢
    obtain ⟨root, hroot, rfl⟩ := Disk.locate_file e.space.directories_ne_nil
      e.space.dots_not_mem_directories hthere hl hentry
    exact ⟨root, hroot, hl⟩

theorem Round.placed (h : p.Round s s') (hvalid : p.session.options.Valid)
    (hinv : ∀ e, .emitted e ∈ s.events → p.Placed s.disk e) :
    ∀ e, .emitted e ∈ s'.events → p.Placed s'.disk e := by
  intro e he
  cases h with
  | skipped hpop hselect =>
      rcases List.mem_append.mp he with hold | hnew
      · exact hinv e hold
      · cases List.mem_singleton.mp hnew
  | @emitted last members met registry directory made disk hpop htypes hne hdirectory hpath hmade
      hadded hrender hwrite =>
      obtain ⟨l, -, hentry, rfl⟩ := Disk.write_eq_ok hwrite
      have hwritten := Disk.keeps_put_file hentry last.text.toUTF8
      have hextends := Disk.extends_makeDirectories s.disk directory
      rw [hmade] at hextends
      rcases List.mem_append.mp he with hold | hnew
      · exact (hinv e hold).mono (hextends.keeps.trans hwritten)
      · cases List.mem_singleton.mp hnew
        exact (placed_of_write hvalid hdirectory hpath hmade hwrite).mono hwritten

theorem Run.placed (h : p.Run s s') (hvalid : p.session.options.Valid)
    (hinv : ∀ e, .emitted e ∈ s.events → p.Placed s.disk e) :
    ∀ e, .emitted e ∈ s'.events → p.Placed s'.disk e :=
  h.preserves (fun hround => hround.placed hvalid) hinv

end Plan

/-- Stubs on record that are apart from each other and below the destination. -/
structure Built.Apart (b : Built) (destination : Path) (g : Generation) : Prop where
  below : ∀ space file, g.files.get? space = some file → ∃ root,
    b.disk.locate destination = .ok root ∧
      b.disk.locate file.path =
        .ok (root ++ space.directories ++ [b.session.options.stubFileName])
  distinct : ∀ space file other otherFile, g.files.get? space = some file →
    g.files.get? other = some otherFile → b.disk.SameFile file.path otherFile.path → space = other
  outside : ∀ space file root l, g.files.get? space = some file →
    b.disk.locate destination = .ok root → b.disk.locate file.path = .ok l →
    root ++ [Namespace.outsideModule] <+: l → space = .outside

namespace Session

variable {s : Session} {disk : Disk} {destination : Path} {targets searchPaths : List Path}
  {onlyTargetTypes : Option Document} {g : Generation}

/-- Stubs below the directories of their namespaces are apart. -/
theorem apart_of_below {b : Built} (hbelow : ∀ space file, g.files.get? space = some file →
    space.check = .ok () ∧ ∃ root, b.disk.locate destination = .ok root ∧
      b.disk.locate file.path =
        .ok (root ++ space.directories ++ [b.session.options.stubFileName])) :
    b.Apart destination g where
  below space file hfile := (hbelow space file hfile).2
  distinct := by
    rintro space file other otherFile hfile hother ⟨l, hl, hl'⟩
    obtain ⟨hcheck, root, hroot, hpath⟩ := hbelow space file hfile
    obtain ⟨hcheck', root', hroot', hpath'⟩ := hbelow other otherFile hother
    rw [hroot] at hroot'
    cases hroot'
    rw [hl] at hpath
    rw [hl', Except.ok.inj hpath] at hpath'
    have hnames := List.append_cancel_left (List.append_cancel_right (Except.ok.inj hpath'))
    exact Namespace.directories_inj hcheck hcheck' hnames
  outside := by
    intro space file root l hfile hroot hl hprefix
    obtain ⟨hcheck, root', hroot', hpath⟩ := hbelow space file hfile
    rw [hroot] at hroot'
    cases hroot'
    rw [hl] at hpath
    rw [Except.ok.inj hpath, List.append_assoc, List.prefix_append_right_inj] at hprefix
    apply Namespace.head?_directories_eq_outsideModule hcheck
    obtain ⟨first, rest, hnames⟩ := List.exists_cons_of_ne_nil space.directories_ne_nil
    rw [hnames, List.cons_append, List.cons_prefix_cons] at hprefix
    rw [hnames, List.head?_cons, hprefix.1]

theorem generate_apart (hvalid : s.options.Valid)
    (hresult : (s.generate disk destination).result = .ok g)
    (hplain : ∀ space ∈ g.files.keys, space.Plain) :
    (s.generate disk destination).Apart destination g := by
  obtain ⟨last, hrun, -, hbuilt⟩ := generate_eq_ok hresult
  have hplaced := hrun.placed hvalid (by simp [firstStage])
  rw [hbuilt] at hresult ⊢
  cases hresult
  apply apart_of_below
  intro space file hfile
  obtain ⟨e, hlast, hpath, -⟩ := Generation.exists_last_of_get?_files rfl hfile
  obtain ⟨hevent, rfl⟩ := mem_events_of_lastEmission? hlast
  have he := hplaced e hevent
  rw [hpath]
  exact ⟨he.allowed, he.below (hplain _ (Keyed.mem_keys_of_get? hfile))⟩

/-- A build with a result whose namespaces are plain writes their stubs apart from each other and
below its destination. -/
theorem build_apart (hvalid : s.options.Valid)
    (hresult : (s.build disk destination targets searchPaths onlyTargetTypes).result = .ok g)
    (hplain : ∀ space ∈ g.files.keys, space.Plain) :
    (s.build disk destination targets searchPaths onlyTargetTypes).Apart destination g := by
  obtain ⟨loaded, names, said, hloading, hbuild⟩ := exists_loading hresult
  obtain ⟨only, hoptions⟩ := hloading.options
  have hloaded : loaded.options.Valid := by
    rw [hoptions]
    exact { hvalid with }
  rw [hbuild] at hresult ⊢
  have hapart := generate_apart hloaded hresult hplain
  exact { hapart with }

/-- Types outside any namespace, in a namespace, and in one below that. -/
def nestedDisk : Disk :=
  ⟨[], [(["m"], .directory), (["m", "A.yaml"], .file ("\n".intercalate
    ["name: A", "types:", "- name: Loose", "- name: N.T", "- name: N.M.U"]).toUTF8)]⟩

def nestedTarget : Path := ⟨.root, ["m", "A.yaml"]⟩

def nestedDestination : Path := ⟨.root, ["m", "out"]⟩

set_option maxRecDepth 100000 in
theorem nested_evaluated :
    ((Session.new {}).buildInOrder nestedDisk nestedDestination [nestedTarget] [] none).map
      (fun b => b.result.toOption.map fun g => g.files.keys) =
        some (some [.outside, .named "N", .named "N.M"]) := by
  decide +kernel

theorem build_apart_nested :
    ∃ g, ((Session.new {}).build nestedDisk nestedDestination [nestedTarget] [] none).result =
        .ok g ∧
      ((Session.new {}).build nestedDisk nestedDestination [nestedTarget] [] none).Apart
        nestedDestination g ∧
      g.files.keys = [.outside, .named "N", .named "N.M"] := by
  obtain ⟨b, hb, hview⟩ := Option.map_eq_some_iff.mp nested_evaluated
  obtain ⟨g, hg, hkeys⟩ := Option.map_eq_some_iff.mp hview
  have hresult : ((Session.new {}).build nestedDisk nestedDestination [nestedTarget] []
      none).result = .ok g := by
    rw [build_of_buildInOrder hb]
    exact eq_ok_of_toOption hg
  have hplain : ∀ space ∈ g.files.keys, space.Plain := by
    rw [hkeys]
    decide
  exact ⟨g, hresult, build_apart Options.valid_default hresult hplain, hkeys⟩

/-- Two namespaces that differ in an empty segment. -/
def sharedDisk : Disk :=
  ⟨[], [(["m"], .directory), (["m", "A.yaml"], .file ("\n".intercalate
    ["name: A", "types:", "- name: A..B.T", "- name: A.B.U"]).toUTF8)]⟩

/-- The location of the stub on record for a namespace. -/
def locationOf? (b : Built) (g : Generation) (space : Namespace) : Option Location :=
  (g.files.get? space).bind fun file => (b.disk.locate file.path).toOption

set_option maxRecDepth 100000 in
theorem shared_evaluated :
    ((Session.new {}).buildInOrder sharedDisk nestedDestination [nestedTarget] [] none).map
      (fun b => b.result.toOption.map fun g =>
        (locationOf? b g (.named "A..B"), locationOf? b g (.named "A.B"))) =
      some (some (some ["m", "out", "A", "B", "__init__.pyi"],
        some ["m", "out", "A", "B", "__init__.pyi"])) := by
  decide +kernel

/-- A namespace with an empty segment is written over by another one. -/
theorem build_not_apart_shared :
    ∃ g, ((Session.new {}).build sharedDisk nestedDestination [nestedTarget] [] none).result =
        .ok g ∧
      ¬ ((Session.new {}).build sharedDisk nestedDestination [nestedTarget] [] none).Apart
        nestedDestination g := by
  obtain ⟨b, hb, hview⟩ := Option.map_eq_some_iff.mp shared_evaluated
  obtain ⟨g, hg, hlocations⟩ := Option.map_eq_some_iff.mp hview
  rw [build_of_buildInOrder hb]
  refine ⟨g, eq_ok_of_toOption hg, ?_⟩
  intro hapart
  obtain ⟨hfirst, hsecond⟩ := Prod.mk.inj hlocations
  obtain ⟨file, hfile, hl⟩ := Option.bind_eq_some_iff.mp hfirst
  obtain ⟨file', hfile', hl'⟩ := Option.bind_eq_some_iff.mp hsecond
  have hsame := hapart.distinct _ file _ file' hfile hfile'
    ⟨_, eq_ok_of_toOption hl, eq_ok_of_toOption hl'⟩
  exact absurd hsame (by decide)

end Session

end StubTree
