import StubTree.Proofs.Loader.Exhaustion
import StubTree.Proofs.Options.Faults

/-! # What breaks reading off

Whatever bytes the files hold, reading options and manifests ends in a fault that is reported or in
one of five that are not: a name that no directory can hold, bytes that are no text, a text that is
well formed YAML but has no value, a number too long to be shown, and an option named like the
options themselves. On a stack with an end there is one more: a text takes more frames to be read
than are left, be it that of the options or of a manifest with all the references on the way to it.
-/

namespace StubTree

/-- A stream of a file on the disk, from its bytes or from the text that they spell. -/
def Disk.Streams (disk : Disk) (stream : Yaml.Stream) : Prop :=
  ∃ p bytes, disk.read p = .ok bytes ∧ (stream = .ofBytes bytes ∨
    ∃ text, String.fromUTF8? bytes = some text ∧ stream = .ofText text)

/-- A fault that is not reported, together with what it comes from on the disk and on the stack. -/
inductive Fault.Breaks (disk : Disk) (stack : Stack) : Fault → Prop
  | nameTooLong {p : Path} (h : disk.locate p = .error .nameTooLong) :
      Breaks disk stack (.system ⟨.nameTooLong, p⟩)
  | notUnicode {p : Path} {bytes : ByteArray} (hread : disk.read p = .ok bytes)
      (h : String.fromUTF8? bytes = none) : Breaks disk stack (.yaml .notUnicode)
  | noValue {stream : Yaml.Stream} {cause : Yaml.YamlFault} (hstream : disk.Streams stream)
      (h : Yaml.read stream = .error cause) (hform : cause.isOfForm = false) :
      Breaks disk stack (.yaml cause)
  | longNumber {stream : Yaml.Stream} {v : SharedValue} {r : Ref} {i : Int}
      (hstream : disk.Streams stream) (h : Yaml.read stream = .ok v)
      (hcell : v.graph.cell r = .int i) (hlong : Nat.pow 10 Number.maxDigits ≤ i.natAbs) :
      Breaks disk stack .unwritableNumber
  | ownerNamed {stream : Yaml.Stream} {v : SharedValue} (hstream : disk.Streams stream)
      (h : Yaml.read stream = .ok v) (howner : Options.NamesOwner v) :
      Breaks disk stack .ownerOption
  | tooDeep (h : Loader.CallExhausts disk stack ∨ Options.Exhausts disk stack) :
      Breaks disk stack .tooDeep

/-- A fault that reading may end in. -/
def Fault.EndsReading (disk : Disk) (stack : Stack) (fault : Fault) : Prop :=
  fault.isReported = true ∨ fault.Breaks disk stack

variable {disk : Disk} {stack : Stack} {p : Path} {bytes : ByteArray}

open Loader (Passes passes_ok passes_error)

namespace Path

theorem hasNul_eq_false : p.hasNul = false ↔ ∀ part ∈ p.parts, '\x00' ∉ part.toList := by
  rw [hasNul, List.any_eq_false]
  simp only [List.contains_iff_mem]

theorem mem_or_mem_of_mem_collapse {done parts : List String} {part : String}
    (h : part ∈ collapse done parts) : part ∈ done ∨ part ∈ parts := by
  induction parts generalizing done with
  | nil =>
      rw [collapse, List.mem_reverse] at h
      exact Or.inl h
  | cons first rest ih =>
      rw [collapse] at h
      rcases ih h with hdone | hrest
      · split at hdone
        · exact Or.inl (List.mem_of_mem_drop hdone)
        · rcases List.mem_cons.mp hdone with rfl | hdone
          · exact Or.inr List.mem_cons_self
          · exact Or.inl hdone
      · exact Or.inr (List.mem_cons_of_mem _ hrest)

theorem hasNul_resolve {home : List String} (hhome : ∀ part ∈ home, '\x00' ∉ part.toList)
    (h : p.hasNul = false) : (p.resolve home).hasNul = false := by
  rw [hasNul_eq_false] at h ⊢
  intro part hpart
  rcases mem_or_mem_of_mem_collapse hpart with hnone | hpart
  · cases hnone
  · split at hpart
    · rcases List.mem_append.mp hpart with hpart | hpart
      · exact hhome part hpart
      · exact h part hpart
    · exact h part hpart

theorem hasNul_parent (h : p.hasNul = false) : p.parent.hasNul = false := by
  rw [hasNul_eq_false] at h ⊢
  exact fun part hpart => h part (List.dropLast_subset _ hpart)

end Path

/-! ## Files -/

namespace Disk

theorem breaks_of_probe {fault : Fault} (h : disk.probe p = .error fault) :
    fault.Breaks disk stack := by
  obtain ⟨hlocate, rfl⟩ := probe_eq_error h
  exact .nameTooLong hlocate

theorem hasNul_of_hasFile (h : disk.HasFile p) : p.hasNul = false := by
  obtain ⟨l, -, hl, -⟩ := hasFile_iff.mp h
  exact (locateFor_eq_ok.mp hl).1

/-- A file that is not read was refused by the system. -/
theorem read_eq_error {fault : Fault} (hnul : p.hasNul = false)
    (h : disk.read p = .error fault) : ∃ cause, fault = .system cause := by
  rw [read, locateFor, hnul, if_neg Bool.false_ne_true] at h
  cases hlocate : disk.locate p with
  | error cause =>
      rw [hlocate] at h
      cases h
      exact ⟨_, rfl⟩
  | ok l =>
      rw [hlocate] at h
      dsimp only [Except.mapError, bind, Except.bind] at h
      split at h <;> cases h <;> exact ⟨_, rfl⟩

theorem passes_readFor {unreadable : SystemFault → Fault} (hnul : p.hasNul = false)
    (hreported : ∀ cause, (unreadable cause).isReported = true) :
    Passes (Fault.EndsReading disk stack) (disk.readFor p unreadable) := by
  rw [readFor]
  cases hread : disk.read p with
  | ok bytes => exact passes_ok bytes
  | error fault =>
      obtain ⟨cause, rfl⟩ := read_eq_error hnul hread
      exact passes_error (Or.inl (hreported cause))

end Disk

theorem passes_readValue {stream : Yaml.Stream} {notYaml : Yaml.YamlFault → Fault}
    (hstream : disk.Streams stream) (hreported : ∀ cause, (notYaml cause).isReported = true) :
    Passes (Fault.EndsReading disk stack) (readValue stream notYaml) := by
  rw [readValue]
  cases hread : Yaml.read stream with
  | ok v => exact passes_ok v
  | error cause =>
      refine passes_error ?_
      dsimp only
      split
      next => exact Or.inl (hreported cause)
      next hform => exact Or.inr (.noValue hstream hread (Bool.eq_false_iff.mpr hform))

theorem read_of_readValue {stream : Yaml.Stream} {notYaml : Yaml.YamlFault → Fault}
    {v : SharedValue} (h : readValue stream notYaml = .ok v) : Yaml.read stream = .ok v := by
  rw [readValue] at h
  exact eq_ok_of_mapError h

/-- A graph in which a number has too many digits breaks reading off. -/
theorem breaks_of_not_writable {stream : Yaml.Stream} {v : SharedValue}
    (hstream : disk.Streams stream) (h : Yaml.read stream = .ok v) (hnot : ¬ v.graph.Writable) :
    Fault.unwritableNumber.Breaks disk stack := by
  simp only [Graph.Writable, Number.IsWritable, not_forall, Nat.not_lt] at hnot
  obtain ⟨r, i, hcell, hlong⟩ := hnot
  exact .longNumber hstream h hcell hlong

theorem Manifest.passes_load (hnul : p.hasNul = false) :
    Passes (Fault.EndsReading disk stack) (Manifest.load disk p) := by
  refine (Disk.passes_readFor hnul fun _ => rfl).bind fun bytes hbytes => ?_
  have hstream : disk.Streams (.ofBytes bytes) :=
    ⟨p, bytes, Disk.read_of_readFor hbytes, Or.inl rfl⟩
  refine (passes_ok ()).bind fun _ _ => ?_
  refine (passes_readValue hstream fun _ => rfl).bind fun v hv => ?_
  refine (passes_ofValue v.graph.showable p rfl).mono fun fault hfault => ?_
  cases fault with
  | manifest cause => exact Or.inl rfl
  | unwritableNumber =>
      exact Or.inr (breaks_of_not_writable hstream (read_of_readValue hv) hfault)
  | _ => cases hfault

theorem Options.passes_load (hnul : p.hasNul = false) :
    Passes (Fault.EndsReading disk stack) (Options.load disk p) := by
  refine (Disk.passes_readFor hnul fun _ => rfl).bind fun bytes hbytes => ?_
  have hread := Disk.read_of_readFor hbytes
  split
  next text htext =>
    have hstream : disk.Streams (.ofText text) := ⟨p, bytes, hread, Or.inr ⟨text, htext, rfl⟩⟩
    refine (passes_ok ()).bind fun _ _ => ?_
    refine (passes_readValue hstream fun _ => rfl).bind fun v hv => ?_
    refine (passes_ofValue v.graph.showable p rfl).mono fun fault hfault => ?_
    rcases hfault with hfault | ⟨rfl, howner⟩
    · cases fault with
      | option cause => exact Or.inl rfl
      | unwritableNumber =>
          exact Or.inr (breaks_of_not_writable hstream (read_of_readValue hv) hfault)
      | _ => cases hfault
    · exact Or.inr (.ownerNamed hstream (read_of_readValue hv) howner)
  next htext =>
    have hnone : String.fromUTF8? bytes = none := Option.eq_none_iff_forall_ne_some.mpr htext
    exact passes_error (Or.inr (.notUnicode hread hnone))

/-! ## Loading -/

namespace Loader

variable {l : Loader}

theorem passes_readExpected (hhome : ∀ part ∈ disk.home, '\x00' ∉ part.toList)
    (hnul : p.hasNul = false) (expected : Option String) :
    Passes (Fault.EndsReading disk stack) (readExpected disk p expected) := by
  rw [readExpected, absolute_eq_ok hnul]
  refine (Manifest.passes_load (Path.hasNul_resolve hhome hnul)).bind fun m _ => ?_
  split
  · exact passes_ok m
  · split
    · exact passes_ok m
    · exact passes_error (Or.inl rfl)

/-- With the search paths as its resolver a loader fails only as reading may. -/
theorem passable_of_searchPaths (hhome : ∀ part ∈ disk.home, '\x00' ∉ part.toList)
    (hresolver : l.resolver = some .searchPaths) :
    Passable disk (Fault.EndsReading disk stack) (fun _ => True) l where
  resolver := hresolver
  lookedUp _ _ _ _ hfind := by
    obtain ⟨_, -, hprobe⟩ := findFile_eq_error hfind
    exact Or.inr (Disk.breaks_of_probe hprobe)
  found _ _ _ _ := Or.inl rfl
  read name path fault _ _ hfind hread := by
    obtain ⟨_, dir, _, -, -, hfile, rfl⟩ := findFile_eq_some hfind
    exact passes_readExpected hhome (Disk.hasNul_of_hasFile hfile) _ fault hread
  wanted _ _ _ _ _ _ _ := trivial

theorem passes_loadTarget (hhome : ∀ part ∈ disk.home, '\x00' ∉ part.toList)
    (hresolver : l.resolver = some .searchPaths) (hnul : p.hasNul = false) :
    Passes (Fault.EndsReading disk stack) (l.loadTarget disk p).2 := by
  have hresolved := Path.hasNul_resolve hhome hnul
  have hparent : absolute disk (p.resolve disk.home).parent = .ok _ :=
    absolute_eq_ok (Path.hasNul_parent hresolved)
  obtain ⟨dirs, hadd, -⟩ := addSearchPath_of_absolute hparent l
  rw [loadTarget, Stack.inside_endless, loadOn_endless, absolute_eq_ok hnul]
  dsimp only
  rw [hadd]
  dsimp only
  have hopens : Opens disk (Fault.EndsReading disk stack) (fun _ => True)
      { l with searchPaths := dirs } (p.resolve disk.home) none :=
    ⟨passes_readExpected hhome hresolved none, fun _ _ _ _ _ => trivial⟩
  have hpassable : Passable disk (Fault.EndsReading disk stack) (fun _ => True)
      { l with searchPaths := dirs } :=
    passable_of_searchPaths hhome hresolver
  have hload := load_passes hpassable hopens
  cases hcall : load disk { l with searchPaths := dirs } (p.resolve disk.home) none with
  | mk last result =>
      rw [hcall] at hload
      cases result with
      | error fault => exact hload
      | ok name => exact passes_ok name

theorem passes_require (hhome : ∀ part ∈ disk.home, '\x00' ∉ part.toList)
    (hresolver : l.resolver = some .searchPaths) (identity : String) :
    Passes (Fault.EndsReading disk stack) (l.require disk identity).2 :=
  require_passes (passable_of_searchPaths hhome hresolver) trivial

end Loader

end StubTree
