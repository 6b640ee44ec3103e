import StubTree.CommandLine.Run
import StubTree.Proofs.Loader.Breaking
import StubTree.Proofs.Session.Exhaustion
import StubTree.Proofs.Session.Loading

/-! # Commands that read

A command line that is accepted names no path with a null character. From there on a command either
reads all that it is asked to read, or it tells in one line what is wrong, or something breaks it
off that reading does not account for: something on the disk, or the end of the stack.
-/

namespace StubTree

open Loader (Passes passes_ok passes_error)

variable {disk : Disk} {stack : Stack}

namespace CommandLine

variable {key : OptionKey} {role : PathRole} {typed value : String} {a : Arguments}
  {request : Request}

/-! ## Accepted command lines -/

/-- A path that can have its role has no null character in it. -/
theorem PathRole.hasNul_of_check (h : role.check disk typed = .ok ()) :
    (Path.ofText typed).hasNul = false := by
  rw [check, typedEntry] at h
  split at h
  next hrefused => cases h
  next hfound =>
    split at hfound
    · cases hfound
    next hnul => simpa using hnul

theorem checkEach_eq_ok {α : Type} {check : α → Except Refusal Unit} {items : List α}
    (h : checkEach check items = .ok ()) : ∀ item ∈ items, check item = .ok () := by
  induction items with
  | nil => exact fun _ hitem => by cases hitem
  | cons item rest ih =>
      obtain ⟨_, hfirst, hrest⟩ := exists_of_bind_eq_ok h
      exact List.forall_mem_cons.mpr ⟨hfirst, ih hrest⟩

theorem Arguments.mem_keys_of_mem_counting (h : value ∈ a.counting key) : key ∈ a.keys := by
  have hvalues : value ∈ a.values key := by
    rw [counting] at h
    split at h
    · exact h
    · exact List.mem_of_getLast? (Option.mem_toList.mp h)
  obtain ⟨given, hgiven, -⟩ := List.mem_map.mp hvalues
  obtain ⟨hmem, hkey⟩ := List.mem_filter.mp hgiven
  exact List.mem_eraseDups.mpr (List.mem_map.mpr ⟨given, hmem, of_decide_eq_true hkey⟩)

/-- What counts of an option that names a path was checked. -/
theorem Arguments.hasNul_of_checkOptions (h : a.checkOptions disk = .ok ())
    (hrole : key.role? = some role) (hvalue : value ∈ a.counting key) :
    (Path.ofText value).hasNul = false := by
  have hkey := checkEach_eq_ok h key (mem_keys_of_mem_counting hvalue)
  have hcheck := checkEach_eq_ok hkey value hvalue
  unfold checkValue at hcheck
  rw [hrole] at hcheck
  exact PathRole.hasNul_of_check hcheck

theorem Arguments.hasNul_searchPaths (h : a.checkOptions disk = .ok ()) :
    ∀ p ∈ a.searchPaths, p.hasNul = false := by
  intro p hp
  obtain ⟨value, hvalue, rfl⟩ := List.mem_map.mp hp
  have hrole : OptionKey.searchPath.role? = some .directory := rfl
  exact hasNul_of_checkOptions h hrole hvalue

/-- The paths that a request reads from, with no null character in any of them. -/
def Request.Named : Request → Prop
  | .generate r => (∀ p ∈ r.targets, p.hasNul = false) ∧ (∀ p ∈ r.searchPaths, p.hasNul = false) ∧
      ∀ p ∈ r.config, p.hasNul = false
  | .inspect r => r.target.hasNul = false ∧ ∀ p ∈ r.searchPaths, p.hasNul = false
  | .help | .version => True

theorem named_of_generateRequest (h : generateRequest disk a = .ok request) : request.Named := by
  obtain ⟨_, hoptions, h⟩ := exists_of_bind_eq_ok h
  extract_lets finished checked at h
  have hfinished : ∀ u, finished u = .ok request →
      (∀ typed ∈ a.operands, PathRole.file.check disk typed = .ok ()) → request.Named := by
    intro u h hoperands
    obtain ⟨format, -, h⟩ := exists_of_bind_eq_ok h
    cases h
    refine ⟨?_, a.hasNul_searchPaths hoptions, ?_⟩
    · intro p hp
      obtain ⟨typed, htyped, rfl⟩ := List.mem_map.mp hp
      exact PathRole.hasNul_of_check (hoperands typed htyped)
    · intro p hp
      obtain ⟨typed, htyped, rfl⟩ := Option.map_eq_some_iff.mp hp
      have hrole : OptionKey.config.role? = some .presentFile := rfl
      exact Arguments.hasNul_of_checkOptions hoptions hrole (Option.mem_toList.mpr htyped)
  have hchecked : ∀ u, checked u = .ok request → request.Named := by
    intro u h
    obtain ⟨_, hoperands, h⟩ := exists_of_bind_eq_ok h
    split at h
    · obtain ⟨_, -, h⟩ := exists_of_bind_eq_ok h
      exact hfinished () h (checkEach_eq_ok hoperands)
    · exact hfinished () h (checkEach_eq_ok hoperands)
  split at h
  · cases h
  · exact hchecked () h

theorem named_of_inspectRequest (h : inspectRequest disk a = .ok request) : request.Named := by
  obtain ⟨_, hoptions, h⟩ := exists_of_bind_eq_ok h
  split at h
  · cases h
  next target surplus _ =>
    obtain ⟨_, htarget, h⟩ := exists_of_bind_eq_ok h
    obtain ⟨_, -, h⟩ := exists_of_bind_eq_ok h
    obtain ⟨_, -, h⟩ := exists_of_bind_eq_ok h
    cases h
    exact ⟨PathRole.hasNul_of_check htarget, a.hasNul_searchPaths hoptions⟩

theorem named_of_ofCommand {forms : List (OptionForm OptionKey)}
    {make : Arguments → Except Refusal Request} {words : List String}
    (hmake : ∀ a request, make a = .ok request → request.Named)
    (h : ofCommand forms make words = .ok request) : request.Named := by
  obtain ⟨a, -, h⟩ := exists_of_bind_eq_ok h
  split at h
  · cases h
    trivial
  · exact hmake a request h

theorem named_of_ofGroup {command : String → List String → Except Refusal Request}
    {words : List String}
    (hcommand : ∀ name rest request, command name rest = .ok request → request.Named)
    (h : ofGroup command words = .ok request) : request.Named := by
  obtain ⟨a, -, h⟩ := exists_of_bind_eq_ok h
  split at h
  · cases h
    trivial
  · split at h
    · cases h
    next name rest _ => exact hcommand name rest request h

theorem named_of_versionRequest (h : versionRequest a = .ok request) : request.Named := by
  obtain ⟨_, -, h⟩ := exists_of_bind_eq_ok h
  cases h
  trivial

/-- A command line that is accepted names no path with a null character to read from. -/
theorem named_of_ofWords {words : List String} (h : Request.ofWords disk words = .ok request) :
    request.Named := by
  refine named_of_ofGroup (fun name rest request h => ?_) h
  split at h
  · exact named_of_ofCommand (fun _ _ => named_of_versionRequest) h
  · refine named_of_ofGroup (fun name rest request h => ?_) h
    split at h
    · exact named_of_ofCommand (fun _ _ => named_of_generateRequest) h
    · exact named_of_ofCommand (fun _ _ => named_of_inspectRequest) h
    · cases h
  · cases h

end CommandLine

/-! ## Loading -/

namespace Loader

/-- Adding search paths gets through where none of them has a null character in it. -/
theorem addSearchPaths_eq_ok (disk : Disk) (l : Loader) {paths : List Path}
    (h : ∀ p ∈ paths, p.hasNul = false) :
    ∃ dirs, l.addSearchPaths disk paths = ({ l with searchPaths := dirs }, .ok ()) := by
  induction paths generalizing l with
  | nil => exact ⟨l.searchPaths, rfl⟩
  | cons p rest ih =>
      obtain ⟨hp, hrest⟩ := List.forall_mem_cons.mp h
      obtain ⟨dirs, hadd, -⟩ := addSearchPath_of_absolute (absolute_eq_ok hp) l
      obtain ⟨more, hmore⟩ := ih { l with searchPaths := dirs } hrest
      refine ⟨more, ?_⟩
      rw [addSearchPaths, hadd]
      exact hmore

end Loader

namespace Session

variable {s : Session}

/-- A row of calls to a loader that searches the search paths fails only as reading may. -/
theorem passes_loadAll {calls : List Loader.Call} {tell : String → Progress}
    (hcall : ∀ l : Loader, l.resolver = some .searchPaths → ∀ c ∈ calls,
      Passes (Fault.EndsReading disk stack) (l.call disk c).2)
    (hresolver : s.loader.resolver = some .searchPaths) :
    Passes (Fault.EndsReading disk stack) (s.loadAll disk tell calls).2.2 := by
  refine loadAll_passes (fun waiting l => waiting ⊆ calls ∧ l.resolver = some .searchPaths) ?_
    ⟨List.Subset.refl calls, hresolver⟩
  rintro c rest l ⟨hwaiting, hsearching⟩
  obtain ⟨hc, hrest⟩ := List.cons_subset.mp hwaiting
  exact ⟨hcall l hsearching c hc,
    fun _ _ => ⟨hrest, (Loader.resolver_call disk l c).trans hsearching⟩⟩

/-- A build of a new session comes to its first round, or it ends in a fault that reading may end in
and leaves the disk as it is. -/
theorem canLoad_or_ended (hhome : ∀ part ∈ disk.home, '\x00' ∉ part.toList) (o : Options)
    (destination : Path) {targets searchPaths : List Path}
    (htargets : ∀ p ∈ targets, p.hasNul = false)
    (hsearchPaths : ∀ p ∈ searchPaths, p.hasNul = false) :
    (new o).CanLoad disk targets searchPaths none ∨
      ∃ (last : Session) (said : List Progress) (fault : Fault), fault.EndsReading disk stack ∧
        (new o).build disk destination targets searchPaths none = last.ended disk said fault := by
  have hchoose : (new o).choose none = .ok (new o) := rfl
  obtain ⟨prepared, hprepare, hresolver⟩ : ∃ prepared,
      prepare disk { new o with registry := {} } searchPaths = (prepared, .ok ()) ∧
        prepared.loader.resolver = some .searchPaths := by
    obtain ⟨dirs, hadd⟩ := Loader.addSearchPaths_eq_ok disk
      ((new o).loader.install .searchPaths) hsearchPaths
    refine ⟨{ new o with
      registry := {}
      loader := { (new o).loader.install .searchPaths with searchPaths := dirs } }, ?_, rfl⟩
    rw [prepare]
    dsimp only
    rw [hadd]
  have hfirst : Passes (Fault.EndsReading disk stack) (prepared.loadTargets disk targets).2.2 := by
    refine passes_loadAll (fun l hl c hc => ?_) hresolver
    obtain ⟨path, hpath, rfl⟩ := List.mem_map.mp hc
    exact (Loader.passes_loadTarget hhome hl (htargets path hpath)).map Link.held
  have hresolver' := (resolver_loadAll disk .target prepared (targets.map .target)).trans hresolver
  rw [← loadTargets] at hresolver'
  rw [build, hchoose]
  dsimp only
  rw [hprepare]
  dsimp only
  split
  next after said fault hload =>
    rw [hload] at hfirst
    exact Or.inr ⟨after, said, fault, hfirst fault rfl, rfl⟩
  next after said found hload =>
    rw [hload] at hresolver'
    have hlast : Passes (Fault.EndsReading disk stack)
        (after.loadBuiltins disk after.options.builtinBinaries).2.2 := by
      refine passes_loadAll (fun l hl c hc => ?_) hresolver'
      obtain ⟨identity, -, rfl⟩ := List.mem_map.mp hc
      exact Loader.passes_require hhome hl identity
    split
    next last more fault hbuiltins =>
      rw [hbuiltins] at hlast
      exact Or.inr ⟨last, said ++ more, fault, hlast fault rfl, rfl⟩
    next last more builtins hbuiltins =>
      exact Or.inl ⟨_, _, _, .stages hchoose hprepare hload hbuiltins⟩

end Session

namespace CommandLine

/-- Everything that a request asks to read was read. -/
def Request.Reads (disk : Disk) : Request → Prop
  | .generate r => ∃ o, r.options disk = .ok o ∧
      (Session.new o).CanLoad disk r.targets r.searchPaths none
  | .inspect r => ∃ m, r.load disk = .ok m
  | .help | .version => True

/-- A command told in one line what is wrong, or something broke it off that is not reported. -/
def Outcome.Ended (disk : Disk) (stack : Stack) (outcome : Outcome) : Prop :=
  (∃ output message, outcome = .told disk output message) ∨
    ∃ output fault, Fault.Breaks disk stack fault ∧ outcome = .brokenOff disk output fault

theorem Outcome.ended_ofFault {fault : Fault} (h : fault.EndsReading disk stack) (output : String) :
    (Outcome.ofFault disk output fault).Ended disk stack := by
  rw [ofFault]
  split
  next => exact Or.inl ⟨output, fault.message, rfl⟩
  next hnot => exact Or.inr ⟨output, fault, h.resolve_left hnot, rfl⟩

theorem Outcome.ended_ofComplaint? {complaint : Except Fault (Option PathComplaint)}
    {outcome : Outcome} (hbreaks : ∀ fault, complaint = .error fault → fault.Breaks disk stack)
    (h : ofComplaint? disk complaint = some outcome) : outcome.Ended disk stack := by
  unfold ofComplaint? at h
  split at h
  · cases h
  · cases h
    exact Or.inl ⟨_, _, rfl⟩
  next fault =>
    cases h
    exact Or.inr ⟨_, fault, hbreaks fault rfl, rfl⟩

theorem breaks_of_targetComplaint? {targets : List Path} {fault : Fault}
    (h : targetComplaint? disk targets = .error fault) : fault.Breaks disk stack := by
  induction targets with
  | nil => cases h
  | cons path rest ih =>
      rw [targetComplaint?] at h
      rcases eq_error_or_exists_of_bind h with hprobe | ⟨entry, -, h⟩
      · exact Disk.breaks_of_probe hprobe
      · split at h
        · cases h
        · cases h
        · exact ih h

theorem breaks_of_destinationComplaint? {path : Path} {fault : Fault}
    (h : destinationComplaint? disk path = .error fault) : fault.Breaks disk stack := by
  rcases eq_error_or_exists_of_bind h with hprobe | ⟨entry, -, h⟩
  · exact Disk.breaks_of_probe hprobe
  · split at h <;> cases h

theorem GenerateRequest.passes_options {r : GenerateRequest}
    (hconfig : ∀ p ∈ r.config, p.hasNul = false) :
    Passes (Fault.EndsReading disk stack) (r.options disk) := by
  rw [options]
  split
  · exact passes_ok _
  next path hpath =>
    exact (Options.passes_load (hconfig path hpath)).bind fun _ _ => passes_ok _

theorem GenerateRequest.reads_or_ended {r : GenerateRequest} (elapsed : Number.Binary64)
    (hhome : ∀ part ∈ disk.home, '\x00' ∉ part.toList) (h : (Request.generate r).Named) :
    (Request.generate r).Reads disk ∨ (r.run disk elapsed).Ended disk stack := by
  obtain ⟨htargets, hsearchPaths, hconfig⟩ := h
  rw [run, start]
  cases htarget : Outcome.ofComplaint? disk (targetComplaint? disk r.targets) with
  | some outcome =>
      exact Or.inr (Outcome.ended_ofComplaint? (fun _ => breaks_of_targetComplaint?) htarget)
  | none =>
      dsimp only
      cases hdestination : Outcome.ofComplaint? disk (destinationComplaint? disk r.destination) with
      | some outcome =>
          exact Or.inr
            (Outcome.ended_ofComplaint? (fun _ => breaks_of_destinationComplaint?) hdestination)
      | none =>
          dsimp only
          have hpasses : Passes (Fault.EndsReading disk stack) (r.options disk) :=
            passes_options hconfig
          cases hoptions : r.options disk with
          | error fault => exact Or.inr (Outcome.ended_ofFault (hpasses fault hoptions) "")
          | ok o =>
              rcases Session.canLoad_or_ended hhome o r.destination htargets hsearchPaths with
                hload | ⟨last, said, fault, hfault, hbuild⟩
              · exact Or.inl ⟨o, hoptions, hload⟩
              · refine Or.inr ?_
                dsimp only
                unfold build
                rw [hbuild]
                exact Outcome.ended_ofFault hfault _

theorem InspectRequest.reads_or_ended {r : InspectRequest}
    (hhome : ∀ part ∈ disk.home, '\x00' ∉ part.toList) (h : (Request.inspect r).Named) :
    (Request.inspect r).Reads disk ∨ (r.run disk).Ended disk stack := by
  obtain ⟨htarget, hsearchPaths⟩ := h
  have hpasses : Passes (Fault.EndsReading disk stack) (r.load disk) := by
    obtain ⟨dirs, hadd⟩ := Loader.addSearchPaths_eq_ok disk
      (({} : Loader).install .searchPaths) hsearchPaths
    rw [load, hadd]
    refine (passes_ok ()).bind fun _ _ => ?_
    refine Passes.bind (Loader.passes_loadTarget hhome rfl htarget) fun name _ => ?_
    split
    · exact passes_ok _
    · exact passes_error (Or.inl rfl)
  rw [run]
  cases hcomplaint : Outcome.ofComplaint? disk (targetComplaint? disk [r.target]) with
  | some outcome =>
      exact Or.inr (Outcome.ended_ofComplaint? (fun _ => breaks_of_targetComplaint?) hcomplaint)
  | none =>
      dsimp only
      cases hload : r.load disk with
      | ok m => exact Or.inl ⟨m, hload⟩
      | error fault => exact Or.inr (Outcome.ended_ofFault (hpasses fault hload) "")

/-! ## The stack -/

theorem GenerateRequest.options_sameOrTooDeep (r : GenerateRequest) (disk : Disk)
    (stack : Stack) :
    SameOrTooDeep id (Options.Exhausts disk stack) (r.options disk stack) (r.options disk) := by
  rw [options, options]
  cases r.config with
  | none => exact .refl _ _ _
  | some path => exact (Options.load_sameOrTooDeep disk stack path).bind fun _ _ => .refl _ _ _

theorem GenerateRequest.run_eq_or_brokenOff (r : GenerateRequest) (disk : Disk)
    (elapsed : Number.Binary64) (stack : Stack) :
    r.run disk elapsed stack = r.run disk elapsed ∨
      (∃ output, r.run disk elapsed stack = .brokenOff disk output .tooDeep) ∧
        (Loader.CallExhausts disk stack ∨ Options.Exhausts disk stack) := by
  rw [run, run, start, start]
  cases Outcome.ofComplaint? disk (targetComplaint? disk r.targets) with
  | some outcome => exact Or.inl rfl
  | none =>
      cases Outcome.ofComplaint? disk (destinationComplaint? disk r.destination) with
      | some outcome => exact Or.inl rfl
      | none =>
          dsimp only
          rcases r.options_sameOrTooDeep disk stack with hsame | ⟨hdeep, hwhy⟩
          · rw [hsame]
            cases r.options disk with
            | error fault => exact Or.inl rfl
            | ok o =>
                dsimp only
                unfold build
                rcases Session.build_eq_or_ended (.new o) disk r.destination r.targets
                  r.searchPaths none .listed stack with hsame | ⟨⟨last, said, hended⟩, hwhy⟩
                · rw [hsame]
                  exact Or.inl rfl
                · rw [hended]
                  exact Or.inr ⟨⟨_, rfl⟩, Or.inl hwhy⟩
          · rw [id] at hdeep
            rw [hdeep]
            exact Or.inr ⟨⟨"", rfl⟩, Or.inr hwhy⟩

theorem InspectRequest.load_sameOrTooDeep (r : InspectRequest) (disk : Disk) (stack : Stack) :
    SameOrTooDeep id (Loader.CallExhausts disk stack) (r.load disk stack) (r.load disk) := by
  obtain ⟨dirs, hdirs, -⟩ :=
    Loader.addSearchPaths_fst disk (({} : Loader).install .searchPaths) r.searchPaths
  rw [load, load]
  cases hadd : (({} : Loader).install .searchPaths).addSearchPaths disk r.searchPaths with
  | mk loader added =>
      rw [hadd] at hdirs
      have hresolver : loader.resolver = some .searchPaths := congrArg (·.resolver) hdirs
      refine SameOrTooDeep.bind (.refl _ _ _) fun _ _ => ?_
      rcases (Loader.loadTarget_sameOrTooDeep stack hresolver r.target).eq_or_exists with
        hsame | ⟨⟨last, hdeep⟩, hwhy⟩
      · rw [hsame]
        exact .refl _ _ _
      · rw [hdeep]
        exact Or.inr ⟨rfl, hwhy⟩

theorem InspectRequest.run_eq_or_brokenOff (r : InspectRequest) (disk : Disk) (stack : Stack) :
    r.run disk stack = r.run disk ∨
      (∃ output, r.run disk stack = .brokenOff disk output .tooDeep) ∧
        Loader.CallExhausts disk stack := by
  rw [run, run]
  cases Outcome.ofComplaint? disk (targetComplaint? disk [r.target]) with
  | some outcome => exact Or.inl rfl
  | none =>
      dsimp only
      rcases r.load_sameOrTooDeep disk stack with hsame | ⟨hdeep, hwhy⟩
      · rw [hsame]
        exact Or.inl rfl
      · rw [id] at hdeep
        rw [hdeep]
        exact Or.inr ⟨⟨"", rfl⟩, hwhy⟩

/-- A request on a stack with an end does what it does on one without, or it breaks off and leaves
the disk as it is. -/
theorem Request.run_eq_or_brokenOff (request : Request) (disk : Disk) (elapsed : Number.Binary64)
    (stack : Stack) :
    request.run disk elapsed stack = request.run disk elapsed ∨
      (∃ output, request.run disk elapsed stack = .brokenOff disk output .tooDeep) ∧
        Fault.Breaks disk stack .tooDeep := by
  cases request with
  | help | version => exact Or.inl rfl
  | generate r => exact (r.run_eq_or_brokenOff disk elapsed stack).imp_right (.imp_right .tooDeep)
  | inspect r =>
      exact (r.run_eq_or_brokenOff disk stack).imp_right (.imp_right fun h => .tooDeep (Or.inl h))

theorem Request.reads_or_ended {request : Request} (elapsed : Number.Binary64)
    (hhome : ∀ part ∈ disk.home, '\x00' ∉ part.toList) (h : request.Named) :
    request.Reads disk ∨ (request.run disk elapsed).Ended disk stack := by
  cases request with
  | help | version => exact Or.inl trivial
  | generate r => exact r.reads_or_ended elapsed hhome h
  | inspect r => exact r.reads_or_ended hhome h

/-- A manifest with a reference, and the bytes of what it refers to. -/
def referringDisk (bytes : ByteArray) : Disk :=
  ⟨["w"], [(["w"], .directory),
    (["w", "A.yaml"], .file "name: A\nreferences: [B]".toUTF8),
    (["w", "B.yaml"], .file bytes)]⟩

/-- The words that ask to see the manifest, and the request that they make. -/
def inspectWords : List String := ["stub", "inspect", "A.yaml"]

def inspectRequestA : InspectRequest where
  target := ⟨.relative, ["A.yaml"]⟩
  searchPaths := []
  format := .listing

set_option maxRecDepth 100000 in
/-- A reference is followed three frames further in than the manifest that has it was loaded, and
there is no room for what it refers to. -/
example :
    let stack : Stack := { limit := some 10, frames := fun _ => 3, manifest := fun _ => 5 }
    ((run (referringDisk "name: B".toUTF8) .zero inspectWords stack).broken.any fun
      | .tooDeep => true
      | _ => false) = true := by
  decide +kernel

end CommandLine

end StubTree
