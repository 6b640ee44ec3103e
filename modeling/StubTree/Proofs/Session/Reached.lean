import StubTree.Proofs.Loader.Linking
import StubTree.Proofs.Options
import StubTree.Proofs.Session.Rounds

/-! # The sessions that come about

A session is only ever changed by its operations. None of them installs another resolver than
the search of the search paths, and none touches the registry but through its own operations.
-/

namespace StubTree.Session

variable {s : Session}

/-- The sessions that come about, whatever the disk is at each operation, and however it ends. A
build is a row of these operations; see `Reached.build`. -/
inductive Reached : Session → Prop
  | new (o : Options) : Reached (.new o)
  | choose {s : Session} (o : Options) (h : Reached s) : Reached { s with options := o }
  | prepare {s : Session} (disk : Disk) (searchPaths : List Path) (h : Reached s) :
      Reached (s.prepare disk searchPaths).1
  | loadAll {s : Session} (disk : Disk) (tell : String → Progress) (calls : List Loader.Call)
      (h : Reached s) : Reached (s.loadAll disk tell calls).1
  | register {s : Session} (name : String) (h : Reached s) : Reached (s.register name)
  | pop {s : Session} {entry : Namespace × List TypeId} {registry : Registry} (h : Reached s)
      (hpop : s.registry.pop? = some (entry, registry)) : Reached { s with registry }
  | reset {s : Session} (h : Reached s) : Reached { s with registry := {} }
  | generate {s : Session} (disk : Disk) (destination : Path) (h : Reached s) :
      Reached (s.generate disk destination).session

/-! ## Loading -/

/-- Another choice of types changes nothing but that choice. -/
theorem choose_eq_ok {s' : Session} {onlyTargetTypes : Option Document}
    (h : s.choose onlyTargetTypes = .ok s') :
    ∃ only, s' = { s with options := { s.options with onlyTargetTypes := only } } := by
  unfold choose at h
  split at h
  · cases h
    exact ⟨s.options.onlyTargetTypes, rfl⟩
  · cases h
    exact ⟨s.options.onlyTargetTypes, rfl⟩
  · obtain ⟨o, hmerged, h⟩ := exists_of_bind_eq_ok h
    cases h
    obtain ⟨only, rfl⟩ := Options.merged_onlyTargetTypes hmerged
    exact ⟨only, rfl⟩

/-- What is chosen depends on the options alone. -/
theorem choose_of_options {s' chosen : Session} {onlyTargetTypes : Option Document}
    (hoptions : s'.options = s.options) (h : s.choose onlyTargetTypes = .ok chosen) :
    s'.choose onlyTargetTypes = .ok { s' with options := chosen.options } := by
  unfold choose at h ⊢
  split at h
  · cases h
    rw [← hoptions]
    rfl
  · cases h
    rw [← hoptions]
    rfl
  next d _ =>
    obtain ⟨o, hmerged, h⟩ := exists_of_bind_eq_ok h
    cases h
    rw [hoptions, hmerged]
    rfl

/-- What a row of calls keeps, given what one call and one registration keep. -/
theorem loadAll_preserves (inv : Session → Prop) {disk : Disk} {tell : String → Progress}
    {stack : Stack}
    (hcall : ∀ (s : Session) (c : Loader.Call), inv s →
      inv { s with loader := (s.loader.call disk c stack).1 })
    (hregister : ∀ (s : Session) (name : String), inv s → inv (s.register name))
    (calls : List Loader.Call) (hs : inv s) : inv (s.loadAll disk tell calls stack).1 := by
  induction calls generalizing s with
  | nil => exact hs
  | cons c rest ih =>
      have hone := hcall s c hs
      rw [loadAll]
      split
      next loader fault hresult =>
        rw [hresult] at hone
        exact hone
      next loader link hresult =>
        rw [hresult] at hone
        exact ih (hregister _ link.name hone)

namespace Reached

/-- The loader of a session is one on which nothing but the search paths was ever searched. -/
theorem loader (h : s.Reached) : s.loader.Reached (· = .searchPaths) := by
  induction h with
  | new o => exact .new o.manifestSuffix
  | choose _ _ ih => exact ih
  | prepare disk searchPaths _ ih => exact .addSearchPaths disk searchPaths (ih.install rfl)
  | loadAll disk tell calls _ ih =>
      exact loadAll_preserves (fun s => s.loader.Reached (· = .searchPaths))
        (fun _ c hs => hs.call disk c) (fun _ _ hs => hs) calls ih
  | register _ _ ih => exact ih
  | pop _ _ ih => exact ih
  | reset _ ih => exact ih
  | generate disk destination _ ih =>
      rw [loader_generate]
      exact ih

theorem registry (h : s.Reached) : s.registry.Sound := by
  induction h with
  | new o => exact .empty
  | choose _ _ ih => exact ih
  | prepare disk searchPaths _ ih => exact ih
  | loadAll disk tell calls _ ih =>
      exact loadAll_preserves (fun s => s.registry.Sound) (fun _ _ hs => hs)
        (fun _ _ hs => hs.addAll _) calls ih
  | register name _ ih => exact ih.addAll _
  | pop _ hpop ih => exact ih.pop hpop
  | reset _ _ => exact .empty
  | generate disk destination _ ih => exact sound_generate ih disk destination

/-- A build, however it ends, is a row of operations. -/
theorem build (h : s.Reached) (disk : Disk) (destination : Path) (targets searchPaths : List Path)
    (onlyTargetTypes : Option Document) :
    (s.build disk destination targets searchPaths onlyTargetTypes).session.Reached := by
  rw [Session.build]
  split
  next => exact h
  next chosen hchoose =>
    obtain ⟨only, rfl⟩ := choose_eq_ok hchoose
    have hprepared := (h.choose { s.options with onlyTargetTypes := only }).reset.prepare
      disk searchPaths
    split
    next s' _ hprepare =>
      rw [hprepare] at hprepared
      exact hprepared
    next s' hprepare =>
      rw [hprepare] at hprepared
      have htargets := hprepared.loadAll disk .target (targets.map .target)
      split
      next s'' _ _ hload =>
        rw [← loadTargets, hload] at htargets
        exact htargets
      next s'' _ _ hload =>
        rw [← loadTargets, hload] at htargets
        have hbuiltins := htargets.loadAll disk .builtin
          (s''.options.builtinBinaries.map .identity)
        rw [← loadBuiltins] at hbuiltins
        split
        next hload' =>
          rw [hload'] at hbuiltins
          exact hbuiltins
        next hload' =>
          rw [hload'] at hbuiltins
          exact hbuiltins.generate disk destination

end Reached

end StubTree.Session
