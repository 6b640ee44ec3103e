import StubTree.Proofs.Loader.Exhaustion
import StubTree.Proofs.Session.Reached

/-! # Builds on a stack with an end

A build on a stack with an end is the one without, or it ends before its first round because loading
has no room left.
-/

namespace StubTree.Session

variable {s : Session} {disk : Disk} {stack : Stack}

theorem resolver_prepare (disk : Disk) (s : Session) (searchPaths : List Path) :
    (prepare disk s searchPaths).1.loader.resolver = some .searchPaths := by
  obtain ⟨dirs, hdirs, -⟩ :=
    Loader.addSearchPaths_fst disk (s.loader.install .searchPaths) searchPaths
  exact congrArg (·.resolver) hdirs

theorem resolver_loadAll (disk : Disk) (tell : String → Progress) (s : Session)
    (calls : List Loader.Call) :
    (s.loadAll disk tell calls).1.loader.resolver = s.loader.resolver :=
  loadAll_preserves (fun last => last.loader.resolver = s.loader.resolver)
    (fun last c hlast => (Loader.resolver_call disk last.loader c).trans hlast)
    (fun _ _ hlast => hlast) calls rfl

/-! ## Rows of calls -/

theorem Outcome.eq_or_exists {α : Type} {why : Prop} {run whole : Outcome α}
    (h : SameOrTooDeep (·.2.2) why run whole) :
    run = whole ∨ (∃ last said, run = (last, said, .error .tooDeep)) ∧ why :=
  h.imp_right fun ⟨hdeep, hwhy⟩ => ⟨⟨run.1, run.2.1, Prod.ext rfl (Prod.ext rfl hdeep)⟩, hwhy⟩

/-- What a row of calls comes to is the same where it is for each of them. -/
theorem loadAll_sameOrTooDeep {tell : String → Progress} {calls : List Loader.Call}
    (hcall : ∀ l : Loader, l.resolver = some .searchPaths → ∀ c ∈ calls,
      SameOrTooDeep Prod.snd (Loader.CallExhausts disk stack) (l.call disk c stack)
        (l.call disk c))
    (hresolver : s.loader.resolver = some .searchPaths) :
    SameOrTooDeep (·.2.2) (Loader.CallExhausts disk stack) (s.loadAll disk tell calls stack)
      (s.loadAll disk tell calls) := by
  induction calls generalizing s with
  | nil => exact .refl _ _ _
  | cons c rest ih =>
      have hone := hcall s.loader hresolver c List.mem_cons_self
      have hkept := Loader.resolver_call disk s.loader c
      rw [loadAll, loadAll]
      rcases hone.eq_or_exists with hsame | ⟨⟨last, hdeep⟩, hwhy⟩
      · rw [hsame]
        cases hresult : s.loader.call disk c with
        | mk loader result =>
            rw [hresult] at hkept
            cases result with
            | error fault => exact .refl _ _ _
            | ok link =>
                have hrest := ih (s := { s with loader }.register link.name)
                  (fun l hl other hother => hcall l hl other (List.mem_cons_of_mem _ hother))
                  (hkept.trans hresolver)
                dsimp only
                rcases Outcome.eq_or_exists hrest with hsame | ⟨⟨last, said, hdeep⟩, hwhy⟩
                · rw [hsame]
                  exact .refl _ _ _
                · rw [hdeep]
                  exact Or.inr ⟨rfl, hwhy⟩
      · rw [hdeep]
        exact Or.inr ⟨rfl, hwhy⟩

/-! ## Builds -/

/-- A build is the one without a limit, or it has no room and ends before its first round. -/
theorem build_eq_or_ended (s : Session) (disk : Disk) (destination : Path)
    (targets searchPaths : List Path) (choice : Option Document) (e : Enumeration)
    (stack : Stack) :
    s.build disk destination targets searchPaths choice e stack =
        s.build disk destination targets searchPaths choice e ∨
      (∃ (last : Session) (said : List Progress),
        s.build disk destination targets searchPaths choice e stack =
          last.ended disk said .tooDeep) ∧ Loader.CallExhausts disk stack := by
  rw [build, build]
  cases s.choose choice with
  | error fault => exact Or.inl rfl
  | ok chosen =>
      dsimp only
      have hresolver := resolver_prepare disk { chosen with registry := {} } searchPaths
      rcases hprepare : prepare disk { chosen with registry := {} } searchPaths with
        ⟨prepared, fault | done⟩
      · exact Or.inl rfl
      · rw [hprepare] at hresolver
        have hfirst : SameOrTooDeep (·.2.2) (Loader.CallExhausts disk stack)
            (prepared.loadTargets disk targets stack) (prepared.loadTargets disk targets) := by
          refine loadAll_sameOrTooDeep (fun l hl c hc => ?_) hresolver
          obtain ⟨path, -, rfl⟩ := List.mem_map.mp hc
          exact Loader.call_target_sameOrTooDeep stack hl path
        dsimp only
        rcases Outcome.eq_or_exists hfirst with hsame | ⟨⟨after, said, hdeep⟩, hwhy⟩
        · rw [hsame]
          have hkept := (resolver_loadAll disk .target prepared (targets.map .target)).trans
            hresolver
          rw [← loadTargets] at hkept
          rcases hload : prepared.loadTargets disk targets with ⟨after, said, fault | found⟩
          · exact Or.inl rfl
          · rw [hload] at hkept
            have hlast : SameOrTooDeep (·.2.2) (Loader.CallExhausts disk stack)
                (after.loadBuiltins disk after.options.builtinBinaries stack)
                (after.loadBuiltins disk after.options.builtinBinaries) := by
              refine loadAll_sameOrTooDeep (fun l hl c hc => ?_) hkept
              obtain ⟨identity, -, rfl⟩ := List.mem_map.mp hc
              exact Loader.require_sameOrTooDeep stack hl identity
            dsimp only
            rcases Outcome.eq_or_exists hlast with hsame | ⟨⟨last, more, hdeep⟩, hwhy⟩
            · rw [hsame]
              exact Or.inl rfl
            · rw [hdeep]
              exact Or.inr ⟨⟨last, said ++ more, rfl⟩, hwhy⟩
        · rw [hdeep]
          exact Or.inr ⟨⟨after, said, rfl⟩, hwhy⟩

end StubTree.Session
