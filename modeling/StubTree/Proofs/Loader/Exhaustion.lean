import StubTree.Options.Load
import StubTree.Proofs.Loader.Linking

/-! # Loading on a stack with an end

On a stack with an end loading comes to the same as on one without, or it breaks off where a
manifest takes more frames than are left. That manifest stands on a way of references: each one on
the way was read, and asked for the next.
-/

namespace StubTree

/-- Two runs end the same, or the first one has no room left on the stack. What a run ends in is
told by `ending`. -/
def SameOrTooDeep {α β : Type} (ending : β → Except Fault α) (why : Prop) (run whole : β) : Prop :=
  run = whole ∨ ending run = .error .tooDeep ∧ why

namespace SameOrTooDeep

variable {α β : Type} {ending : β → Except Fault α} {why why' : Prop} {run whole : β}

theorem refl (ending : β → Except Fault α) (why : Prop) (run : β) :
    SameOrTooDeep ending why run run :=
  Or.inl rfl

theorem mono (h : SameOrTooDeep ending why run whole) (hmono : why → why') :
    SameOrTooDeep ending why' run whole :=
  h.imp_right (And.imp_right hmono)

/-- What has no room ends there, with whatever it leaves behind. -/
theorem eq_or_exists {σ : Type} {run whole : σ × Except Fault α}
    (h : SameOrTooDeep Prod.snd why run whole) :
    run = whole ∨ (∃ last, run = (last, .error .tooDeep)) ∧ why :=
  h.imp_right fun ⟨hdeep, hwhy⟩ => ⟨⟨run.1, Prod.ext rfl hdeep⟩, hwhy⟩

/-- Steps one after the other end the same where each of them does. -/
theorem bind {first whole : Except Fault α} {next onward : α → Except Fault β}
    (h : SameOrTooDeep id why first whole)
    (hnext : ∀ a, whole = .ok a → SameOrTooDeep id why (next a) (onward a)) :
    SameOrTooDeep id why (first >>= next) (whole >>= onward) := by
  rcases h with rfl | ⟨hdeep, hwhy⟩
  · cases first with
    | error fault => exact refl id why _
    | ok a => exact hnext a rfl
  · rw [id] at hdeep
    rw [hdeep]
    exact Or.inr ⟨rfl, hwhy⟩

end SameOrTooDeep

theorem Stack.reserve_sameOrTooDeep (stack : Stack) (frames : Nat) :
    SameOrTooDeep id (¬ stack.Holds frames) (stack.reserve frames) (.ok ()) := by
  rw [reserve]
  split
  next => exact .refl _ _ _
  next hfull => exact Or.inr ⟨rfl, hfull⟩

/-! ## Reading -/

namespace Disk

variable {disk : Disk} {stack : Stack} {p q : Path}

theorem read_of_readFor {unreadable : SystemFault → Fault} {bytes : ByteArray}
    (h : disk.readFor p unreadable = .ok bytes) : disk.read p = .ok bytes := by
  rw [readFor] at h
  exact eq_ok_of_mapError h

/-- The manifest of a file leads to another file so many references further on. Each reference is
looked up in some directory. -/
inductive Leads (disk : Disk) : Nat → Path → Path → Prop
  | here (p : Path) : Leads disk 0 p p
  | onward {n : Nat} {p q r dir : Path} {m : Manifest} {reference suffix : String}
      (hload : Manifest.load disk p = .ok m) (hreference : reference ∈ m.references)
      (hpath : Loader.absolute disk (dir.entry (shortName reference ++ suffix)) = .ok q)
      (hrest : Leads disk n q r) : Leads disk (n + 1) p r

/-- A manifest has no room on a stack, or one that it leads to: what the references on the way take
and the reading of that one is more than is left. -/
inductive Exhausts (disk : Disk) (stack : Stack) (p : Path) : Prop
  | reading {n : Nat} {q : Path} {bytes : ByteArray} (hleads : disk.Leads n p q)
      (hread : disk.read q = .ok bytes)
      (hfull : ¬ stack.Holds (n * stack.frames .reference + stack.manifest (.ofBytes bytes)))

/-- What exhausts the stack inside a reference does so from the manifest that has the reference. -/
theorem Exhausts.of_reference {dir : Path} {m : Manifest} {reference suffix : String}
    (hload : Manifest.load disk p = .ok m) (hreference : reference ∈ m.references)
    (hpath : Loader.absolute disk (dir.entry (shortName reference ++ suffix)) = .ok q)
    (h : disk.Exhausts (stack.inside .reference) q) : disk.Exhausts stack p := by
  obtain @⟨n, r, bytes, hleads, hread, hfull⟩ := h
  refine .reading (.onward hload hreference hpath hleads) hread ?_
  have hframes : (n + 1) * stack.frames .reference + stack.manifest (.ofBytes bytes) =
      stack.frames .reference +
        (n * stack.frames .reference + stack.manifest (.ofBytes bytes)) := by
    rw [Nat.succ_mul]
    omega
  rw [hframes]
  exact fun hholds => hfull (Stack.holds_inside.mpr hholds)

end Disk

variable {disk : Disk}

theorem Manifest.load_sameOrTooDeep (disk : Disk) (stack : Stack) (p : Path) :
    SameOrTooDeep id (disk.Exhausts stack p) (Manifest.load disk p stack)
      (Manifest.load disk p) := by
  refine SameOrTooDeep.bind (.refl _ _ _) fun bytes hbytes => ?_
  refine SameOrTooDeep.bind ?_ fun _ _ => .refl _ _ _
  refine (stack.reserve_sameOrTooDeep _).mono fun hfull => ?_
  refine .reading (.here p) (Disk.read_of_readFor hbytes) ?_
  rwa [Nat.zero_mul, Nat.zero_add]

/-- An options file whose text takes more frames to be read than a stack has left. -/
def Options.Exhausts (disk : Disk) (stack : Stack) : Prop :=
  ∃ p bytes text, disk.read p = .ok bytes ∧ String.fromUTF8? bytes = some text ∧
    ¬ stack.Holds (stack.options (.ofText text))

theorem Options.load_sameOrTooDeep (disk : Disk) (stack : Stack) (p : Path) :
    SameOrTooDeep id (Options.Exhausts disk stack) (Options.load disk p stack)
      (Options.load disk p) := by
  refine SameOrTooDeep.bind (.refl _ _ _) fun bytes hbytes => ?_
  cases htext : String.fromUTF8? bytes with
  | none => exact .refl _ _ _
  | some text =>
      refine SameOrTooDeep.bind ?_ fun _ _ => .refl _ _ _
      refine (stack.reserve_sameOrTooDeep _).mono fun hfull => ?_
      exact ⟨p, bytes, text, Disk.read_of_readFor hbytes, htext, hfull⟩

/-! ## Loading -/

namespace Loader

variable {l : Loader} {path : Path} {expected : Option String} {why : Prop}

/-- The file at a path leads to what has no room on a stack. -/
def Exhausts (disk : Disk) (stack : Stack) (path : Path) : Prop :=
  ∃ p, absolute disk path = .ok p ∧ disk.Exhausts stack p

theorem readExpected_sameOrTooDeep (disk : Disk) (stack : Stack) (path : Path)
    (expected : Option String) :
    SameOrTooDeep id (Exhausts disk stack path) (readExpected disk path expected stack)
      (readExpected disk path expected) := by
  refine SameOrTooDeep.bind (.refl _ _ _) fun p hp => ?_
  refine SameOrTooDeep.bind ?_ fun m _ => .refl _ _ _
  exact (Manifest.load_sameOrTooDeep disk stack p).mono fun h => ⟨p, hp, h⟩

/-- With the search paths as its resolver a loader comes to the same for an identity where it does
for every file of the short name. -/
theorem requireWith_sameOrTooDeep {load whole : Load} {identity : String}
    (hresolver : l.resolver = some .searchPaths)
    (hload : ∀ dir : Path, SameOrTooDeep Prod.snd why
      (load l (dir.entry (shortName identity ++ l.suffix)) (some (shortName identity)))
      (whole l (dir.entry (shortName identity ++ l.suffix)) (some (shortName identity)))) :
    SameOrTooDeep Prod.snd why (requireWith disk load l identity)
      (requireWith disk whole l identity) := by
  rw [requireWith, requireWith]
  cases l.get? identity with
  | some b => exact .refl _ _ _
  | none =>
      simp only [ask, hresolver, search]
      rcases hfind : findFile disk (shortName identity ++ l.suffix) l.searchPaths with
        fault | _ | candidate
      all_goals dsimp only
      · exact .refl _ _ _
      · exact .refl _ _ _
      · obtain ⟨_, dir, _, -, -, -, hcandidate⟩ := findFile_eq_some hfind
        rw [hcandidate]
        rcases (hload dir).eq_or_exists with hsame | ⟨⟨last, hdeep⟩, hwhy⟩
        · rw [hsame]
          exact .refl _ _ _
        · rw [hdeep]
          exact Or.inr ⟨rfl, hwhy⟩

/-- Following references comes to the same where requiring each of them does. -/
theorem linkAll_sameOrTooDeep {require whole : Loader → String → Loader × Except Fault Link}
    (hsupplies : ∀ l identity, Supplies disk l identity (whole l identity)) (entered : String)
    {references : List String}
    (hrequire : ∀ l, l.resolver = some .searchPaths → ∀ reference ∈ references,
      SameOrTooDeep Prod.snd why (require l reference) (whole l reference))
    (hresolver : l.resolver = some .searchPaths) :
    SameOrTooDeep Prod.snd why (linkAll require entered references l)
      (linkAll whole entered references l) := by
  induction references generalizing l with
  | nil => exact .refl _ _ _
  | cons reference rest ih =>
      obtain ⟨added, hadds, -⟩ := hsupplies l reference
      rw [linkAll, linkAll]
      have hone := hrequire l hresolver reference List.mem_cons_self
      rcases hone.eq_or_exists with hsame | ⟨⟨last, hdeep⟩, hwhy⟩
      · rw [hsame]
        cases hcall : whole l reference with
        | mk last result =>
            rw [hcall] at hadds
            cases result with
            | error fault => exact .refl _ _ _
            | ok link =>
                have hlast : (last.addLink entered link).resolver = some .searchPaths := by
                  rw [addLink_eq]
                  exact hadds.resolver.trans hresolver
                exact ih (fun l hl other hother =>
                  hrequire l hl other (List.mem_cons_of_mem _ hother)) hlast
      · rw [hdeep]
        exact Or.inr ⟨rfl, hwhy⟩

/-- The induction is on how deep loading may go: what is loaded for a reference is loaded inside
it, with fewer frames left. -/
theorem loadWithin_sameOrTooDeep (disk : Disk) (stack : Stack) (fuel : Nat)
    (hresolver : l.resolver = some .searchPaths) (path : Path) (expected : Option String) :
    SameOrTooDeep Prod.snd (Exhausts disk stack path) (loadWithin disk stack fuel l path expected)
      (loadWithin disk .endless fuel l path expected) := by
  induction fuel generalizing stack l path expected with
  | zero => exact .refl _ _ _
  | succ fuel ih =>
      rw [loadWithin, loadWithin, Stack.inside_endless]
      rcases readExpected_sameOrTooDeep disk stack path expected with hsame | ⟨hdeep, hwhy⟩
      · rw [hsame]
        cases hread : readExpected disk path expected with
        | error fault => exact .refl _ _ _
        | ok m =>
            dsimp only
            cases Keyed.get? m.name l.library with
            | some b => exact .refl _ _ _
            | none =>
                obtain ⟨hpath, hload, -⟩ := readExpected_eq_ok hread
                have henter : (l.enter m).resolver = some .searchPaths := hresolver
                have hlinked : SameOrTooDeep Prod.snd (Exhausts disk stack path)
                    (linkAll (requireWith disk (loadWithin disk (stack.inside .reference) fuel))
                      m.name m.references (l.enter m))
                    (linkAll (requireWith disk (loadWithin disk .endless fuel)) m.name m.references
                      (l.enter m)) := by
                  apply linkAll_sameOrTooDeep
                    (requireWith_supplies (loadWithin_serves .endless fuel)) m.name ?_ henter
                  intro last hlast reference hreference
                  refine requireWith_sameOrTooDeep hlast fun dir => ?_
                  refine (ih (stack.inside .reference) hlast _ _).mono ?_
                  rintro ⟨q, hq, hexhausts⟩
                  exact ⟨m.path, hpath, .of_reference hload hreference hq hexhausts⟩
                dsimp only
                rcases hlinked.eq_or_exists with hsame | ⟨⟨last, hdeep⟩, hwhy⟩
                · rw [hsame]
                  exact .refl _ _ _
                · rw [hdeep]
                  exact Or.inr ⟨rfl, hwhy⟩
      · rw [id] at hdeep
        rw [hdeep]
        exact Or.inr ⟨rfl, hwhy⟩

/-- Some manifest has no room on a stack, inside the loading of a target or of an identity. -/
def CallExhausts (disk : Disk) (stack : Stack) : Prop :=
  ∃ (caller : Caller) (p : Path), caller ≠ .reference ∧ disk.Exhausts (stack.inside caller) p

theorem require_sameOrTooDeep (stack : Stack) (hresolver : l.resolver = some .searchPaths)
    (identity : String) :
    SameOrTooDeep Prod.snd (CallExhausts disk stack) (l.require disk identity stack)
      (l.require disk identity) := by
  refine requireWith_sameOrTooDeep hresolver fun dir => ?_
  refine (loadWithin_sameOrTooDeep disk (stack.inside .identity) _ hresolver _ _).mono ?_
  rintro ⟨p, -, h⟩
  exact ⟨.identity, p, by decide, h⟩

theorem loadTarget_sameOrTooDeep (stack : Stack) (hresolver : l.resolver = some .searchPaths)
    (path : Path) :
    SameOrTooDeep Prod.snd (CallExhausts disk stack) (l.loadTarget disk path stack)
      (l.loadTarget disk path) := by
  rw [loadTarget, loadTarget]
  cases absolute disk path with
  | error fault => exact .refl _ _ _
  | ok p =>
      dsimp only
      cases hadd : addSearchPath disk l p.parent with
      | error fault => exact .refl _ _ _
      | ok l₁ =>
          have hresolver₁ : l₁.resolver = some .searchPaths := by
            obtain ⟨q, hq, -⟩ := exists_of_bind_eq_ok hadd
            obtain ⟨dirs, hadd', -⟩ := addSearchPath_of_absolute hq l
            rw [hadd] at hadd'
            cases hadd'
            exact hresolver
          dsimp only
          have hload := loadWithin_sameOrTooDeep disk (stack.inside .target) (depthBound disk)
            hresolver₁ p none
          rw [← loadOn, ← loadOn] at hload
          rcases hload.eq_or_exists with hsame | ⟨⟨last, hdeep⟩, q, -, h⟩
          · rw [hsame]
            exact .refl _ _ _
          · rw [hdeep]
            exact Or.inr ⟨rfl, .target, q, by decide, h⟩

theorem call_target_sameOrTooDeep (stack : Stack) (hresolver : l.resolver = some .searchPaths)
    (path : Path) :
    SameOrTooDeep Prod.snd (CallExhausts disk stack) (l.call disk (.target path) stack)
      (l.call disk (.target path)) := by
  rw [call, call]
  rcases (loadTarget_sameOrTooDeep stack hresolver path).eq_or_exists with
    hsame | ⟨⟨last, hdeep⟩, hwhy⟩
  · rw [hsame]
    exact .refl _ _ _
  · rw [hdeep]
    exact Or.inr ⟨rfl, hwhy⟩

end Loader

end StubTree
