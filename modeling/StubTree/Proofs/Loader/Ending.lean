import StubTree.Proofs.Loader.Failure
import StubTree.Proofs.Loader.Passage

/-! # Calls for a binary end

What a call does when nothing bounds how deep it goes: it reads manifests, enters names and follows
references, and comes to an end, whatever circles the references run in and whatever fails on the
way. Each name that is entered is the name of a manifest on the disk and is new, so names run out;
between two of them, at most one manifest is read.
-/

namespace StubTree.Loader

variable {disk : Disk} {l l' l'' : Loader}

/-- What a call does that can be told afterwards. -/
inductive Deed where
  | reads (path : Path)
  | enters (name : String)
  deriving DecidableEq

namespace Deed

def entered? : Deed → Option String
  | reads _ => none
  | enters name => some name

def isRead : Deed → Bool
  | reads _ => true
  | enters _ => false

/-- The names that are entered, in order. -/
def entered (deeds : List Deed) : List String := deeds.filterMap entered?

/-- How many manifests are read, or tried to be read. -/
def readCount (deeds : List Deed) : Nat := deeds.countP isRead

variable (path : Path) (name : String) (deeds more : List Deed)

@[simp] theorem entered_nil : entered [] = [] := rfl

@[simp] theorem entered_reads : entered (reads path :: deeds) = entered deeds := rfl

@[simp] theorem entered_enters : entered (enters name :: deeds) = name :: entered deeds := rfl

@[simp] theorem entered_append : entered (deeds ++ more) = entered deeds ++ entered more :=
  List.filterMap_append

@[simp] theorem readCount_nil : readCount [] = 0 := rfl

@[simp] theorem readCount_reads : readCount (reads path :: deeds) = readCount deeds + 1 :=
  List.countP_cons_of_pos rfl

@[simp] theorem readCount_enters : readCount (enters name :: deeds) = readCount deeds :=
  List.countP_cons_of_neg Bool.false_ne_true

@[simp] theorem readCount_append : readCount (deeds ++ more) = readCount deeds + readCount more :=
  List.countP_append

end Deed

/-! ## Calls without a bound -/

/-- A call, or the rest of one: the references of an entry that are still to be followed. -/
inductive Task where
  | call (c : Call)
  | follow (name : String) (references : List String)

/-- Tasks that read no more manifests than they enter, if they come to a binary. -/
def Task.Frugal (l : Loader) : Task → Prop
  | .call (.target _) => False
  | .call (.manifest _ expected) => ∃ name ∈ expected, name ∉ Keyed.keys l.library
  | .call (.identity _) => True
  | .follow _ _ => True

/-- A target is noted when it was loaded. -/
def noteTarget (l : Loader) : Except Fault Link → Loader
  | .error _ => l
  | .ok link =>
    if link.name ∈ l.targets then l else { l with targets := l.targets ++ [link.name] }

/-- What a task does on a loader that looks in its search paths, what loader it leaves and what it
comes to. No depth is given: a task is performed by those that it leads to. -/
inductive Performs (disk : Disk) : Loader → Task → List Deed → Loader → Except Fault Link → Prop
  | unnamed {l : Loader} {path : Path} {fault : Fault}
      (habsolute : absolute disk path = .error fault) :
      Performs disk l (.call (.target path)) [] l (.error fault)
  | unplaced {l : Loader} {path p : Path} {fault : Fault} (habsolute : absolute disk path = .ok p)
      (hplace : addSearchPath disk l p.parent = .error fault) :
      Performs disk l (.call (.target path)) [] l (.error fault)
  | targeted {l l₁ l' : Loader} {path p : Path} {deeds : List Deed} {result : Except Fault Link}
      (habsolute : absolute disk path = .ok p) (hplace : addSearchPath disk l p.parent = .ok l₁)
      (hload : Performs disk l₁ (.call (.manifest p none)) deeds l' result) :
      Performs disk l (.call (.target path)) deeds (l'.noteTarget result) result
  | unread {l : Loader} {path : Path} {expected : Option String} {fault : Fault}
      (hread : readExpected disk path expected = .error fault) :
      Performs disk l (.call (.manifest path expected)) [.reads path] l (.error fault)
  | known {l : Loader} {path : Path} {expected : Option String} {m : Manifest}
      (hread : readExpected disk path expected = .ok m) (hheld : m.name ∈ Keyed.keys l.library) :
      Performs disk l (.call (.manifest path expected)) [.reads path] l (.ok (.held m.name))
  | entered {l l' : Loader} {path : Path} {expected : Option String} {m : Manifest}
      {deeds : List Deed} {result : Except Fault Link}
      (hread : readExpected disk path expected = .ok m) (hnew : m.name ∉ Keyed.keys l.library)
      (hfollow : Performs disk (l.enter m) (.follow m.name m.references) deeds l' result) :
      Performs disk l (.call (.manifest path expected)) (.reads path :: .enters m.name :: deeds)
        l' result
  | followed {l : Loader} {name : String} :
      Performs disk l (.follow name []) [] l (.ok (.held name))
  | broken {l l' : Loader} {name reference : String} {rest : List String} {deeds : List Deed}
      {fault : Fault}
      (hrequire : Performs disk l (.call (.identity reference)) deeds l' (.error fault)) :
      Performs disk l (.follow name (reference :: rest)) deeds l' (.error fault)
  | linked {l l' l'' : Loader} {name reference : String} {rest : List String}
      {deeds more : List Deed} {link : Link} {result : Except Fault Link}
      (hrequire : Performs disk l (.call (.identity reference)) deeds l' (.ok link))
      (hrest : Performs disk (l'.addLink name link) (.follow name rest) more l'' result) :
      Performs disk l (.follow name (reference :: rest)) (deeds ++ more) l'' result
  | held {l : Loader} {identity : String} (hheld : shortName identity ∈ Keyed.keys l.library) :
      Performs disk l (.call (.identity identity)) [] l (.ok (.held (shortName identity)))
  | unsearched {l : Loader} {identity : String} {fault : Fault}
      (hnew : shortName identity ∉ Keyed.keys l.library)
      (hfind : findFile disk (shortName identity ++ l.suffix) l.searchPaths = .error fault) :
      Performs disk l (.call (.identity identity)) [] l (.error fault)
  | missing {l : Loader} {identity : String}
      (hnew : shortName identity ∉ Keyed.keys l.library)
      (hfind : findFile disk (shortName identity ++ l.suffix) l.searchPaths = .ok none) :
      Performs disk l (.call (.identity identity)) [] l
        (.error (.binaryNotFound identity l.searchPaths))
  | found {l l' : Loader} {identity : String} {path : Path} {deeds : List Deed}
      {result : Except Fault Link}
      (hnew : shortName identity ∉ Keyed.keys l.library)
      (hfind : findFile disk (shortName identity ++ l.suffix) l.searchPaths = .ok (some path))
      (hload : Performs disk l (.call (.manifest path (some (shortName identity)))) deeds l'
        result) :
      Performs disk l (.call (.identity identity)) deeds l'
        (result.bind fun link => l'.accept identity (some link))

theorem library_noteTarget (l : Loader) (result : Except Fault Link) :
    (l.noteTarget result).library = l.library := by
  cases result with
  | error => rfl
  | ok link =>
      rw [noteTarget]
      split <;> rfl

theorem keys_addLink (l : Loader) (name : String) (link : Link) :
    Keyed.keys (l.addLink name link).library = Keyed.keys l.library := by
  rw [addLink]
  split
  next => rfl
  next b hget => exact (Keyed.keys_set ..).trans (if_pos (Keyed.mem_keys_of_get? hget))

theorem keys_enter {m : Manifest} (hnew : m.name ∉ Keyed.keys l.library) :
    Keyed.keys (l.enter m).library = Keyed.keys l.library ++ [m.name] :=
  (Keyed.keys_set ..).trans (if_neg hnew)

namespace Performs

variable {t : Task} {deeds deeds' : List Deed} {result result' : Except Fault Link}

/-- There is one way for a task to go. -/
theorem unique (h : Performs disk l t deeds l' result)
    (h' : Performs disk l t deeds' l'' result') :
    deeds' = deeds ∧ l'' = l' ∧ result' = result := by
  induction h generalizing deeds' l'' result' with
  | unnamed habsolute => cases h' <;> simp_all
  | unplaced habsolute hplace => cases h' <;> simp_all
  | targeted habsolute hplace _ ih =>
      cases h' with
      | unnamed habsolute' => simp [habsolute] at habsolute'
      | unplaced habsolute' hplace' =>
          rw [habsolute] at habsolute'
          cases habsolute'
          simp [hplace] at hplace'
      | targeted habsolute' hplace' hload' =>
          rw [habsolute] at habsolute'
          cases habsolute'
          rw [hplace] at hplace'
          cases hplace'
          obtain ⟨rfl, rfl, rfl⟩ := ih hload'
          exact ⟨rfl, rfl, rfl⟩
  | unread hread => cases h' <;> simp_all
  | known hread hheld => cases h' <;> simp_all
  | entered hread hnew _ ih =>
      cases h' with
      | unread hread' => simp [hread] at hread'
      | known hread' hheld' =>
          rw [hread] at hread'
          cases hread'
          exact absurd hheld' hnew
      | entered hread' _ hfollow' =>
          rw [hread] at hread'
          cases hread'
          obtain ⟨rfl, rfl, rfl⟩ := ih hfollow'
          exact ⟨rfl, rfl, rfl⟩
  | followed =>
      cases h'
      exact ⟨rfl, rfl, rfl⟩
  | broken _ ih =>
      cases h' with
      | broken hrequire' =>
          obtain ⟨rfl, rfl, heq⟩ := ih hrequire'
          cases heq
          exact ⟨rfl, rfl, rfl⟩
      | linked hrequire' _ =>
          obtain ⟨-, -, heq⟩ := ih hrequire'
          cases heq
  | linked _ _ ih ihrest =>
      cases h' with
      | broken hrequire' =>
          obtain ⟨-, -, heq⟩ := ih hrequire'
          cases heq
      | linked hrequire' hrest' =>
          obtain ⟨rfl, rfl, heq⟩ := ih hrequire'
          cases heq
          obtain ⟨rfl, rfl, rfl⟩ := ihrest hrest'
          exact ⟨rfl, rfl, rfl⟩
  | held hheld => cases h' <;> simp_all
  | unsearched hnew hfind => cases h' <;> simp_all
  | missing hnew hfind => cases h' <;> simp_all
  | found hnew hfind _ ih =>
      cases h' with
      | held hheld' => exact absurd hheld' hnew
      | unsearched _ hfind' => simp [hfind] at hfind'
      | missing _ hfind' => simp [hfind] at hfind'
      | found _ hfind' hload' =>
          rw [hfind] at hfind'
          cases hfind'
          obtain ⟨rfl, rfl, rfl⟩ := ih hload'
          exact ⟨rfl, rfl, rfl⟩

/-! ## What is entered and read -/

/-- The names of the library afterwards are those of before and what was entered, in order. -/
theorem keys_library (h : Performs disk l t deeds l' result) :
    Keyed.keys l'.library = Keyed.keys l.library ++ Deed.entered deeds := by
  induction h with
  | targeted _ hplace _ ih =>
      obtain ⟨dirs, rfl, -⟩ := addSearchPath_eq_ok hplace
      rw [library_noteTarget, ih]
  | entered _ hnew _ ih =>
      rw [ih, keys_enter hnew]
      simp
  | linked _ _ ih ihrest =>
      rw [ihrest, keys_addLink, ih]
      simp
  | broken _ ih => exact ih
  | found _ _ _ ih => exact ih
  | _ => simp

/-- No name is entered twice, and none that was there before. -/
theorem nodup_entered (h : Performs disk l t deeds l' result) :
    (Deed.entered deeds).Nodup ∧ ∀ name ∈ Deed.entered deeds, name ∉ Keyed.keys l.library := by
  induction h with
  | targeted _ hplace _ ih =>
      obtain ⟨dirs, rfl, -⟩ := addSearchPath_eq_ok hplace
      exact ih
  | entered _ hnew _ ih =>
      rw [keys_enter hnew] at ih
      obtain ⟨hnodup, hfresh⟩ := ih
      simp only [List.mem_append, List.mem_singleton, not_or] at hfresh
      refine ⟨List.nodup_cons.mpr ⟨fun hmem => (hfresh _ hmem).2 rfl, hnodup⟩, ?_⟩
      rintro name (_ | ⟨_, hname⟩)
      · exact hnew
      · exact (hfresh name hname).1
  | linked hrequire _ ih ihrest =>
      -- What the later references enter is new where the earlier ones have been followed.
      rw [keys_addLink, hrequire.keys_library] at ihrest
      obtain ⟨hnodup, hfresh⟩ := ihrest
      simp only [List.mem_append, not_or] at hfresh
      rw [Deed.entered_append]
      refine ⟨ih.1.append hnodup fun name hname hmore => (hfresh name hmore).2 hname, ?_⟩
      intro name hname
      rcases List.mem_append.mp hname with hname | hname
      · exact ih.2 name hname
      · exact (hfresh name hname).1
  | broken _ ih => exact ih
  | found _ _ _ ih => exact ih
  | _ => simp

/-- What is entered is declared by a manifest on the disk. -/
theorem declared (h : Performs disk l t deeds l' result) :
    ∀ name ∈ Deed.entered deeds, name ∈ disk.declaredNames := by
  induction h with
  | entered hread hnew _ ih =>
      obtain ⟨hpath, hload, -⟩ := readExpected_eq_ok hread
      simpa using ⟨Disk.name_mem_declaredNames hpath hload, ih⟩
  | linked _ _ ih ihrest =>
      intro name hname
      rw [Deed.entered_append, List.mem_append] at hname
      exact hname.elim (ih name) (ihrest name)
  | targeted _ _ _ ih => exact ih
  | broken _ ih => exact ih
  | found _ _ _ ih => exact ih
  | _ => simp

/-- There is at most one read that no name is entered after, and none if all goes well and a new
name was asked for. -/
theorem readCount_le (h : Performs disk l t deeds l' result) :
    Deed.readCount deeds ≤ (Deed.entered deeds).length + 1 ∧
      (t.Frugal l → ∀ link, result = .ok link →
        Deed.readCount deeds ≤ (Deed.entered deeds).length) := by
  induction h with
  | targeted _ _ _ ih => exact ⟨ih.1, False.elim⟩
  | unread => exact ⟨Nat.le_refl _, fun _ _ hok => by cases hok⟩
  | known hread hheld =>
      refine ⟨Nat.le_refl _, ?_⟩
      rintro ⟨name, hname, hnew⟩
      exact absurd ((readExpected_eq_ok hread).2.2 name hname ▸ hheld) hnew
  | entered _ _ _ ih =>
      simp only [Deed.readCount_reads, Deed.readCount_enters, Deed.entered_reads,
        Deed.entered_enters, List.length_cons, Nat.add_le_add_iff_right]
      exact ⟨ih.1, fun _ => ih.2 trivial⟩
  | broken _ ih => exact ⟨ih.1, fun _ _ hok => by cases hok⟩
  | linked _ _ ih ihrest =>
      have hfirst := ih.2 trivial _ rfl
      simp only [Deed.readCount_append, Deed.entered_append, List.length_append]
      refine ⟨by omega, fun _ link hok => ?_⟩
      have hrest := ihrest.2 trivial link hok
      omega
  | @found _ _ _ _ _ result hnew _ _ ih =>
      refine ⟨ih.1, fun _ _ hok => ?_⟩
      cases result with
      | error => cases hok
      | ok link => exact ih.2 ⟨_, rfl, hnew⟩ link rfl
  | _ => exact ⟨Nat.zero_le _, fun _ _ _ => Nat.le_refl _⟩

end Performs

/-! ## Calls are performed -/

section

variable {fuel : Nat} {require : Loader → String → Loader × Except Fault Link} {load : Load}

/-- Following references is performed where requiring each of them is. Every next one meets a loader
with the same search and no less room. -/
theorem linkAll_performs (hsupplies : ∀ l identity, Supplies disk l identity (require l identity))
    (hrequire : ∀ l identity, l.resolver = some .searchPaths → Room disk fuel l →
      ∃ deeds, Performs disk l (.call (.identity identity)) deeds (require l identity).1
        (require l identity).2)
    (name : String) (references : List String) (hresolver : l.resolver = some .searchPaths)
    (hroom : Room disk fuel l) :
    ∃ deeds, Performs disk l (.follow name references) deeds (linkAll require name references l).1
      ((linkAll require name references l).2.map fun _ => .held name) := by
  induction references generalizing l with
  | nil => exact ⟨[], .followed⟩
  | cons reference rest ih =>
      obtain ⟨deeds, hfirst⟩ := hrequire l reference hresolver hroom
      obtain ⟨added, hadds, -⟩ := hsupplies l reference
      rw [linkAll]
      cases hcall : require l reference with
      | mk l₁ result =>
          rw [hcall] at hfirst hadds
          cases result with
          | error fault => exact ⟨deeds, .broken hfirst⟩
          | ok link =>
              have hlinked := onward_addLink l₁ name link
              obtain ⟨more, hrest⟩ := ih
                ((hlinked.resolver.trans hadds.resolver).trans hresolver)
                ((hroom.onward hadds.onward).onward hlinked)
              exact ⟨deeds ++ more, .linked hfirst hrest⟩

theorem requireWith_performs
    (hload : ∀ path expected, ∃ deeds, Performs disk l (.call (.manifest path expected)) deeds
      (load l path expected).1 ((load l path expected).2.map .held))
    (hresolver : l.resolver = some .searchPaths) (identity : String) :
    ∃ deeds, Performs disk l (.call (.identity identity)) deeds
      (requireWith disk load l identity).1 (requireWith disk load l identity).2 := by
  rw [requireWith]
  cases hget : l.get? identity with
  | some b => exact ⟨[], .held (Keyed.mem_keys_of_get? hget)⟩
  | none =>
      have hnew : shortName identity ∉ Keyed.keys l.library := Keyed.get?_eq_none_iff.mp hget
      simp only [ask, hresolver, search]
      cases hfind : findFile disk (shortName identity ++ l.suffix) l.searchPaths with
      | error fault => exact ⟨[], .unsearched hnew hfind⟩
      | ok found =>
          cases found with
          | none => exact ⟨[], .missing hnew hfind⟩
          | some path =>
              obtain ⟨deeds, hfound⟩ := hload path (some (shortName identity))
              refine ⟨deeds, ?_⟩
              have hperforms := Performs.found hnew hfind hfound
              dsimp only
              cases hcall : load l path (some (shortName identity)) with
              | mk last result =>
                  rw [hcall] at hperforms
                  cases result with
                  | error fault => exact hperforms
                  | ok name =>
                      dsimp only [Except.map, Except.bind] at hperforms ⊢
                      exact hperforms

/-- Loading is performed where it may go deep enough. The induction is on how deep it may go, and
what entering a name leaves is enough room for the references behind it. -/
theorem loadWithin_performs (hresolver : l.resolver = some .searchPaths) (hroom : Room disk fuel l)
    (path : Path) (expected : Option String) :
    ∃ deeds, Performs disk l (.call (.manifest path expected)) deeds
      (loadWithin disk .endless fuel l path expected).1
      ((loadWithin disk .endless fuel l path expected).2.map .held) := by
  induction fuel generalizing l path expected with
  | zero =>
      obtain ⟨names, hlength, -⟩ := hroom
      exact absurd hlength (Nat.not_lt_zero _)
  | succ fuel ih =>
      rw [loadWithin, Stack.inside_endless]
      cases hread : readExpected disk path expected with
      | error fault => exact ⟨_, .unread hread⟩
      | ok m =>
          dsimp only
          cases hget : Keyed.get? m.name l.library with
          | some b => exact ⟨_, .known hread (Keyed.mem_keys_of_get? hget)⟩
          | none =>
              have hnew := Keyed.get?_eq_none_iff.mp hget
              obtain ⟨hpath, hload, -⟩ := readExpected_eq_ok hread
              obtain ⟨deeds, hfollow⟩ := linkAll_performs
                (requireWith_supplies (loadWithin_serves .endless fuel))
                (fun l identity hr hroom => requireWith_performs (fun path expected =>
                  ih hr hroom path expected) hr identity)
                m.name m.references ((Adds.enter hload hnew).resolver.trans hresolver)
                (hroom.enter (Disk.name_mem_declaredNames hpath hload) hnew)
              refine ⟨.reads path :: .enters m.name :: deeds, ?_⟩
              have hperforms := Performs.entered hread hnew hfollow
              dsimp only
              cases hcall : linkAll (requireWith disk (loadWithin disk .endless fuel)) m.name
                  m.references (l.enter m) with
              | mk last result =>
                  rw [hcall] at hperforms
                  cases result <;> exact hperforms

end

theorem load_performs (disk : Disk) (hresolver : l.resolver = some .searchPaths) (path : Path)
    (expected : Option String) :
    ∃ deeds, Performs disk l (.call (.manifest path expected)) deeds (load disk l path expected).1
      ((load disk l path expected).2.map .held) :=
  loadWithin_performs hresolver (room_of_disk disk l) path expected

theorem call_performs (disk : Disk) (hresolver : l.resolver = some .searchPaths) (c : Call) :
    ∃ deeds, Performs disk l (.call c) deeds (l.call disk c).1 (l.call disk c).2 := by
  cases c with
  | manifest path expected => exact load_performs disk hresolver path expected
  | identity identity =>
      exact requireWith_performs (load_performs disk hresolver) hresolver identity
  | target path =>
      simp only [call_target, loadTarget, Stack.inside_endless, loadOn_endless]
      cases habsolute : absolute disk path with
      | error fault => exact ⟨[], .unnamed habsolute⟩
      | ok p =>
          dsimp only
          cases hplace : addSearchPath disk l p.parent with
          | error fault => exact ⟨[], .unplaced habsolute hplace⟩
          | ok l₁ =>
              have hsame : l₁.resolver = l.resolver := by
                obtain ⟨dirs, rfl, -⟩ := addSearchPath_eq_ok hplace
                rfl
              obtain ⟨deeds, hload⟩ := load_performs disk (hsame.trans hresolver) p none
              refine ⟨deeds, ?_⟩
              have hperforms := Performs.targeted habsolute hplace hload
              dsimp only
              cases hcall : load disk l₁ p none with
              | mk last result =>
                  rw [hcall] at hperforms
                  cases result <;> exact hperforms

/-- What there is to say of a call that has ended. -/
structure Ended (disk : Disk) (l : Loader) (c : Call) (deeds : List Deed) : Prop where
  /-- It does these things and nothing else, and comes to what the call comes to. -/
  performs : ∀ deeds' l' result, Performs disk l (.call c) deeds' l' result ↔
    deeds' = deeds ∧ (l', result) = l.call disk c
  library : Keyed.keys (l.call disk c).1.library = Keyed.keys l.library ++ Deed.entered deeds
  nodup : (Deed.entered deeds).Nodup
  fresh : ∀ name ∈ Deed.entered deeds, name ∉ Keyed.keys l.library
  declared : ∀ name ∈ Deed.entered deeds, name ∈ disk.declaredNames
  reads : Deed.readCount deeds ≤ (Deed.entered deeds).length + 1

/-- Every call for a binary ends, on every disk and whatever was loaded before. -/
theorem call_ends (disk : Disk) (hresolver : l.resolver = some .searchPaths) (c : Call) :
    ∃ deeds, Ended disk l c deeds := by
  obtain ⟨deeds, hcall⟩ := call_performs disk hresolver c
  refine ⟨deeds, ?_⟩
  refine
    { performs := ?_
      library := hcall.keys_library
      nodup := hcall.nodup_entered.1
      fresh := hcall.nodup_entered.2
      declared := hcall.declared
      reads := hcall.readCount_le.1 }
  intro deeds' l' result
  constructor
  · intro h
    obtain ⟨rfl, rfl, rfl⟩ := hcall.unique h
    exact ⟨rfl, rfl⟩
  · rintro ⟨rfl, heq⟩
    obtain ⟨rfl, rfl⟩ := Prod.ext_iff.mp heq
    exact hcall

/-- Two manifests that reference one another, and a third whose file declares another name. -/
def brokenRingDisk : Disk :=
  ⟨[], [(["a"], .directory),
    (["a", "A.yaml"], .file "name: A\nreferences: ['B, Version=1', A, C, B]".toUTF8),
    (["a", "B.yaml"], .file "name: B\nreferences: [A]".toUTF8),
    (["a", "C.yaml"], .file "name: D\nreferences: [A]".toUTF8)]⟩

def brokenRingTarget : Call := .target ⟨.root, ["a", "A.yaml"]⟩

set_option maxRecDepth 100000 in
/-- The call fails after the ring was closed, and the manifest with the wrong name has not been
entered. -/
theorem call_ends_broken_ring :
    (∃ fault, (orphanLoader.call brokenRingDisk brokenRingTarget).2 = .error fault) ∧
    ∃ deeds, Ended brokenRingDisk orphanLoader brokenRingTarget deeds ∧
      Deed.entered deeds = ["A", "B"] := by
  have hevaluated :
      (orphanLoader.call brokenRingDisk brokenRingTarget).2.toOption = none ∧
      Keyed.keys (orphanLoader.call brokenRingDisk brokenRingTarget).1.library = ["A", "B"] := by
    decide +kernel
  refine ⟨exists_error_of_toOption hevaluated.1, ?_⟩
  obtain ⟨deeds, hended⟩ := call_ends (l := orphanLoader) brokenRingDisk rfl brokenRingTarget
  refine ⟨deeds, hended, ?_⟩
  have hempty : Keyed.keys orphanLoader.library = [] := rfl
  have hkeys := hended.library
  rw [hevaluated.2, hempty, List.nil_append] at hkeys
  exact hkeys.symm

end StubTree.Loader
