import StubTree.Proofs.Loader.Failure

/-! # What is cached

A binary that was required is in the library from then on and is never asked for again, unless a
resolver of one's own has only read its manifest. Such a binary is handed on as it is: it enters no
library, and the resolver is asked anew each time. It is a resolver that answers by the identity
alone, so it has the same answer each time, though it may read another manifest from the same path.
-/

namespace StubTree

/-- The same binary, with the links it had and maybe more. -/
structure Binary.Linked (b b' : Binary) : Prop where
  manifest : b'.manifest = b.manifest
  links : b.links <+: b'.links

theorem Binary.Linked.refl (b : Binary) : b.Linked b := ⟨rfl, List.prefix_refl _⟩

theorem Binary.Linked.trans {b b' b'' : Binary} (h : b.Linked b') (h' : b'.Linked b'') :
    b.Linked b'' :=
  ⟨h'.manifest.trans h.manifest, h.links.trans h'.links⟩

namespace Loader

variable {disk : Disk} {l l' : Loader} {identity : String} {link : Link} {path : Path}
  {expected : Option String} {name : String} {b : Binary}

/-- What can happen to a loader: calls on any disk, and what goes on within them. -/
inductive Step : Loader → Loader → Prop
  | install (l : Loader) (r : Resolver) : Step l (l.install r)
  | addSearchPaths (l : Loader) (disk : Disk) (paths : List Path) :
      Step l (l.addSearchPaths disk paths).1
  | call (l : Loader) (disk : Disk) (c : Call) : Step l (l.call disk c).1
  | search (l : Loader) (disk : Disk) (identity : String) :
      Step l (search disk (load disk) l identity).1
  | enter (l : Loader) {m : Manifest} (hnew : m.name ∉ Keyed.keys l.library) : Step l (l.enter m)
  | addLink (l : Loader) (name : String) (link : Link) : Step l (l.addLink name link)

/-- One loader comes after another. -/
def Later : Loader → Loader → Prop := Relation.ReflTransGen Step

/-- Who is asked for an identity has no binary for it but a manifest that is only read. -/
def ReadsApart (l : Loader) (identity : String) : Prop :=
  l.get? identity = none ∧
    ∃ supply path, l.resolver = some (.custom supply) ∧ supply identity = some (.read path)

/-- An answer that is in the library to stay: whoever asks later for its short name, by whatever
identity, comes to the same binary, and nobody else is asked for it. -/
structure Cached (l : Loader) (identity : String) (link : Link) : Prop where
  held : link = .held (shortName identity)
  stays : ∃ b, l.get? identity = some b ∧ ∀ l', Later l l' → ∀ other,
    shortName other = shortName identity →
      (∃ b', l'.get? other = some b' ∧ b.Linked b') ∧
      ∀ disk, l'.require disk other = (l', .ok link)

/-- An answer that nothing is known of afterwards: whoever asks again for its short name, asks the
resolver, and gets what it reads by then. -/
structure Uncached (disk : Disk) (l : Loader) (identity : String) (l' : Loader) (link : Link) :
    Prop where
  apart : ∃ m, link = .apart m
  asked : l' = { l with asked := l.asked ++ [identity] }
  missing : l'.get? identity = none
  again : ∀ supply other path m, l.resolver = some (.custom supply) →
    shortName other = shortName identity → supply other = some (.read path) →
    Manifest.load disk path = .ok m → m.name = shortName identity →
      l'.require disk other = ({ l' with asked := l'.asked ++ [other] }, .ok (.apart m))

/-! ## Entries stay -/

/-- An entry stays in its place, and only its links grow. -/
theorem Step.get? (h : Step l l') (hget : Keyed.get? name l.library = some b) :
    ∃ b', Keyed.get? name l'.library = some b' ∧ b.Linked b' := by
  cases h with
  | install r => exact ⟨b, hget, .refl b⟩
  | addSearchPaths disk paths =>
      obtain ⟨dirs, heq, -⟩ := addSearchPaths_fst disk l paths
      rw [heq]
      exact ⟨b, hget, .refl b⟩
  | call disk c => exact ⟨b, get?_call hget disk c, .refl b⟩
  | search disk identity =>
      obtain ⟨added, hadds⟩ := search_grows disk l identity
      rw [hadds.library, Keyed.get?_append_of_mem (Keyed.mem_keys_of_get? hget)]
      exact ⟨b, hget, .refl b⟩
  | @enter m hnew =>
      have hne : name ≠ m.name := by
        rintro rfl
        exact hnew (Keyed.mem_keys_of_get? hget)
      exact ⟨b, (Keyed.get?_set_of_ne hne ..).trans hget, .refl b⟩
  | addLink other link =>
      rw [Loader.addLink]
      split
      next => exact ⟨b, hget, .refl b⟩
      next found hfound =>
        by_cases hname : name = other
        · subst hname
          rw [hget] at hfound
          cases hfound
          exact ⟨_, Keyed.get?_set_self .., rfl, List.prefix_append _ _⟩
        · exact ⟨b, (Keyed.get?_set_of_ne hname ..).trans hget, .refl b⟩

theorem Later.get? (h : Later l l') (hget : Keyed.get? name l.library = some b) :
    ∃ b', Keyed.get? name l'.library = some b' ∧ b.Linked b' := by
  induction h with
  | refl => exact ⟨b, hget, .refl b⟩
  | tail _ hstep ih =>
      obtain ⟨b₁, hget₁, hlinked⟩ := ih
      obtain ⟨b₂, hget₂, hmore⟩ := hstep.get? hget₁
      exact ⟨b₂, hget₂, hlinked.trans hmore⟩

theorem cached_of_mem_keys (hname : shortName identity ∈ Keyed.keys l.library) :
    Cached l identity (.held (shortName identity)) := by
  obtain ⟨b, hget⟩ := Keyed.exists_get?_of_mem_keys hname
  refine ⟨rfl, b, hget, fun l' hlater other hother => ?_⟩
  obtain ⟨b', hget', hlinked⟩ := hlater.get? hget
  rw [← hother] at hget' ⊢
  exact ⟨⟨b', hget', hlinked⟩, fun disk => require_of_get? hget'⟩

/-! ## What is loaded is in the library -/

theorem mem_keys_of_loadWithin {fuel : Nat}
    (h : loadWithin disk .endless fuel l path expected = (l', .ok name)) :
    name ∈ Keyed.keys l'.library := by
  cases fuel with
  | zero => cases h
  | succ fuel =>
      rw [loadWithin, Stack.inside_endless] at h
      split at h
      · cases h
      next m hread =>
        split at h
        next b hget =>
          cases h
          exact Keyed.mem_keys_of_get? hget
        next hget =>
          obtain ⟨-, hload, -⟩ := readExpected_eq_ok hread
          have henter := Adds.enter hload (Keyed.get?_eq_none_iff.mp hget)
          have hheld : m.name ∈ Keyed.keys (l.enter m).library := by
            rw [henter.keys_library]
            simp
          obtain ⟨links, added, hadds, -⟩ := linkAll_from
            (requireWith_supplies (loadWithin_serves .endless fuel)) [] rfl henter rfl
            (fun _ => ⟨rfl, .root_only hheld⟩)
          split at h
          next hcall =>
            cases h
            rw [hcall] at hadds
            rw [hadds.keys_library]
            simp
          next => cases h

theorem mem_keys_of_search (h : search disk (load disk) l identity = (l', .ok (some link))) :
    ∃ name ∈ Keyed.keys l'.library, link = .held name := by
  rw [search] at h
  split at h
  · cases h
  · cases h
  · split at h
    next hload =>
      cases h
      exact ⟨_, mem_keys_of_loadWithin hload, rfl⟩
    next => cases h

/-- Whoever is asked has a binary of the library, if it is not one that reads a manifest only. -/
theorem mem_keys_of_ask (h : ask disk (load disk) l identity = (l', .ok (some link)))
    (hloads : ∀ supply path, l.resolver = some (.custom supply) →
      supply identity ≠ some (.read path)) :
    ∃ name ∈ Keyed.keys l'.library, link = .held name := by
  rw [ask] at h
  split at h
  · cases h
  · exact mem_keys_of_search h
  next supply hcustom =>
    dsimp only at h
    split at h
    next => cases h
    next path hsupply =>
      split at h
      next hload =>
        cases h
        exact ⟨_, mem_keys_of_loadWithin hload, rfl⟩
      next => cases h
    next path hsupply => exact absurd hsupply (hloads supply path hcustom)

theorem apart_of_ask {supply : String → Option Supply}
    (h : ask disk (load disk) l identity = (l', .ok (some link)))
    (hcustom : l.resolver = some (.custom supply)) (hsupply : supply identity = some (.read path)) :
    ∃ m, link = .apart m ∧ l' = { l with asked := l.asked ++ [identity] } := by
  simp only [ask, hcustom, hsupply] at h
  split at h
  next m _ =>
    cases h
    exact ⟨m, rfl, by rw [hcustom]⟩
  next => cases h

/-! ## Requiring -/

/-- An identity is required from the library, or else from who is asked for it. -/
theorem require_eq_ok (h : l.require disk identity = (l', .ok link)) :
    (shortName identity ∈ Keyed.keys l.library ∧ l' = l ∧ link = .held (shortName identity)) ∨
      (l.get? identity = none ∧ ask disk (load disk) l identity = (l', .ok (some link)) ∧
        link.name = shortName identity) := by
  rw [require, Stack.inside_endless, loadOn_endless, requireWith] at h
  split at h
  next b hget =>
    cases h
    exact Or.inl ⟨Keyed.mem_keys_of_get? hget, rfl, rfl⟩
  next hget =>
    split at h
    next => cases h
    next last found hask =>
      obtain ⟨rfl, haccept⟩ := Prod.mk.inj h
      obtain ⟨rfl, hname⟩ := accept_eq_ok haccept
      exact Or.inr ⟨hget, hask, hname⟩

theorem require_of_read {supply : String → Option Supply} {m : Manifest}
    (hget : l.get? identity = none) (hcustom : l.resolver = some (.custom supply))
    (hsupply : supply identity = some (.read path)) (hload : Manifest.load disk path = .ok m)
    (hname : m.name = shortName identity) :
    l.require disk identity = ({ l with asked := l.asked ++ [identity] }, .ok (.apart m)) := by
  have hlink : (Link.apart m).name = shortName identity := hname
  simp only [require, requireWith, hget, ask, hcustom, hsupply, hload]
  rw [accept_of_name hlink]

/-- Whatever is required is cached, unless a resolver of one's own, which answers by the identity
alone, has only read it. -/
theorem require_caches (h : l.require disk identity = (l', .ok link)) :
    link.name = shortName identity ∧
    (l.ReadsApart identity → Uncached disk l identity l' link) ∧
    (¬ l.ReadsApart identity → Cached l' identity link) := by
  rcases require_eq_ok h with ⟨hname, rfl, rfl⟩ | ⟨hget, hask, hname⟩
  · refine ⟨rfl, fun hapart => ?_, fun _ => cached_of_mem_keys hname⟩
    exact absurd hname (Keyed.get?_eq_none_iff.mp hapart.1)
  · refine ⟨hname, ?_, ?_⟩
    · rintro ⟨-, supply, path, hcustom, hsupply⟩
      obtain ⟨m, rfl, rfl⟩ := apart_of_ask hask hcustom hsupply
      refine ⟨⟨m, rfl⟩, rfl, hget, ?_⟩
      intro supply' other path' m' hcustom' hother hsupply' hload hname'
      have hmissing : Loader.get? { l with asked := l.asked ++ [identity] } other = none := by
        rw [← hget, Loader.get?, hother, Loader.get?]
      exact require_of_read hmissing hcustom' hsupply' hload (hname'.trans hother.symm)
    · intro hloads
      obtain ⟨name, hmem, rfl⟩ := mem_keys_of_ask hask
        fun supply path hcustom hsupply => hloads ⟨hget, supply, path, hcustom, hsupply⟩
      cases hname
      exact cached_of_mem_keys hmem

/-! ## Two manifests of one name -/

def twoVersions : Disk :=
  ⟨[], [(["one"], .directory),
    (["one", "B.yaml"], .file "name: B\nversion: '1'".toUTF8),
    (["two"], .directory),
    (["two", "B.yaml"], .file "name: B\nversion: '2'".toUTF8)]⟩

/-- A resolver that tells versions apart, where the short name does not. -/
def byVersion (supply : Path → Supply) : String → Option Supply
  | "B" => some (supply ⟨.root, ["one", "B.yaml"]⟩)
  | "B, Version=2" => some (supply ⟨.root, ["two", "B.yaml"]⟩)
  | _ => none

/-- A loader whose resolver handles the manifests it has in the way given. -/
def versioned (supply : Path → Supply) : Loader := install {} (.custom (byVersion supply))

/-- The loader after the first version was required. -/
def firstRequired (supply : Path → Supply) : Loader :=
  ((versioned supply).require twoVersions "B").1

/-- A resolver that loads is asked once, and the second version is never seen. -/
theorem require_caches_loaded :
    (versioned .load).require twoVersions "B" = (firstRequired .load, .ok (.held "B")) ∧
    Cached (firstRequired .load) "B" (.held "B") ∧
    (firstRequired .load).require twoVersions "B, Version=2" =
      (firstRequired .load, .ok (.held "B")) := by
  have hresult : ((versioned .load).require twoVersions "B").2 = .ok (.held "B") :=
    eq_ok_of_toOption (by decide +kernel)
  have hrequired : (versioned .load).require twoVersions "B" =
      (firstRequired .load, .ok (.held "B")) := Prod.ext rfl hresult
  obtain ⟨-, -, hcaches⟩ := require_caches hrequired
  have hcached : Cached (firstRequired .load) "B" (.held "B") := by
    apply hcaches
    rintro ⟨-, supply, path, hcustom, hsupply⟩
    cases hcustom
    cases hsupply
  obtain ⟨b, -, hstays⟩ := hcached.stays
  exact ⟨hrequired, hcached, (hstays _ .refl "B, Version=2" (by decide +kernel)).2 twoVersions⟩

def firstVersion : Manifest := ⟨"B", "1", ⟨.root, ["one", "B.yaml"]⟩, [], []⟩

def secondVersion : Manifest := ⟨"B", "2", ⟨.root, ["two", "B.yaml"]⟩, [], []⟩

/-- With a resolver that only reads, a binary that was required is not in the library, and the next
one to require its short name gets another. -/
theorem require_not_cached :
    (versioned .read).require twoVersions "B" = (firstRequired .read, .ok (.apart firstVersion)) ∧
    (firstRequired .read).get? "B" = none ∧
    shortName "B, Version=2" = shortName "B" ∧
    (firstRequired .read).require twoVersions "B, Version=2" =
      ({ firstRequired .read with asked := ["B", "B, Version=2"] },
        .ok (.apart secondVersion)) := by
  have hfirst : Manifest.load twoVersions firstVersion.path = .ok firstVersion :=
    eq_ok_of_toOption (by decide +kernel)
  have hsecond : Manifest.load twoVersions secondVersion.path = .ok secondVersion :=
    eq_ok_of_toOption (by decide +kernel)
  have hname : shortName "B" = "B" := by decide +kernel
  have hnext : shortName "B, Version=2" = "B" := by decide +kernel
  have hrequired : (versioned .read).require twoVersions "B" =
      ({ versioned .read with asked := ["B"] }, .ok (.apart firstVersion)) :=
    require_of_read rfl rfl rfl hfirst hname.symm
  have hstate : firstRequired .read = { versioned .read with asked := ["B"] } :=
    congrArg Prod.fst hrequired
  refine ⟨?_, ?_, hnext.trans hname.symm, ?_⟩
  · rw [hrequired, hstate]
  · rw [hstate]
    rfl
  · rw [hstate]
    exact require_of_read rfl rfl rfl hsecond hnext.symm

end Loader

end StubTree
