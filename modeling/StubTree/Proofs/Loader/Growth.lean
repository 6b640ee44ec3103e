import Mathlib.Logic.Relation
import StubTree.Loader
import StubTree.Proofs.Keyed
import StubTree.Proofs.Manifest.Reading

/-! # How a library grows

What a call for a binary does to a loader, however it ends: entries come behind those of the
library, which stay as they are, and each is linked to the first of what it references, one link
for each reference. Of a call that has a result, every new entry is linked to all it references,
and is reached from the result.

Inner calls see entries that are still being linked. They need not know which: they leave every
entry before them alone, and so the links of an entry are only ever the work of its own call.
-/

namespace StubTree

/-- The short names of what a manifest references, in order. -/
def Manifest.wanted (m : Manifest) : List String := m.references.map shortName

/-- What a binary is linked to once every reference is followed. -/
def Manifest.wantedLinks (m : Manifest) : List Link :=
  m.references.map fun reference => .held (shortName reference)

/-- One binary leads to another along links. -/
def Library.Reaches (lib : Library) (a b : String) : Prop :=
  Relation.ReflTransGen (fun c d => Link.held d ∈ lib.linksOf (.held c)) a b

/-- Whether a path names a file. -/
def Disk.HasFile (d : Disk) (p : Path) : Prop :=
  ∃ entry, d.probe p = .ok entry ∧ isFile entry = true

namespace Library

variable {lib lib' : Library} {a b : String}

theorem Reaches.mono (h : lib.Reaches a b)
    (hlinks : ∀ name, lib.linksOf (.held name) ⊆ lib'.linksOf (.held name)) :
    lib'.Reaches a b :=
  Relation.ReflTransGen.mono (fun c _ hlink => hlinks c hlink) a b h

theorem linksOf_subset_append (lib added : Library) (name : String) :
    lib.linksOf (.held name) ⊆ Library.linksOf (lib ++ added) (.held name) := by
  intro link hlink
  by_cases hname : name ∈ Keyed.keys lib
  · rw [linksOf, Keyed.get?_append_of_mem hname]
    exact hlink
  · rw [linksOf, Keyed.get?_eq_none_iff.mpr hname] at hlink
    cases hlink

end Library

namespace Loader

variable {disk : Disk} {l l' l'' : Loader} {added more : Library} {m : Manifest} {link : Link}

/-- A loader that asks nobody, or searches the search paths. -/
def IsStandard (l : Loader) : Prop := ∀ supply, l.resolver ≠ some (.custom supply)

/-- The path of the file of a short name: it stands in the first search path that has one. -/
def FoundAt (disk : Disk) (l : Loader) (name : String) (path : Path) : Prop :=
  ∃ before dir after, l.searchPaths = before ++ dir :: after ∧
    (∀ other ∈ before, ¬ disk.HasFile (other.entry (name ++ l.suffix))) ∧
    disk.HasFile (dir.entry (name ++ l.suffix)) ∧
    absolute disk (dir.entry (name ++ l.suffix)) = .ok path

/-- What becomes of a library whatever a call for a binary comes to: new entries come behind the
old ones. -/
structure Grows (disk : Disk) (l : Loader) (added : Library) (l' : Loader) : Prop where
  library : l'.library = l.library ++ added
  resolver : l'.resolver = l.resolver
  nodup : (Keyed.keys added).Nodup
  fresh : ∀ name ∈ Keyed.keys added, name ∉ Keyed.keys l.library
  read : ∀ entry ∈ added, entry.2.manifest.name = entry.1 ∧
    Manifest.load disk entry.2.manifest.path = .ok entry.2.manifest
  linked : ∀ entry ∈ added, entry.2.links.map Link.name <+: entry.2.manifest.wanted
  held : l.IsStandard → ∀ entry ∈ added, ∀ link ∈ entry.2.links,
    ∃ name ∈ Keyed.keys l'.library, link = .held name

/-- A call that changes nothing but the library. -/
structure Adds (disk : Disk) (l : Loader) (added : Library) (l' : Loader) : Prop
    extends Grows disk l added l' where
  suffix : l'.suffix = l.suffix
  searchPaths : l'.searchPaths = l.searchPaths
  targets : l'.targets = l.targets

/-- What a call for a binary has done that comes to `root`. Each new entry stands where the
search paths have it, unless it is the root and `direct` knows its path. -/
structure Completes (disk : Disk) (l : Loader) (direct : Path → Prop) (added lib : Library)
    (root : String) : Prop where
  held : root ∈ Keyed.keys lib
  linked : ∀ entry ∈ added, entry.2.links = entry.2.manifest.wantedLinks
  reached : ∀ name ∈ Keyed.keys added, lib.Reaches root name
  sources : ∀ entry ∈ added, (entry.1 = root ∧ direct entry.2.manifest.path) ∨
    l.FoundAt disk entry.1 entry.2.manifest.path

namespace Grows

theorem isStandard (h : Grows disk l added l') (hstd : l.IsStandard) : l'.IsStandard :=
  fun supply => h.resolver ▸ hstd supply

theorem keys_library (h : Grows disk l added l') :
    Keyed.keys l'.library = Keyed.keys l.library ++ Keyed.keys added := by
  rw [h.library, Keyed.keys_append]

theorem mem_keys (h : Grows disk l added l') {name : String}
    (hname : name ∈ Keyed.keys l.library) : name ∈ Keyed.keys l'.library := by
  rw [h.keys_library]
  exact List.mem_append_left _ hname

theorem reaches (h : Grows disk l added l') {a b : String} (hab : l.library.Reaches a b) :
    l'.library.Reaches a b :=
  hab.mono fun name => h.library ▸ Library.linksOf_subset_append l.library added name

end Grows

namespace Adds

theorem refl (disk : Disk) (l : Loader) : Adds disk l [] l where
  library := (List.append_nil _).symm
  suffix := rfl
  resolver := rfl
  searchPaths := rfl
  targets := rfl
  nodup := List.nodup_nil
  fresh _ h := by cases h
  read _ h := by cases h
  linked _ h := by cases h
  held _ _ h := by cases h

theorem foundAt_iff (h : Adds disk l added l') {name : String} {path : Path} :
    l'.FoundAt disk name path ↔ l.FoundAt disk name path := by
  rw [FoundAt, FoundAt, h.suffix, h.searchPaths]

theorem trans (h : Adds disk l added l') (h' : Adds disk l' more l'') :
    Adds disk l (added ++ more) l'' where
  library := by rw [h'.library, h.library, List.append_assoc]
  suffix := h'.suffix.trans h.suffix
  resolver := h'.resolver.trans h.resolver
  searchPaths := h'.searchPaths.trans h.searchPaths
  targets := h'.targets.trans h.targets
  nodup := by
    rw [Keyed.keys_append, List.nodup_append]
    refine ⟨h.nodup, h'.nodup, ?_⟩
    intro name hname other hother heq
    apply h'.fresh other hother
    rw [h.keys_library]
    exact List.mem_append_right _ (heq ▸ hname)
  fresh := by
    intro name hname
    rw [Keyed.keys_append, List.mem_append] at hname
    rcases hname with hname | hname
    · exact h.fresh name hname
    · exact fun hold => h'.fresh name hname (h.mem_keys hold)
  read entry hentry := (List.mem_append.mp hentry).elim (h.read entry) (h'.read entry)
  linked entry hentry := (List.mem_append.mp hentry).elim (h.linked entry) (h'.linked entry)
  held := by
    intro hstd entry hentry link hlink
    rcases List.mem_append.mp hentry with hentry | hentry
    · obtain ⟨name, hname, heq⟩ := h.held hstd entry hentry link hlink
      exact ⟨name, h'.mem_keys hname, heq⟩
    · exact h'.held (h.isStandard hstd) entry hentry link hlink

/-- A binary that was read enters without links. -/
theorem enter (hread : Manifest.load disk m.path = .ok m)
    (hfresh : m.name ∉ Keyed.keys l.library) :
    Adds disk l [(m.name, ⟨m, []⟩)] (l.enter m) where
  library := Keyed.set_of_not_mem hfresh _
  suffix := rfl
  resolver := rfl
  searchPaths := rfl
  targets := rfl
  nodup := by simp
  fresh := by simpa using hfresh
  read := by simpa using hread
  linked := by simp
  held := by simp

end Adds

/-- Linking the entry of a name leaves all others alone. -/
theorem library_addLink {before after : Library} {name : String} {b : Binary}
    (hlibrary : l.library = before ++ (name, b) :: after) (hname : name ∉ Keyed.keys before)
    (link : Link) :
    (l.addLink name link).library =
      before ++ (name, { b with links := b.links ++ [link] }) :: after := by
  have hget : Keyed.get? name l.library = some b := by
    rw [hlibrary, Keyed.get?_append_of_not_mem hname, Keyed.get?_cons, if_pos rfl]
  rw [addLink, hget]
  simp only [hlibrary, Keyed.set_append_of_not_mem hname, Keyed.set, if_true]

theorem addLink_eq (l : Loader) (name : String) (link : Link) :
    l.addLink name link = { l with library := (l.addLink name link).library } := by
  rw [addLink]
  split <;> rfl

theorem linksOf_subset_addLink (l : Loader) (name : String) (link : Link) (other : String) :
    l.library.linksOf (.held other) ⊆ (l.addLink name link).library.linksOf (.held other) := by
  rw [addLink]
  split
  next => exact fun _ h => h
  next b hget =>
    intro known hknown
    simp only [Library.linksOf] at hknown ⊢
    by_cases heq : other = name
    · subst heq
      rw [hget] at hknown
      rw [Keyed.get?_set_self]
      exact List.mem_append_left _ hknown
    · rw [Keyed.get?_set_of_ne heq]
      exact hknown

/-- One more link of the entry that was added first. -/
theorem Adds.addLink {links : List Link} (h : Adds disk l ((m.name, ⟨m, links⟩) :: added) l')
    (hlinked : (links ++ [link]).map Link.name <+: m.wanted)
    (hheld : l.IsStandard → ∃ name ∈ Keyed.keys l'.library, link = .held name) :
    Adds disk l ((m.name, ⟨m, links ++ [link]⟩) :: added) (l'.addLink m.name link) := by
  have hname : m.name ∉ Keyed.keys l.library := h.fresh m.name List.mem_cons_self
  have hlibrary := library_addLink h.library hname link
  have hkeys : Keyed.keys (l'.addLink m.name link).library = Keyed.keys l'.library := by
    rw [hlibrary, h.library]
    simp
  rw [addLink_eq]
  exact
    { library := hlibrary
      suffix := h.suffix
      resolver := h.resolver
      searchPaths := h.searchPaths
      targets := h.targets
      nodup := h.nodup
      fresh := h.fresh
      read := by
        intro entry hentry
        rcases List.mem_cons.mp hentry with rfl | hentry
        · exact h.read (m.name, ⟨m, links⟩) List.mem_cons_self
        · exact h.read entry (List.mem_cons_of_mem _ hentry)
      linked := by
        intro entry hentry
        rcases List.mem_cons.mp hentry with rfl | hentry
        · exact hlinked
        · exact h.linked entry (List.mem_cons_of_mem _ hentry)
      held := by
        intro hstd entry hentry known hknown
        simp only [hkeys]
        rcases List.mem_cons.mp hentry with rfl | hentry
        · rcases List.mem_append.mp hknown with hknown | hknown
          · exact h.held hstd (m.name, ⟨m, links⟩) List.mem_cons_self known hknown
          · rw [List.mem_singleton.mp hknown]
            exact hheld hstd
        · exact h.held hstd entry (List.mem_cons_of_mem _ hentry) known hknown }

end Loader

end StubTree
