import StubTree.Proofs.Manifest.Names
import StubTree.Proofs.Outcome
import StubTree.Proofs.Text.Pieces
import StubTree.Stub.Directory

/-! # Where namespaces stand

A namespace whose segments are all plain has a directory of its own: its segments, one after the
other, below the root. Empty segments add no directory, and slashes add some or leave the root,
so other namespaces can share a directory or stand outside.
-/

namespace StubTree

namespace Path

variable {p root : Path} {s : String} {parts : List String}

/-- Whether a text is a segment of its own in a path. -/
def isSegment (s : String) : Bool := s != "" && s != "."

theorem ofText_of_not_mem (h : '/' ∉ s.toList) : ofText s = ⟨.relative, [s].filter isSegment⟩ := by
  have hslashes : s.toList.takeWhile (· == '/') = [] := by
    cases hchars : s.toList with
    | nil => rfl
    | cons c cs =>
        rw [hchars, List.mem_cons, not_or] at h
        exact List.takeWhile_cons_of_neg fun heq => h.1 (beq_iff_eq.mp heq).symm
  rw [ofText, Text.split_of_not_mem h, hslashes]
  rfl

theorem entry_of_not_mem (p : Path) (h : '/' ∉ s.toList) :
    p.entry s = ⟨p.anchor, p.parts ++ [s].filter isSegment⟩ := by
  rw [entry, ofText_of_not_mem h]
  rfl

theorem foldl_entry (root : Path) (h : ∀ part ∈ parts, '/' ∉ part.toList) :
    parts.foldl entry root = ⟨root.anchor, root.parts ++ parts.filter isSegment⟩ := by
  induction parts generalizing root with
  | nil => rw [List.foldl_nil, List.filter_nil, List.append_nil]
  | cons part rest ih =>
      rw [List.forall_mem_cons] at h
      rw [List.foldl_cons, ih _ h.2, entry_of_not_mem root h.1, List.append_assoc,
        ← List.filter_append, List.singleton_append]

end Path

namespace Namespace

variable {space other : Namespace} {root directory : Path} {dotted : String}

/-- The names of the directories from the root to a namespace. -/
def directories : Namespace → List String
  | outside => [outsideModule]
  | named dotted => segments dotted

/-- A namespace whose segments are directories as they stand. -/
def Plain (space : Namespace) : Prop :=
  ∀ part ∈ space.directories, part ≠ "" ∧ '/' ∉ part.toList

instance (space : Namespace) : Decidable space.Plain :=
  inferInstanceAs (Decidable (∀ part ∈ space.directories, part ≠ "" ∧ '/' ∉ part.toList))

theorem dot_not_mem_of_mem_directories {part : String} (h : part ∈ space.directories) :
    '.' ∉ part.toList := by
  cases space with
  | outside =>
      rw [List.mem_singleton.mp h]
      decide
  | named dotted => exact Text.not_mem_of_mem_split h

theorem directories_ne_nil (space : Namespace) : space.directories ≠ [] := by
  cases space with
  | outside => exact List.cons_ne_nil _ _
  | named dotted => exact Text.split_ne_nil '.' dotted

theorem dots_not_mem_directories (space : Namespace) : ".." ∉ space.directories :=
  fun hdots => dot_not_mem_of_mem_directories hdots (by decide)

theorem head?_directories_eq_outsideModule (hcheck : space.check = .ok ())
    (h : space.directories.head? = some outsideModule) : space = outside := by
  cases space with
  | outside => rfl
  | named dotted =>
      have hreserved : (named dotted).isReserved = true := beq_iff_eq.mpr h
      rw [check, if_pos hreserved] at hcheck
      cases hcheck

/-- Namespaces that are not refused differ in the names of their directories. -/
theorem directories_inj (hcheck : space.check = .ok ()) (hother : other.check = .ok ())
    (h : space.directories = other.directories) : space = other := by
  cases space with
  | outside => exact (head?_directories_eq_outsideModule hother (h ▸ rfl)).symm
  | named dotted =>
      cases other with
      | outside => exact head?_directories_eq_outsideModule hcheck (h ▸ rfl)
      | named dotted' => exact congrArg named (Text.split_injective '.' h)

theorem check_of_directory (h : space.directory root = .ok directory) : space.check = .ok () := by
  cases space with
  | outside => rfl
  | named dotted =>
      obtain ⟨_, hcheck, -⟩ := exists_of_bind_eq_ok h
      exact hcheck

/-- Where no segment has a slash in it, those that are not empty are the directories. -/
theorem directory_of_check (root : Path) (hcheck : space.check = .ok ())
    (hslash : ∀ part ∈ space.directories, '/' ∉ part.toList) :
    space.directory root =
      .ok ⟨root.anchor, root.parts ++ space.directories.filter Path.isSegment⟩ := by
  cases space with
  | outside => exact congrArg _ (Path.entry_of_not_mem root (hslash _ List.mem_cons_self))
  | named dotted =>
      rw [directory, hcheck]
      exact congrArg _ (Path.foldl_entry root hslash)

/-- Two namespaces that differ in an empty segment alone share their directory. -/
example (root : Path) : (named "A..B").directory root = (named "A.B").directory root := by
  rw [directory_of_check root rfl (by decide), directory_of_check root rfl (by decide)]
  rfl

theorem Plain.directory_eq_ok (hplain : space.Plain) (h : space.directory root = .ok directory) :
    directory = ⟨root.anchor, root.parts ++ space.directories⟩ := by
  have hsegments : ∀ part ∈ space.directories, Path.isSegment part = true := by
    intro part hpart
    have hdot : part ≠ "." := by
      rintro rfl
      exact dot_not_mem_of_mem_directories hpart (by decide)
    simp [Path.isSegment, (hplain part hpart).1, hdot]
  rw [directory_of_check root (check_of_directory h) fun part hpart => (hplain part hpart).2,
    List.filter_eq_self.mpr hsegments] at h
  exact (Except.ok.inj h).symm

end Namespace

end StubTree
