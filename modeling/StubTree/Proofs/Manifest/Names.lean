import StubTree.Proofs.Manifest.Accepted

/-! # The names of types that were read

A type is given its namespace by key, or by what precedes the last dot of its name. Empty segments
are refused under the key and nowhere else. A name without a key is taken apart as it stands, so a
dot too many leaves a type that has no name, or one in a namespace with an empty segment.
-/

namespace StubTree

namespace Namespace

variable {dotted : String}

/-- Outside any namespace, or in one of one or more segments joined by dots, none of them empty. -/
def WellFormed : Namespace → Prop
  | outside => True
  | named dotted => ∃ parts : List String, parts ≠ [] ∧
      (∀ part ∈ parts, part ≠ "" ∧ '.' ∉ part.toList) ∧ dotted = ".".intercalate parts

theorem wellFormed_named : (named dotted).WellFormed ↔ "" ∉ segments dotted := by
  constructor
  · rintro ⟨parts, hne, hparts, rfl⟩
    have hsegments : segments (".".intercalate parts) = parts :=
      Text.split_intercalate hne fun part hpart => (hparts part hpart).2
    rw [hsegments]
    exact fun hempty => (hparts "" hempty).1 rfl
  · intro h
    refine ⟨segments dotted, Text.split_ne_nil '.' dotted, fun part hpart => ⟨?_, ?_⟩, ?_⟩
    · exact ne_of_mem_of_not_mem hpart h
    · exact Text.not_mem_of_mem_split hpart
    · exact (Text.intercalate_split '.' dotted).symm

instance : DecidablePred WellFormed
  | outside => isTrue trivial
  | named _ => decidable_of_iff' _ wellFormed_named

end Namespace

/-- A declaration that has a name, and no empty segment in its namespace. -/
structure TypeDecl.Proper (d : TypeDecl) : Prop where
  name : d.name ≠ ""
  space : d.space.WellFormed

instance : DecidablePred TypeDecl.Proper := fun d =>
  decidable_of_iff (d.name ≠ "" ∧ d.space.WellFormed)
    ⟨fun h => ⟨h.1, h.2⟩, fun h => ⟨h.name, h.space⟩⟩

/-- Taken apart at its last dot, a full name without empty segments gives a name and a well-formed
namespace, and no other full name does. -/
theorem Namespace.proper_ofFullName (fullName : String) :
    (ofFullName fullName).2 ≠ "" ∧ (ofFullName fullName).1.WellFormed ↔
      "" ∉ segments fullName := by
  rw [ofFullName]
  split
  next before after hcut =>
    have hsegments :
        segments fullName = segments (String.ofList before) ++ [String.ofList after] := by
      rw [segments, segments, Text.split, Text.split, Text.pieces_of_cutLast? hcut,
        String.toList_ofList, List.map_append, List.map_singleton]
    rw [hsegments, wellFormed_named, List.mem_append, List.mem_singleton, not_or, ne_comm,
      and_comm]
  next hnone =>
    have hsegments : segments fullName = [fullName] :=
      Text.split_of_not_mem (Text.not_mem_of_cutLast? hnone)
    rw [hsegments, List.mem_singleton, ne_comm]
    exact and_iff_left trivial

namespace Grammar

open Readable (lookup?)

variable {α : Type} [Readable α]

/-- The items of a list under a key; where there is no list, there are none. -/
def listed (key : String) (entries : Entries α) : List α :=
  ((lookup? key entries).bind items?).getD []

/-- How a type that a value declares comes by its name and its namespace. -/
inductive Names (v : α) (d : TypeDecl) : Prop where
  /-- By key: the name stands as it is given, and so does the namespace, which may be none. -/
  | keyed {entries : Entries α} {s : String} {w : α} (hentries : entries ∈ entries? v)
      (hname : s ∈ textAt? "name" entries) (hkey : w ∈ lookup? "namespace" entries)
      (name : d.name = Text.strip s)
      (space : isNull w ∧ d.space = .outside ∨ ∃ t ∈ text? w, d.space = .named (Text.strip t))
      (proper : d.Proper)
  /-- By the name alone, which is then the full name. -/
  | dotted {entries : Entries α} {s : String} (hentries : entries ∈ entries? v)
      (hname : s ∈ textAt? "name" entries) (hkey : lookup? "namespace" entries = none)
      (fullName : d.fullName = Text.strip s)
      (proper : d.Proper ↔ "" ∉ Namespace.segments (Text.strip s))

end Grammar

namespace Schema

open Grammar
open Readable (shape lookup?)

variable {α : Type} [Readable α] {place : Place} {v : α} {entries : Entries α}

theorem itemsOf_eq_ok {key : String} {items : List α}
    (h : itemsOf place key entries = .ok items) : items = listed key entries := by
  rw [listed]
  rw [itemsOf] at h
  cases hlookup : lookup? key entries with
  | none =>
      rw [hlookup] at h
      cases h
      rfl
  | some w => cases hshape : shape w <;> simp_all [items?, refuse]

theorem ne_empty_of_requiredName {key name : String}
    (h : requiredName place key entries = .ok name) : name ≠ "" := by
  obtain ⟨w, -, h⟩ := exists_of_bind_eq_ok h
  obtain ⟨s, -, hne, rfl⟩ := nameOf_eq_ok.mp h
  exact hne

/-- A namespace that is given by key is none, or a text without empty segments. -/
theorem namespaceOf_eq_ok {space : Namespace} (h : namespaceOf place v = .ok space) :
    (isNull v ∧ space = .outside ∨ ∃ t ∈ text? v, space = .named (Text.strip t)) ∧
      space.WellFormed := by
  rw [namespaceOf] at h
  split at h
  next hnull =>
    cases h
    exact ⟨.inl ⟨by rw [isNull, hnull], rfl⟩, trivial⟩
  next =>
    obtain ⟨dotted, hdotted, h⟩ := exists_of_bind_eq_ok h
    obtain ⟨t, ht, -, rfl⟩ := nameOf_eq_ok.mp hdotted
    split at h
    next => cases h
    next hsegments =>
      cases h
      rw [List.contains_iff_mem] at hsegments
      exact ⟨.inr ⟨t, ht, rfl⟩, Namespace.wellFormed_named.mpr hsegments⟩

theorem names_of_typeOf {path : Path} {index : Nat} {d : TypeDecl}
    (h : typeOf path index v = .ok d) : Names v d := by
  obtain ⟨entries, hentries, hplaced⟩ := exists_placedName_of_typeOf h
  obtain ⟨name, hname, hplaced⟩ := exists_of_bind_eq_ok hplaced
  obtain ⟨s, hs, hstrip⟩ := textAt?_of_requiredName hname
  split at hplaced
  next w hkey =>
    obtain ⟨space, hspace, hplaced⟩ := exists_of_bind_eq_ok hplaced
    cases hplaced
    obtain ⟨hgiven, hwell⟩ := namespaceOf_eq_ok hspace
    exact .keyed hentries hs hkey hstrip.symm hgiven ⟨ne_empty_of_requiredName hname, hwell⟩
  next hkey =>
    have hsplit : Namespace.ofFullName name = (d.space, d.name) := Except.ok.inj hplaced
    have hfull := Namespace.qualify_ofFullName name
    have hproper := Namespace.proper_ofFullName name
    rw [hsplit, ← hstrip] at hfull hproper
    exact .dotted hentries hs hkey hfull
      (Iff.trans ⟨fun hd => ⟨hd.name, hd.space⟩, fun hd => ⟨hd.1, hd.2⟩⟩ hproper)

end Schema

namespace Manifest

/-- The types of a manifest are those that its value lists, each with a name and a well-formed
namespace if its namespace is given by key or the name it gives has no empty segment. -/
theorem names_of_ofValue {α : Type} [Readable α] {path : Path} {v : α} {m : Manifest}
    (h : ofValue path v = .ok m) :
    ∃ entries ∈ Grammar.entries? v,
      List.Forall₂ Grammar.Names (Grammar.listed "types" entries) m.types := by
  obtain ⟨-, entries, hentries, items, hitems, htypes⟩ := exists_typesFrom_of_ofValue h
  refine ⟨entries, Schema.entriesOf_eq_ok.mp hentries, ?_⟩
  rw [← Schema.itemsOf_eq_ok hitems]
  exact (Schema.forall₂_of_typesFrom htypes).imp fun v d ⟨index, hread⟩ =>
    Schema.names_of_typeOf hread

section Dots

open Document

/-- A manifest with a dot too many at some place of most of its names. -/
def dotsTooMany : Document :=
  mapping [(text "name", text "M"),
    (text "types", list [
      mapping [(text "name", text "..T"), (text "namespace", text "A.B")],
      mapping [(text "name", text "U."), (text "namespace", null)],
      mapping [(text "name", text " A.B.V ")],
      mapping [(text "name", text "A..B.T")],
      mapping [(text "name", text ".T")],
      mapping [(text "name", text "N.")]])]

/-- What is read of each of its types, and whether that is a proper name. -/
theorem dotsTooMany_evaluated :
    (ofValue ⟨.relative, ["M.yaml"]⟩ dotsTooMany).toOption.map
        (·.types.map fun d => (d.space, d.name, decide d.Proper)) =
      some [(.named "A.B", "..T", true), (.outside, "U.", true), (.named "A.B", "V", true),
        (.named "A..B", "T", false), (.named "", "T", false), (.named "N", "", false)] := by
  decide +kernel

theorem names_of_ofValue_dots :
    ∃ m, ofValue ⟨.relative, ["M.yaml"]⟩ dotsTooMany = .ok m ∧ m.types.length = 6 ∧
      ∃ entries ∈ Grammar.entries? dotsTooMany,
        List.Forall₂ Grammar.Names (Grammar.listed "types" entries) m.types := by
  obtain ⟨m, hm, htypes⟩ := Option.map_eq_some_iff.mp dotsTooMany_evaluated
  refine ⟨m, eq_ok_of_toOption hm, ?_, names_of_ofValue (eq_ok_of_toOption hm)⟩
  simpa using congrArg List.length htypes

/-- Not all types that are read have a name and a well-formed namespace. -/
theorem ofValue_not_proper :
    ¬ ∀ (path : Path) (v : Document) (m : Manifest), ofValue path v = .ok m →
      ∀ d ∈ m.types, d.Proper := by
  intro hall
  obtain ⟨m, hm, htypes⟩ := Option.map_eq_some_iff.mp dotsTooMany_evaluated
  have hproper := hall _ _ m (eq_ok_of_toOption hm)
  have hmem : (Namespace.named "A..B", "T", false) ∈
      m.types.map fun d => (d.space, d.name, decide d.Proper) := by
    rw [htypes]
    decide
  obtain ⟨d, hd, heq⟩ := List.mem_map.mp hmem
  have hfalse : decide d.Proper = false := congrArg (·.2.2) heq
  exact of_decide_eq_false hfalse (hproper d hd)

end Dots

end Manifest

end StubTree
