import StubTree.Proofs.Loader.Linking

/-! # References between types

What the types of a library refer to, and the types that are reached along references. In a
library whose links lead to entries, every reference that means a type means a declared one.
-/

namespace StubTree.Library

variable {lib : Library} {start link : Link} {t u : TypeId} {d : TypeDecl} {unit fullName : String}
  {refs : List TypeRef}

/-- A binary of the library declares the type in that way. -/
def Declares (lib : Library) (t : TypeId) (d : TypeDecl) : Prop :=
  ∃ m, lib.manifest? (.held t.unit) = some m ∧ d ∈ m.types ∧ d.space = t.space ∧ d.name = t.name

/-- Every reference of the declaration of a type has a meaning, and one of them means the other
type. -/
def Refers (lib : Library) (t u : TypeId) : Prop :=
  ∃ d us, lib.Declares t d ∧ lib.referenced ⟨.held t.unit, d⟩ = .ok us ∧ u ∈ us

/-- The least set of types that has the seeds and, with every type, all it refers to. -/
inductive Closure (lib : Library) (seed : TypeId → Prop) : TypeId → Prop
  | seed {t : TypeId} (h : seed t) : Closure lib seed t
  | refers {t u : TypeId} (h : Closure lib seed t) (hrefers : lib.Refers t u) : Closure lib seed u

theorem Closure.subset {seed set : TypeId → Prop} (h : lib.Closure seed t)
    (hseed : ∀ t, seed t → set t) (hclosed : ∀ t u, set t → lib.Refers t u → set u) : set t := by
  induction h with
  | seed h => exact hseed _ h
  | refers _ hrefers ih => exact hclosed _ _ ih hrefers

theorem Closure.mono {seed seed' : TypeId → Prop} (h : lib.Closure seed t)
    (hseed : ∀ t, seed t → seed' t) : lib.Closure seed' t :=
  h.subset (fun t ht => .seed (hseed t ht)) fun _ _ => .refers

/-- What is reached from more seeds is reached from some of them. -/
theorem closure_or_iff {seed seed' : TypeId → Prop} :
    lib.Closure (fun t => seed t ∨ seed' t) t ↔ lib.Closure seed t ∨ lib.Closure seed' t := by
  constructor
  · intro h
    induction h with
    | seed hseed => exact hseed.imp .seed .seed
    | refers _ hrefers ih => exact ih.imp (.refers · hrefers) (.refers · hrefers)
  · rintro (h | h)
    · exact h.mono fun _ => Or.inl
    · exact h.mono fun _ => Or.inr

/-- The least set within another that has the seeds there are in it and, with every type, all in
it that the type refers to. -/
inductive ClosureWithin (lib : Library) (inside seed : TypeId → Prop) : TypeId → Prop
  | seed {t : TypeId} (h : seed t) (hinside : inside t) : ClosureWithin lib inside seed t
  | refers {t u : TypeId} (h : ClosureWithin lib inside seed t) (hrefers : lib.Refers t u)
      (hinside : inside u) : ClosureWithin lib inside seed u

namespace ClosureWithin

variable {inside inside' seed : TypeId → Prop}

theorem within (h : lib.ClosureWithin inside seed t) : inside t := by
  cases h with
  | seed _ hinside => exact hinside
  | refers _ _ hinside => exact hinside

theorem mono (h : lib.ClosureWithin inside seed t) (hmono : ∀ t, inside t → inside' t) :
    lib.ClosureWithin inside' seed t := by
  induction h with
  | seed h hinside => exact .seed h (hmono _ hinside)
  | refers _ hrefers hinside ih => exact .refers ih hrefers (hmono _ hinside)

theorem closure (h : lib.ClosureWithin inside seed t) : lib.Closure seed t := by
  induction h with
  | seed h => exact .seed h
  | refers _ hrefers _ ih => exact .refers ih hrefers

/-- Where every type is inside, nothing is left out. -/
theorem of_closure (hall : ∀ t, inside t) (h : lib.Closure seed t) :
    lib.ClosureWithin inside seed t := by
  induction h with
  | seed h => exact .seed h (hall _)
  | refers _ hrefers ih => exact .refers ih hrefers (hall _)

/-- Where references lead back inside only to what is reached inside, nothing inside is missed. -/
theorem of_closure_of_return (h : lib.Closure seed t) (hinside : inside t)
    (hreturn : ∀ r t, lib.Closure seed r → ¬ inside r → lib.Refers r t → inside t →
      lib.ClosureWithin inside seed t) : lib.ClosureWithin inside seed t := by
  induction h with
  | seed h => exact .seed h hinside
  | @refers r t hr hrefers ih =>
      by_cases hr' : inside r
      · exact .refers (ih hr') hrefers hinside
      · exact hreturn r t hr hr' hrefers hinside

end ClosureWithin

/-! ## Declarations -/

theorem exists_get?_of_manifest? {m : Manifest} (h : lib.manifest? (.held unit) = some m) :
    ∃ links, Keyed.get? unit lib = some ⟨m, links⟩ := by
  obtain ⟨⟨m, links⟩, hget, rfl⟩ := Option.map_eq_some_iff.mp h
  exact ⟨links, hget⟩

/-- A full name belongs to one declaration of a binary. -/
theorem Sound.decl_unique (h : lib.Sound) {m : Manifest} {d d' : TypeDecl}
    (hm : lib.manifest? (.held unit) = some m) (hd : d ∈ m.types) (hd' : d' ∈ m.types)
    (hspace : d.space = d'.space) (hname : d.name = d'.name) : d = d' := by
  obtain ⟨links, hget⟩ := exists_get?_of_manifest? hm
  have hnodup := h.fullNames _ (Keyed.mem_of_get? hget)
  apply List.inj_on_of_nodup_map hnodup hd hd'
  rw [TypeDecl.fullName, TypeDecl.fullName, hspace, hname]

theorem Sound.decl?_eq_some (h : lib.Sound) : lib.decl? t = some d ↔ lib.Declares t d := by
  rw [decl?, Option.bind_eq_some_iff]
  constructor
  · rintro ⟨m, hm, hfind⟩
    have hsame := List.find?_some hfind
    simp only [Bool.and_eq_true, beq_iff_eq] at hsame
    exact ⟨m, hm, List.mem_of_find?_eq_some hfind, hsame⟩
  · rintro ⟨m, hm, hd, hspace, hname⟩
    refine ⟨m, hm, ?_⟩
    cases hfind : m.types.find? fun d => d.space == t.space && d.name == t.name with
    | none =>
        have hnone := List.find?_eq_none.mp hfind d hd
        simp [hspace, hname] at hnone
    | some d' =>
        have hsame := List.find?_some hfind
        simp only [Bool.and_eq_true, beq_iff_eq] at hsame
        rw [h.decl_unique hm (List.mem_of_find?_eq_some hfind) hd (hsame.1.trans hspace.symm)
          (hsame.2.trans hname.symm)]

theorem Sound.declares_unique (h : lib.Sound) {d' : TypeDecl} (hd : lib.Declares t d)
    (hd' : lib.Declares t d') : d = d' := by
  rw [← h.decl?_eq_some] at hd hd'
  exact Option.some.inj (hd.symm.trans hd')

/-- What a binary exports it declares. -/
theorem declares_of_mem_exported (h : t ∈ lib.exported unit) : ∃ d, lib.Declares t d := by
  rw [exported] at h
  split at h
  · cases h
  next m hm =>
    obtain ⟨d, hd, rfl⟩ := List.mem_map.mp h
    exact ⟨d, m, hm, List.mem_of_mem_filter hd, rfl, rfl⟩

/-! ## Meanings -/

/-- What holds of the links that wait, and of all that such links lead to, holds of all that a
search goes through. -/
theorem visit_preserves (inside : Link → Prop)
    (hlinks : ∀ link, inside link → ∀ other ∈ lib.linksOf link, inside other) {fuel : Nat}
    {seen : List String} {queue : List Link} (hqueue : ∀ link ∈ queue, inside link) :
    ∀ link ∈ lib.visit fuel seen queue, inside link := by
  induction fuel generalizing seen queue with
  | zero =>
      intro link hlink
      cases hlink
  | succ fuel ih =>
      cases queue with
      | nil =>
          intro link hlink
          cases hlink
      | cons first rest =>
          obtain ⟨hfirst, hrest⟩ := List.forall_mem_cons.mp hqueue
          rw [Library.visit]
          split
          next => exact ih hrest
          next =>
            refine List.forall_mem_cons.mpr ⟨hfirst, ih ?_⟩
            intro other hother
            rcases List.mem_append.mp hother with hother | hother
            · exact hrest other hother
            · exact hlinks first hfirst other hother

/-- A search that starts at an entry goes through those that it leads to. -/
theorem Closed.exists_reached_of_mem_searchOrder (h : lib.Closed) (hunit : unit ∈ Keyed.keys lib)
    (hlink : link ∈ lib.searchOrder (.held unit)) :
    ∃ name ∈ Keyed.keys lib, link = .held name ∧ lib.Reaches unit name := by
  refine visit_preserves
    (fun link => ∃ name ∈ Keyed.keys lib, link = .held name ∧ lib.Reaches unit name)
    ?_ ?_ link hlink
  · rintro _ ⟨name, hname, rfl, hreaches⟩ other hother
    obtain ⟨next, hnext, rfl⟩ := h.exists_of_mem_linksOf hname hother
    exact ⟨next, hnext, rfl, hreaches.tail hother⟩
  · intro first hfirst
    exact ⟨unit, hunit, List.mem_singleton.mp hfirst, .refl⟩

/-- What a full name means in an entry is declared in that way, by an entry it leads to. -/
theorem Closed.declares_of_resolve (h : lib.Closed) (hunit : unit ∈ Keyed.keys lib) {t : Located}
    (hresolve : lib.resolve (.held unit) fullName = .ok t) :
    lib.Declares t.id t.decl ∧ lib.Reaches unit t.id.unit := by
  rw [resolve] at hresolve
  split at hresolve
  next found hfound =>
    cases hresolve
    obtain ⟨link, hlink, hdeclared⟩ := List.exists_of_findSome?_eq_some hfound
    obtain ⟨decl, hdecl, rfl⟩ := Option.map_eq_some_iff.mp hdeclared
    obtain ⟨m, hm, hfind⟩ := Option.bind_eq_some_iff.mp hdecl
    obtain ⟨name, -, rfl, hreaches⟩ := h.exists_reached_of_mem_searchOrder hunit hlink
    exact ⟨⟨m, hm, List.mem_of_find?_eq_some hfind, rfl, rfl⟩, hreaches⟩
  next => cases hresolve

/-- Every one of the references has a meaning, be it that it means no type. -/
def Resolves (lib : Library) (start : Link) (refs : List TypeRef) : Prop :=
  ∀ ref ∈ refs, ∃ meaning, lib.resolveRef start ref = .ok meaning

/-- One of the references means the type. -/
def Means (lib : Library) (start : Link) (refs : List TypeRef) (u : TypeId) : Prop :=
  ∃ ref ∈ refs, ∃ t, lib.resolveRef start ref = .ok (some t) ∧ t.id = u

theorem means_cons {ref : TypeRef} {meaning : Option Located}
    (h : lib.resolveRef start ref = .ok meaning) :
    lib.Means start (ref :: refs) u ↔
      (∃ t, meaning = some t ∧ t.id = u) ∨ lib.Means start refs u := by
  simp [Means, h]

theorem resolves_cons {ref : TypeRef} {meaning : Option Located}
    (h : lib.resolveRef start ref = .ok meaning) :
    lib.Resolves start (ref :: refs) ↔ lib.Resolves start refs := by
  simp [Resolves, h]

theorem not_resolves_cons {ref : TypeRef} {fault : Fault}
    (h : lib.resolveRef start ref = .error fault) : ¬ lib.Resolves start (ref :: refs) := by
  simp [Resolves, h]

/-- Where all references have a meaning, the types they mean are found, and no others. -/
theorem Resolves.resolveAll (h : lib.Resolves start refs) (found : List TypeId) :
    ∃ us, lib.resolveAll start found refs = .ok us ∧
      ∀ u, u ∈ us ↔ u ∈ found ∨ lib.Means start refs u := by
  induction refs generalizing found with
  | nil => exact ⟨found, rfl, fun u => by simp [Means]⟩
  | cons ref rest ih =>
      obtain ⟨meaning, hmeaning⟩ := h ref List.mem_cons_self
      rw [resolves_cons hmeaning] at h
      rw [Library.resolveAll, hmeaning]
      cases meaning with
      | none =>
          obtain ⟨us, hus, hmem⟩ := ih h found
          exact ⟨us, hus, fun u => by simp [hmem, means_cons hmeaning]⟩
      | some t =>
          obtain ⟨us, hus, hmem⟩ := ih h (if t.id ∈ found then found else found ++ [t.id])
          refine ⟨us, hus, ?_⟩
          intro u
          rw [hmem, means_cons hmeaning]
          split
          next hfound =>
            constructor
            · exact Or.imp_right Or.inr
            · rintro (hu | ⟨_, ⟨⟩, rfl⟩ | hu)
              · exact Or.inl hu
              · exact Or.inl hfound
              · exact Or.inr hu
          next =>
            simp [or_assoc, eq_comm]

theorem resolves_of_resolveAll {found us : List TypeId}
    (h : lib.resolveAll start found refs = .ok us) : lib.Resolves start refs := by
  induction refs generalizing found with
  | nil => exact fun _ href => by cases href
  | cons ref rest ih =>
      obtain ⟨meaning, hmeaning, h⟩ := exists_of_bind_eq_ok h
      rw [resolves_cons hmeaning]
      cases meaning with
      | none => exact ih h
      | some t => exact ih h

/-- The types that a declaration refers to are found where all its references have a meaning. -/
theorem exists_referenced_iff {t : Located} :
    (∃ us, lib.referenced t = .ok us) ↔ lib.Resolves t.link t.decl.refs := by
  constructor
  · rintro ⟨us, hus⟩
    exact resolves_of_resolveAll hus
  · intro h
    obtain ⟨us, hus, -⟩ := h.resolveAll []
    exact ⟨us, hus⟩

theorem mem_referenced {t : Located} {us : List TypeId} (h : lib.referenced t = .ok us) :
    u ∈ us ↔ lib.Means t.link t.decl.refs u := by
  obtain ⟨us', hus', hmem⟩ := (resolves_of_resolveAll h).resolveAll []
  rw [referenced, hus'] at h
  cases h
  simp [hmem]

/-- What is meant in an entry is declared, by an entry it leads to. -/
theorem Closed.declares_of_means (h : lib.Closed) (hunit : unit ∈ Keyed.keys lib)
    (hmeans : lib.Means (.held unit) refs u) :
    (∃ d, lib.Declares u d) ∧ lib.Reaches unit u.unit := by
  obtain ⟨ref, -, t, hresolve, rfl⟩ := hmeans
  rw [resolveRef] at hresolve
  split at hresolve
  · cases hresolve
  · cases hfound : lib.resolve (.held unit) ref.fullName with
    | error fault =>
        rw [hfound] at hresolve
        cases hresolve
    | ok found =>
        rw [hfound] at hresolve
        cases hresolve
        obtain ⟨hdeclares, hreaches⟩ := h.declares_of_resolve hunit hfound
        exact ⟨⟨_, hdeclares⟩, hreaches⟩

theorem Declares.mem_keys (h : lib.Declares t d) : t.unit ∈ Keyed.keys lib := by
  obtain ⟨m, hm, -⟩ := h
  obtain ⟨links, hget⟩ := exists_get?_of_manifest? hm
  exact Keyed.mem_keys_of_get? hget

/-- What a declared type refers to is declared. -/
theorem Closed.declares_of_refers (h : lib.Closed) (hrefers : lib.Refers t u) :
    ∃ d, lib.Declares u d := by
  obtain ⟨d, us, hdeclares, hreferenced, hu⟩ := hrefers
  exact (h.declares_of_means hdeclares.mem_keys ((mem_referenced hreferenced).mp hu)).1

end StubTree.Library
