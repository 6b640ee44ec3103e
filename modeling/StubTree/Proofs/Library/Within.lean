import StubTree.Proofs.Stub.Meeting

/-! # Libraries within libraries

A library within another one has fewer binaries, each of them as it is in the other one. Where its
links lead to its own entries, a name means the same in both: a search goes through the same
binaries in the same order, and what else the larger library has only gives it more rounds than it
needs.
-/

namespace StubTree

namespace Library

variable {lib lib' : Library} {seen : List String} {queue : List Link} {fuel fuel' : Nat}
  {unit fullName : String} {t u : TypeId}

/-- Every binary of the first library is in the second one, as it is. -/
def Within (lib lib' : Library) : Prop :=
  ∀ name ∈ Keyed.keys lib, Keyed.get? name lib' = Keyed.get? name lib

/-! ## The rounds of a search -/

/-- The links of the binaries that a search has not seen. -/
def linksLeft (lib : Library) (seen : List String) : Nat :=
  total (lib.map fun (name, b) => if name ∈ seen then 0 else b.links.length)

theorem linksLeft_nil (lib : Library) : lib.linksLeft [] = lib.linkCount := by
  simp [linksLeft, linkCount]

theorem linksLeft_cons_le (lib : Library) (name : String) (seen : List String) :
    lib.linksLeft (name :: seen) ≤ lib.linksLeft seen := by
  induction lib with
  | nil => exact Nat.le_refl _
  | cons entry rest ih =>
      simp only [linksLeft, List.map_cons, total_cons, List.mem_cons] at ih ⊢
      split
      next => omega
      next hnone =>
        rw [if_neg fun hseen => hnone (Or.inr hseen)]
        omega

/-- A binary that is seen for the first time has its links put into the queue, and never again. -/
theorem length_linksOf_add_linksLeft_le (lib : Library) {link : Link} (hnew : link.name ∉ seen) :
    (lib.linksOf link).length + lib.linksLeft (link.name :: seen) ≤ lib.linksLeft seen := by
  cases link with
  | apart m =>
      rw [linksOf, List.length_nil, Nat.zero_add]
      exact linksLeft_cons_le lib _ _
  | held name =>
      induction lib with
      | nil => exact Nat.le_refl _
      | cons entry rest ih =>
          have hrest := linksLeft_cons_le rest name seen
          simp only [Link.name, linksOf, linksLeft, List.map_cons, total_cons, List.mem_cons,
            Keyed.get?_cons] at hnew hrest ih ⊢
          by_cases heq : entry.1 = name
          · subst heq
            simp only [if_true, true_or, if_neg hnew, Option.map_some, Option.getD_some]
            omega
          · simp only [heq, false_or, if_false]
            omega

theorem Within.visit (h : lib.Within lib') (hclosed : lib.Closed)
    (hqueue : ∀ link ∈ queue, ∃ name ∈ Keyed.keys lib, link = .held name)
    (hfuel : queue.length + lib.linksLeft seen ≤ fuel)
    (hfuel' : queue.length + lib'.linksLeft seen ≤ fuel') :
    lib'.visit fuel' seen queue = lib.visit fuel seen queue := by
  induction fuel generalizing fuel' seen queue with
  | zero =>
      obtain rfl : queue = [] := List.length_eq_zero_iff.mp (by omega)
      cases fuel' <;> rfl
  | succ fuel ih =>
      cases queue with
      | nil => cases fuel' <;> rfl
      | cons link rest =>
          rw [List.length_cons] at hfuel hfuel'
          obtain ⟨fuel', rfl⟩ : ∃ more, fuel' = more + 1 := ⟨fuel' - 1, by omega⟩
          have hrest : ∀ other ∈ rest, ∃ name ∈ Keyed.keys lib, other = .held name :=
            fun other hother => hqueue other (List.mem_cons_of_mem _ hother)
          rw [Library.visit, Library.visit]
          split
          next => exact ih hrest (by omega) (by omega)
          next hnew =>
            obtain ⟨name, hname, rfl⟩ := hqueue link List.mem_cons_self
            have hlinks : lib'.linksOf (.held name) = lib.linksOf (.held name) := by
              rw [linksOf, linksOf, h name hname]
            have hleft := length_linksOf_add_linksLeft_le lib hnew
            have hleft' := length_linksOf_add_linksLeft_le lib' hnew
            rw [hlinks] at hleft' ⊢
            congr 1
            apply ih
            · intro other hother
              rcases List.mem_append.mp hother with hother | hother
              · exact hrest other hother
              · exact hclosed.exists_of_mem_linksOf hname hother
            · rw [List.length_append]
              omega
            · rw [List.length_append]
              omega

namespace Within

section

variable (h : lib.Within lib') (hunit : unit ∈ Keyed.keys lib)

include h hunit

theorem manifest? : lib'.manifest? (.held unit) = lib.manifest? (.held unit) := by
  rw [Library.manifest?, Library.manifest?, h unit hunit]

theorem exported : lib'.exported unit = lib.exported unit := by
  rw [Library.exported, Library.exported, h.manifest? hunit]

variable (hclosed : lib.Closed)

include hclosed

theorem searchOrder : lib'.searchOrder (.held unit) = lib.searchOrder (.held unit) := by
  apply h.visit hclosed
  · intro link hlink
    exact ⟨unit, hunit, List.mem_singleton.mp hlink⟩
  · rw [linksLeft_nil, List.length_singleton]
    omega
  · rw [linksLeft_nil, List.length_singleton]
    omega

theorem resolve (fullName : String) :
    lib'.resolve (.held unit) fullName = lib.resolve (.held unit) fullName := by
  have hdeclared : (lib.searchOrder (.held unit)).findSome? (lib'.declared? fullName) =
      (lib.searchOrder (.held unit)).findSome? (lib.declared? fullName) := by
    rw [← List.head?_filterMap, ← List.head?_filterMap]
    congr 1
    apply List.filterMap_congr
    intro link hlink
    obtain ⟨name, hname, rfl, -⟩ := hclosed.exists_reached_of_mem_searchOrder hunit hlink
    rw [declared?, declared?, h.manifest? hname]
  rw [Library.resolve, Library.resolve, h.searchOrder hunit hclosed, hdeclared]

theorem resolveRef (ref : TypeRef) :
    lib'.resolveRef (.held unit) ref = lib.resolveRef (.held unit) ref := by
  rw [Library.resolveRef, Library.resolveRef, h.resolve hunit hclosed]

theorem resolveAll (found : List TypeId) (refs : List TypeRef) :
    lib'.resolveAll (.held unit) found refs = lib.resolveAll (.held unit) found refs := by
  induction refs generalizing found with
  | nil => rfl
  | cons ref rest ih => simp only [Library.resolveAll, h.resolveRef hunit hclosed, ih]

end

theorem declares_iff (h : lib.Within lib') (ht : t.unit ∈ Keyed.keys lib) {d : TypeDecl} :
    lib'.Declares t d ↔ lib.Declares t d := by
  rw [Declares, Declares, h.manifest? ht]

theorem refers_iff (h : lib.Within lib') (hclosed : lib.Closed) (ht : t.unit ∈ Keyed.keys lib) :
    lib'.Refers t u ↔ lib.Refers t u := by
  simp only [Refers, h.declares_iff ht, referenced, h.resolveAll ht hclosed]

/-- What is reached from types of the smaller library is reached in it. -/
theorem closureWithin_iff (h : lib.Within lib') (hclosed : lib.Closed)
    {inside seed : TypeId → Prop} (hseed : ∀ t, seed t → t.unit ∈ Keyed.keys lib) :
    lib'.ClosureWithin inside seed t ↔ lib.ClosureWithin inside seed t := by
  constructor
  · intro hreached
    suffices hboth : lib.ClosureWithin inside seed t ∧ t.unit ∈ Keyed.keys lib from hboth.1
    induction hreached with
    | seed ht hinside => exact ⟨.seed ht hinside, hseed _ ht⟩
    | refers _ hrefers hinside ih =>
        rw [h.refers_iff hclosed ih.2] at hrefers
        obtain ⟨d, hdeclares⟩ := hclosed.declares_of_refers hrefers
        exact ⟨.refers ih.1 hrefers hinside, hdeclares.mem_keys⟩
  · intro hreached
    suffices hboth : lib'.ClosureWithin inside seed t ∧ t.unit ∈ Keyed.keys lib from hboth.1
    induction hreached with
    | seed ht hinside => exact ⟨.seed ht hinside, hseed _ ht⟩
    | refers _ hrefers hinside ih =>
        obtain ⟨d, hdeclares⟩ := hclosed.declares_of_refers hrefers
        exact ⟨.refers ih.1 ((h.refers_iff hclosed ih.2).mpr hrefers) hinside, hdeclares.mem_keys⟩

theorem closure_iff (h : lib.Within lib') (hclosed : lib.Closed) {seed : TypeId → Prop}
    (hseed : ∀ t, seed t → t.unit ∈ Keyed.keys lib) :
    lib'.Closure seed t ↔ lib.Closure seed t := by
  have hwithin : lib'.ClosureWithin (fun _ => True) seed t ↔
      lib.ClosureWithin (fun _ => True) seed t := h.closureWithin_iff hclosed hseed
  constructor
  · exact fun ht => (hwithin.mp (.of_closure (fun _ => trivial) ht)).closure
  · exact fun ht => (hwithin.mpr (.of_closure (fun _ => trivial) ht)).closure

end Within

end Library

/-! ## Stubs -/

namespace Stub

variable {lib lib' : Library} {types : List TypeId} (h : lib.Within lib') (hclosed : lib.Closed)

include h hclosed

theorem meet_within {unit : String} (hunit : unit ∈ Keyed.keys lib) (refs : List TypeRef) :
    meet lib' unit refs = meet lib unit refs := by
  induction refs with
  | nil => rfl
  | cons ref rest ih => simp only [meet, h.resolveRef hunit hclosed, ih]

theorem meetAll_within (htypes : ∀ t ∈ types, t.unit ∈ Keyed.keys lib) :
    meetAll lib' types = meetAll lib types := by
  induction types with
  | nil => rfl
  | cons t rest ih =>
      have ht := htypes t List.mem_cons_self
      have hrest := ih fun u hu => htypes u (List.mem_cons_of_mem _ hu)
      simp only [meetAll, Library.decl?, h.manifest? ht, meet_within h hclosed ht, hrest]

/-- The stub of types of the smaller library is the same in both. -/
theorem render_within (htypes : ∀ t ∈ types, t.unit ∈ Keyed.keys lib) (space : Namespace) :
    render lib' space types = render lib space types := by
  have hdeclarations : declarations lib' types = declarations lib types := by
    apply List.filterMap_congr
    intro t ht
    have hmeaning : meaningIn lib' t.unit = meaningIn lib t.unit := by
      funext ref
      rw [meaningIn, meaningIn, h.resolveRef (htypes t ht) hclosed]
    rw [Library.decl?, Library.decl?, h.manifest? (htypes t ht), hmeaning]
  rw [render, render, meetAll_within h hclosed htypes, hdeclarations]

end Stub

end StubTree
