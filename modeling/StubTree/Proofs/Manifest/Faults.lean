import StubTree.Proofs.Document.Literal
import StubTree.Proofs.Loader.Passage

/-! # Faults of manifests

All that keeps a value from being a manifest is a fault of the manifest, unless a number in it
cannot be shown.
-/

namespace StubTree

namespace Loader

variable {tolerated : Fault → Prop} {α β : Type}

theorem passes_mapM {f : α → Except Fault β} {items : List α}
    (h : ∀ item ∈ items, Passes tolerated (f item)) : Passes tolerated (items.mapM f) := by
  induction items with
  | nil => exact passes_ok []
  | cons item rest ih =>
      obtain ⟨hfirst, hrest⟩ := List.forall_mem_cons.mp h
      rw [List.mapM_cons]
      exact hfirst.bind fun _ _ => (ih hrest).bind fun _ _ => passes_ok _

theorem passes_foldlM {f : β → α → Except Fault β} {items : List α} (acc : β)
    (h : ∀ acc, ∀ item ∈ items, Passes tolerated (f acc item)) :
    Passes tolerated (items.foldlM f acc) := by
  induction items generalizing acc with
  | nil => exact passes_ok acc
  | cons item rest ih =>
      rw [List.foldlM_cons]
      exact (h acc item List.mem_cons_self).bind fun next _ =>
        ih next fun acc other hother => h acc other (List.mem_cons_of_mem _ hother)

end Loader

/-- A fault of the manifest, or a number that cannot be written if something stands against it. -/
def Fault.IsManifest (against : Prop) : Fault → Prop
  | .manifest _ => True
  | .unwritableNumber => against
  | _ => False

namespace Schema

open Loader (Passes passes_ok passes_error passes_mapM)
open Readable (shape lookup?)

variable {α : Type} [Readable α] {against : Prop} {fine : α → Prop} {v : α} {place : Place}
  {key : String} {entries : Entries α}

/-- Entries whose keys and values can be shown. -/
def Fine (fine : α → Prop) (entries : Entries α) : Prop :=
  ∀ entry ∈ entries, fine entry.1 ∧ fine entry.2

theorem passes_refuse {β : Type} (fault : ManifestFault) :
    Passes (Fault.IsManifest against) (refuse fault : Except Fault β) := passes_error trivial

theorem Fine.lookup? (h : Fine fine entries) (hv : lookup? key entries = some v) : fine v := by
  induction entries with
  | nil => cases hv
  | cons entry rest ih =>
      obtain ⟨hentry, hrest⟩ := List.forall_mem_cons.mp h
      rw [Readable.lookup?] at hv
      split at hv
      · split at hv
        · cases hv
          exact hentry.2
        · exact ih hrest hv
      · exact ih hrest hv

section

variable (h : Showable against fine)
include h

/-! ## Values -/

theorem passes_shownOf (hv : fine v) : Passes (Fault.IsManifest against) (shownOf v) := by
  rw [shownOf]
  split
  next => exact passes_ok _
  next hnone => exact passes_error ((h.shown hv).resolve_left (by simp [hnone]))

theorem passes_literalOf (hv : fine v) : Passes (Fault.IsManifest against) (literalOf v) := by
  rw [literalOf]
  split
  next => exact passes_ok _
  next hnone => exact passes_error ((h.literal hv).resolve_left (by simp [hnone]))

theorem passes_refOf (hv : fine v) : Passes (Fault.IsManifest against) (refOf v) := by
  rw [refOf]
  split
  next s _ =>
    cases TypeRef.read s with
    | error rest => exact passes_error trivial
    | ok ref => exact passes_ok ref
  next => exact (passes_literalOf h hv).bind fun _ _ => passes_refuse _

omit h in
theorem passes_entriesOf (place : Place) (v : α) :
    Passes (Fault.IsManifest against) (entriesOf place v) := by
  rw [entriesOf]
  split
  · exact passes_ok _
  · exact passes_refuse _

theorem fine_entriesOf (hv : fine v) (hentries : entriesOf place v = .ok entries) :
    Fine fine entries := by
  rw [entriesOf] at hentries
  split at hentries
  next hshape =>
    cases hentries
    exact h.of_mapping hv hshape
  · cases hentries

omit h in
theorem passes_itemsOf (place : Place) (key : String) (entries : Entries α) :
    Passes (Fault.IsManifest against) (itemsOf place key entries) := by
  rw [itemsOf]
  split
  · exact passes_ok _
  · exact passes_ok _
  · exact passes_ok _
  · exact passes_refuse _

theorem fine_itemsOf (hentries : Fine fine entries) {items : List α}
    (hitems : itemsOf place key entries = .ok items) : ∀ item ∈ items, fine item := by
  rw [itemsOf] at hitems
  split at hitems
  · cases hitems
    exact fun _ hitem => by cases hitem
  · cases hitems
    exact fun _ hitem => by cases hitem
  next items' hlist =>
    cases hitems
    obtain ⟨w, hw, hshape⟩ := Option.map_eq_some_iff.mp hlist
    have hparts := h.parts (hentries.lookup? hw)
    rw [hshape] at hparts
    exact hparts
  · cases hitems

omit h in
theorem passes_required (place : Place) (key : String) (entries : Entries α) :
    Passes (Fault.IsManifest against) (required place key entries) := by
  rw [required]
  split
  · exact passes_refuse _
  · split
    · exact passes_refuse _
    · exact passes_refuse _
    · exact passes_ok _

omit h in
theorem fine_required (hentries : Fine fine entries) (hv : required place key entries = .ok v) :
    fine v := by
  rw [required] at hv
  split at hv
  · cases hv
  next w hw =>
    split at hv
    · cases hv
    · cases hv
    · cases hv
      exact hentries.lookup? hw

omit h in
theorem passes_nameOf (place : Place) (key : String) (v : α) :
    Passes (Fault.IsManifest against) (nameOf place key v) := by
  rw [nameOf]
  split
  · dsimp only
    split
    · exact passes_refuse _
    · exact passes_ok _
  · exact passes_refuse _

omit h in
theorem passes_requiredName (place : Place) (key : String) (entries : Entries α) :
    Passes (Fault.IsManifest against) (requiredName place key entries) :=
  (passes_required place key entries).bind fun _ _ => passes_nameOf _ _ _

omit h in
theorem passes_flagOf (place : Place) (key : String) (entries : Entries α) :
    Passes (Fault.IsManifest against) (flagOf place key entries) := by
  rw [flagOf]
  split
  · exact passes_ok _
  · exact passes_ok _
  · exact passes_refuse _

theorem passes_optionalRef (hentries : Fine fine entries) (key : String) :
    Passes (Fault.IsManifest against) (optionalRef key entries) := by
  rw [optionalRef]
  cases hpresent : present? key entries with
  | none => exact passes_ok none
  | some w =>
      have hw := (Option.filter_eq_some_iff.mp hpresent).1
      exact (passes_refOf h (hentries.lookup? hw)).map some

theorem passes_requiredRef (hentries : Fine fine entries) (place : Place) (key : String) :
    Passes (Fault.IsManifest against) (requiredRef place key entries) :=
  (passes_required place key entries).bind fun _ hw =>
    passes_refOf h (fine_required hentries hw)

/-! ## Members -/

/-- The items of a list are read one after the other, and then what follows. -/
theorem passes_items {β γ : Type} (hentries : Fine fine entries) {f : α → Except Fault β}
    {next : List β → Except Fault γ}
    (hf : ∀ item, fine item → Passes (Fault.IsManifest against) (f item))
    (hnext : ∀ read, Passes (Fault.IsManifest against) (next read)) :
    Passes (Fault.IsManifest against)
      (itemsOf place key entries >>= fun items => items.mapM f >>= next) :=
  (passes_itemsOf place key entries).bind fun _ hitems =>
    (passes_mapM fun item hitem => hf item (fine_itemsOf h hentries hitems item hitem)).bind
      fun read _ => hnext read

theorem passes_parameterOf (place : Place) (hv : fine v) :
    Passes (Fault.IsManifest against) (parameterOf place v) :=
  (passes_entriesOf place v).bind fun _ hentries =>
    (passes_requiredName place "name" _).bind fun _ _ =>
      (passes_requiredRef h (fine_entriesOf h hv hentries) place "type").bind fun _ _ => passes_ok _

theorem passes_fieldOf (place : Place) (hv : fine v) :
    Passes (Fault.IsManifest against) (fieldOf place v) :=
  (passes_entriesOf place v).bind fun _ hentries =>
    (passes_requiredName place "name" _).bind fun _ _ =>
      (passes_requiredRef h (fine_entriesOf h hv hentries) place "type").bind fun _ _ =>
        (passes_flagOf place "static" _).bind fun _ _ => passes_ok _

theorem passes_propertyOf (place : Place) (hv : fine v) :
    Passes (Fault.IsManifest against) (propertyOf place v) :=
  (passes_entriesOf place v).bind fun _ hentries =>
    (passes_requiredName place "name" _).bind fun _ _ =>
      (passes_requiredRef h (fine_entriesOf h hv hentries) place "type").bind fun _ _ =>
        (passes_flagOf place "static" _).bind fun _ _ =>
          (passes_flagOf place "readonly" _).bind fun _ _ => passes_ok _

theorem passes_methodNamed (owner : Place) (name : String) (hentries : Fine fine entries) :
    Passes (Fault.IsManifest against) (methodNamed owner name entries) := by
  refine passes_items h hentries (fun _ => passes_parameterOf h _) fun parameters => ?_
  refine (passes_optionalRef h hentries "returns").bind fun _ _ => ?_
  exact (passes_flagOf _ "static" entries).bind fun _ _ => passes_ok _

theorem passes_methodOf (place : Place) (hv : fine v) :
    Passes (Fault.IsManifest against) (methodOf place v) :=
  (passes_entriesOf place v).bind fun _ hentries =>
    (passes_requiredName place "name" _).bind fun _ _ =>
      passes_methodNamed h place _ (fine_entriesOf h hv hentries)

theorem passes_constructorOf (place : Place) (hv : fine v) :
    Passes (Fault.IsManifest against) (constructorOf place v) :=
  (passes_entriesOf place v).bind fun _ hentries =>
    passes_methodNamed h place _ (fine_entriesOf h hv hentries)

theorem passes_invokeOf (place : Place) (hentries : Fine fine entries) :
    Passes (Fault.IsManifest against) (invokeOf place entries) := by
  rw [invokeOf]
  split
  · exact passes_methodNamed h place _ (fun _ hentry => by cases hentry)
  next w hw =>
    have hfine := hentries.lookup? (Option.filter_eq_some_iff.mp hw).1
    exact (passes_entriesOf place w).bind fun _ hcall =>
      passes_methodNamed h place _ (fine_entriesOf h hfine hcall)

/-! ## Types -/

omit h in
theorem passes_namespaceOf (place : Place) (v : α) :
    Passes (Fault.IsManifest against) (namespaceOf place v) := by
  rw [namespaceOf]
  split
  · exact passes_ok _
  · refine (passes_nameOf place "namespace" v).bind fun dotted _ => ?_
    split
    · exact passes_refuse _
    · exact passes_ok _

omit h in
theorem passes_placedName (place : Place) (entries : Entries α) :
    Passes (Fault.IsManifest against) (placedName place entries) := by
  rw [placedName]
  refine (passes_requiredName place "name" entries).bind fun _ _ => ?_
  split
  · exact (passes_namespaceOf place _).bind fun _ _ => passes_ok _
  · exact passes_ok _

theorem passes_kindOf (place : Place) (hentries : Fine fine entries) :
    Passes (Fault.IsManifest against) (kindOf place entries) := by
  rw [kindOf]
  split
  · exact passes_ok _
  next w hw =>
    split
    · exact passes_ok _
    · exact (passes_shownOf h (hentries.lookup? hw)).bind fun _ _ => passes_refuse _

theorem passes_visibilityOf (place : Place) (hentries : Fine fine entries) :
    Passes (Fault.IsManifest against) (visibilityOf place entries) := by
  rw [visibilityOf]
  split
  · exact passes_ok _
  next w hw =>
    split
    · exact passes_ok _
    · exact (passes_shownOf h (hentries.lookup? hw)).bind fun _ _ => passes_refuse _

theorem passes_typeOf (path : Path) (index : Nat) (hv : fine v) :
    Passes (Fault.IsManifest against) (typeOf path index v) := by
  refine (passes_entriesOf _ v).bind fun entries hentries => ?_
  have hfine := fine_entriesOf h hv hentries
  refine (passes_placedName _ entries).bind fun placed _ => ?_
  refine (passes_kindOf h _ hfine).bind fun kind _ => ?_
  refine (passes_visibilityOf h _ hfine).bind fun visibility _ => ?_
  refine passes_items h hfine (fun _ => passes_fieldOf h _) fun fields => ?_
  refine passes_items h hfine (fun _ => passes_propertyOf h _) fun properties => ?_
  refine passes_items h hfine (fun _ => passes_methodOf h _) fun methods => ?_
  refine passes_items h hfine (fun _ => passes_constructorOf h _) fun constructors => ?_
  -- What follows the call of a delegate is the same for all kinds of types.
  extract_lets decided
  have hdecided : ∀ invoke, Passes (Fault.IsManifest against) (decided invoke) := by
    intro invoke
    refine passes_items h hfine (fun _ _ => passes_nameOf _ _ _) fun values => ?_
    extract_lets finished
    have hfinished : ∀ checked, Passes (Fault.IsManifest against) (finished checked) := fun _ =>
      (passes_optionalRef h hfine "base").bind fun _ _ =>
        passes_items h hfine (fun _ => passes_refOf h) fun _ => passes_ok _
    split
    · exact (passes_refuse _).bind fun checked _ => hfinished checked
    · exact hfinished ()
  split
  · exact ((passes_invokeOf h _ hfine).map some).bind fun invoke _ => hdecided invoke
  · exact hdecided none

theorem passes_typesFrom (path : Path) (seen : List String) (index : Nat) {vs : List α}
    (hvs : ∀ v ∈ vs, fine v) :
    Passes (Fault.IsManifest against) (typesFrom path seen index vs) := by
  induction vs generalizing seen index with
  | nil => exact passes_ok []
  | cons v rest ih =>
      obtain ⟨hv, hrest⟩ := List.forall_mem_cons.mp hvs
      refine (passes_typeOf h path index hv).bind fun t _ => ?_
      split
      · exact (passes_refuse _).bind fun _ _ => (ih _ _ hrest).bind fun _ _ => passes_ok _
      · exact (ih _ _ hrest).bind fun _ _ => passes_ok _

end

end Schema

/-- A value that is no manifest has a fault of the manifest, or a number that cannot be written. -/
theorem Manifest.passes_ofValue {α : Type} [Readable α] {against : Prop} {fine : α → Prop}
    (h : Showable against fine) (path : Path) {v : α} (hv : fine v) :
    Loader.Passes (Fault.IsManifest against) (ofValue path v) := by
  refine (Schema.passes_entriesOf _ v).bind fun entries hentries => ?_
  have hfine := Schema.fine_entriesOf h hv hentries
  refine (Schema.passes_requiredName _ "name" entries).bind fun name _ => ?_
  extract_lets versioned
  have hversioned : ∀ version, Loader.Passes (Fault.IsManifest against) (versioned version) := by
    intro version
    refine Schema.passes_items h hfine (fun _ _ => Schema.passes_nameOf _ _ _) fun references => ?_
    refine (Schema.passes_itemsOf _ "types" entries).bind fun declared hdeclared => ?_
    exact (Schema.passes_typesFrom h path [] 0 (Schema.fine_itemsOf h hfine hdeclared)).bind
      fun _ _ => Loader.passes_ok _
  split
  · exact hversioned _
  next w hw =>
    exact (Schema.passes_shownOf h (hfine.lookup? hw)).bind fun version _ => hversioned version

end StubTree
