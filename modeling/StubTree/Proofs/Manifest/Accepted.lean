import StubTree.Document.Text
import StubTree.Proofs.Manifest.Grammar
import StubTree.Proofs.Manifest.Reading
import StubTree.Proofs.Manifest.TypeRef
import StubTree.Proofs.Text.Pieces

/-! # Manifests that are accepted

A value is read as a manifest if and only if the grammar has it. Each step of the reading is
compared with one clause of the grammar; the order of the steps decides the fault, and not whether
there is one.
-/

namespace StubTree

theorem Namespace.qualify_ofFullName (fullName : String) :
    (ofFullName fullName).1.qualify (ofFullName fullName).2 = fullName := by
  rw [ofFullName]
  split
  next before after hcut =>
    rw [qualify, ← String.toList_inj, String.toList_append, String.toList_append,
      String.toList_ofList, String.toList_ofList, ← Text.append_of_cutLast? hcut]
    simp
  next => rfl

namespace Schema

open Grammar
open Readable (shape lookup?)

variable {α : Type} [Readable α] {place : Place} {key : String} {entries : Entries α} {v : α}

/-! ## Values -/

theorem refuse_eq_ok {β : Type} {fault : ManifestFault} {b : β} :
    refuse fault = .ok b ↔ False := by
  simp [refuse]

theorem exists_refuse {β : Type} {fault : ManifestFault} :
    (∃ b : β, refuse fault = .ok b) ↔ False := by
  simp only [refuse_eq_ok, exists_false]

theorem text?_eq_some {s : String} : text? v = some s ↔ shape v = .text s := by
  rw [text?]
  split <;> simp_all

theorem isNull_eq_false (h : shape v = .null → False) : isNull v = false := by
  rw [isNull]
  split
  next hnull => exact absurd hnull h
  next => rfl

theorem isNull_of_text? {s : String} (h : text? v = some s) : isNull v = false := by
  rw [isNull, text?_eq_some.mp h]

theorem entriesOf_eq_ok : entriesOf place v = .ok entries ↔ entries ∈ entries? v := by
  rw [entriesOf, entries?]
  split <;> simp_all [refuse]

theorem nameOf_eq_ok {name : String} : nameOf place key v = .ok name ↔
    ∃ s ∈ text? v, Text.strip s ≠ "" ∧ Text.strip s = name := by
  cases hshape : shape v with
  | text s =>
      by_cases hempty : Text.strip s = "" <;> simp [nameOf, text?, hshape, hempty, refuse]
  | _ => simp [nameOf, text?, hshape, refuse]

theorem strip_ne_empty {s : String} :
    Text.strip s ≠ "" ↔ s.toList.any fun c => !Text.isBlank c := by
  simp [Text.strip_eq_empty]

theorem exists_nameOf : (∃ name, nameOf place key v = .ok name) ↔ IsName v := by
  simp only [nameOf_eq_ok, strip_ne_empty]
  constructor
  · rintro ⟨name, s, hs, hname, -⟩
    exact ⟨s, hs, hname⟩
  · rintro ⟨s, hs, hname⟩
    exact ⟨_, s, hs, hname, rfl⟩

theorem exists_read {s : String} : (∃ ref, TypeRef.read s = .ok ref) ↔ IsReference s := by
  rw [TypeRef.read, IsReference]
  dsimp only
  split
  next hnone => simp [hnone]
  next hsome =>
    split
    next hplain =>
      have hsuffix : ¬ "[]".toList <:+ Text.trim s.toList := by
        rintro ⟨before, hbefore⟩
        rw [TypeRef.beforeBrackets?_eq_some.mpr hbefore.symm] at hplain
        cases hplain
      exact ⟨fun _ => ⟨hsome, fun h => absurd h hsuffix⟩, fun _ => ⟨_, rfl⟩⟩
    next before hlisted =>
      have heq := TypeRef.beforeBrackets?_eq_some.mp hlisted
      have hsuffix : "[]".toList <:+ Text.trim s.toList := ⟨before, heq.symm⟩
      have htake : (Text.trim s.toList).take ((Text.trim s.toList).length - 2) = before := by
        rw [heq, List.length_append]
        exact List.take_left
      have hname : ∀ word : String, String.ofList (Text.trim before) = word ↔
          Text.trim before = word.toList := by
        intro word
        rw [← String.ofList_inj, String.ofList_toList]
      rw [htake]
      simp only [beq_iff_eq, Bool.or_eq_true, TypeRef.voidName, hname]
      split
      next hbad =>
        constructor
        · rintro ⟨_, h⟩
          cases h
        · rintro ⟨-, h⟩
          exact absurd hbad (not_or.mpr (h hsuffix))
      next hgood => exact ⟨fun _ => ⟨hsome, fun _ => not_or.mp hgood⟩, fun _ => ⟨_, rfl⟩⟩

theorem exists_refOf : (∃ ref, refOf v = .ok ref) ↔ IsRef v := by
  cases hshape : shape v with
  | text s => simp [refOf, IsRef, text?, hshape, exists_mapError_eq_ok, exists_read]
  | _ => simp only [refOf, IsRef, text?, hshape, exists_bind_eq_ok_iff, exists_refuse]; simp

/-! ## Values under keys -/

theorem required_eq_ok {w : α} : required place key entries = .ok w ↔
    w ∈ lookup? key entries ∧ isNull w = false ∧ text? w ≠ some "" := by
  rw [required]
  cases lookup? key entries with
  | none => simp [refuse]
  | some v =>
      dsimp only
      split
      next hnull =>
        refine ⟨fun h => (by cases h), ?_⟩
        rintro ⟨⟨⟩, hnone, -⟩
        simp [isNull, hnull] at hnone
      next hempty =>
        refine ⟨fun h => (by cases h), ?_⟩
        rintro ⟨⟨⟩, -, hnone⟩
        exact absurd (text?_eq_some.mpr hempty) hnone
      next hnull hempty =>
        constructor
        · intro h
          cases h
          exact ⟨rfl, isNull_eq_false hnull, fun h => hempty (text?_eq_some.mp h)⟩
        · rintro ⟨⟨⟩, -⟩
          rfl

/-- A text that is not empty can be required. -/
theorem exists_required {P : α → Prop} (hP : ∀ w, P w → ∃ s ∈ text? w, s ≠ "") :
    (∃ w, required place key entries = .ok w ∧ P w) ↔ Has P key entries := by
  simp only [required_eq_ok, and_assoc]
  refine exists_congr fun w => and_congr_right fun _ => ⟨fun h => h.2.2, fun h => ?_⟩
  obtain ⟨s, hs, hne⟩ := hP w h
  refine ⟨isNull_of_text? hs, ?_, h⟩
  rintro hempty
  rw [hs] at hempty
  exact hne (Option.some.inj hempty)

theorem exists_requiredName :
    (∃ name, requiredName place key entries = .ok name) ↔ Has IsName key entries := by
  simp only [requiredName, exists_bind_eq_ok_iff, exists_nameOf]
  refine exists_required ?_
  rintro w ⟨s, hs, hname⟩
  refine ⟨s, hs, ?_⟩
  rintro rfl
  cases hname

theorem exists_requiredRef :
    (∃ ref, requiredRef place key entries = .ok ref) ↔ Has IsRef key entries := by
  simp only [requiredRef, exists_bind_eq_ok_iff, exists_refOf]
  refine exists_required ?_
  rintro w ⟨s, hs, hne, -⟩
  refine ⟨s, hs, ?_⟩
  rintro rfl
  exact hne rfl

theorem exists_flagOf : (∃ b, flagOf place key entries = .ok b) ↔ May IsFlag key entries := by
  rw [flagOf, May]
  cases hlookup : lookup? key entries with
  | none => simp
  | some v => cases hshape : shape v <;> simp [hshape, IsFlag, bool?, refuse]

theorem exists_shownOf : (∃ s, shownOf v = .ok s) ↔ IsWritable v := by
  rw [shownOf, IsWritable]
  split <;> simp [*]

theorem exists_optionalRef :
    (∃ ref, optionalRef key entries = .ok ref) ↔ May (OrNull IsRef) key entries := by
  rw [optionalRef, present?, May]
  cases hlookup : lookup? key entries with
  | none => simp [exists_pure_eq_ok]
  | some v =>
      cases hshape : shape v with
      | null => simp [hshape, OrNull, isNull, exists_pure_eq_ok, Option.filter]
      | _ => simp [hshape, OrNull, isNull, Option.filter, exists_map_eq_ok, exists_refOf]

theorem exists_itemsOf {P : α → Prop} :
    (∃ items, itemsOf place key entries = .ok items ∧ ∀ w ∈ items, P w) ↔
      May (Items P) key entries := by
  rw [May, itemsOf]
  cases hlookup : lookup? key entries with
  | none => simp
  | some v => cases hshape : shape v <;> simp [hshape, Items, OrNull, isNull, items?, refuse]

/-- As before, where more is asked of the items than of each of them. -/
theorem exists_distinctItemsOf {P : α → Prop} :
    (∃ items, (itemsOf place key entries = .ok items ∧ ∀ w ∈ items, P w) ∧
      items.Pairwise fun w w' => fullName? w ≠ fullName? w') ↔
      May (Items P) key entries ∧ May Distinct key entries := by
  simp only [May, itemsOf]
  cases hlookup : lookup? key entries with
  | none => simp
  | some v =>
      cases hshape : shape v <;>
        simp [hshape, Items, OrNull, Distinct, isNull, items?, refuse]

/-! ## Members -/

theorem exists_parameterOf : (∃ p, parameterOf place v = .ok p) ↔ Mapping ParameterEntries v := by
  simp only [parameterOf, exists_bind_eq_ok_iff, entriesOf_eq_ok]
  refine exists_congr fun entries => and_congr_right fun _ => ?_
  simp only [exists_and_right, exists_requiredName, exists_requiredRef, exists_pure_eq_ok, and_true]
  rfl

theorem exists_fieldOf : (∃ f, fieldOf place v = .ok f) ↔ Mapping FieldEntries v := by
  simp only [fieldOf, exists_bind_eq_ok_iff, entriesOf_eq_ok]
  refine exists_congr fun entries => and_congr_right fun _ => ?_
  simp only [exists_and_right, exists_requiredName, exists_requiredRef, exists_flagOf,
    exists_pure_eq_ok, and_true]
  rfl

theorem exists_propertyOf : (∃ p, propertyOf place v = .ok p) ↔ Mapping PropertyEntries v := by
  simp only [propertyOf, exists_bind_eq_ok_iff, entriesOf_eq_ok]
  refine exists_congr fun entries => and_congr_right fun _ => ?_
  simp only [exists_and_right, exists_requiredName, exists_requiredRef, exists_flagOf,
    exists_pure_eq_ok, and_true, PropertyEntries, FieldEntries, and_assoc]

theorem exists_methodNamed {name : String} :
    (∃ m, methodNamed place name entries = .ok m) ↔ Signature ParameterEntries entries := by
  simp only [methodNamed, exists_bind_eq_ok_iff, exists_mapM_eq_ok_iff, exists_parameterOf,
    exists_and_right, ← and_assoc, exists_itemsOf, exists_optionalRef, exists_flagOf,
    exists_pure_eq_ok, and_true]
  rw [Signature, and_assoc]

theorem exists_methodOf :
    (∃ m, methodOf place v = .ok m) ↔ Mapping (MethodEntries ParameterEntries) v := by
  simp only [methodOf, exists_bind_eq_ok_iff, entriesOf_eq_ok]
  refine exists_congr fun entries => and_congr_right fun _ => ?_
  simp only [exists_methodNamed, exists_and_right, exists_requiredName]
  rfl

theorem exists_constructorOf :
    (∃ m, constructorOf place v = .ok m) ↔ Mapping (Signature ParameterEntries) v := by
  simp only [constructorOf, exists_bind_eq_ok_iff, entriesOf_eq_ok, exists_methodNamed]
  rfl

theorem exists_invokeOf :
    (∃ m, invokeOf place entries = .ok m) ↔ May Invoke "invoke" entries := by
  have hempty : Signature ParameterEntries ([] : Entries α) := by
    simp [Signature, May, lookup?]
  rw [invokeOf, May]
  cases hlookup : lookup? "invoke" entries with
  | none => simp [exists_methodNamed, hempty]
  | some v =>
      by_cases hvoid : (shape v).isVoid
      · simp [Option.filter, hvoid, exists_methodNamed, hempty, Invoke]
      · simp [Option.filter, hvoid, exists_bind_eq_ok_iff, entriesOf_eq_ok, exists_methodNamed,
          Invoke, Mapping]

/-! ## Types -/

theorem exists_namespaceOf :
    (∃ space, namespaceOf place v = .ok space) ↔ OrNull IsNamespace v := by
  rw [namespaceOf]
  split
  next hnull => simp [OrNull, isNull, hnull]
  next hnull =>
    have hsome := isNull_eq_false hnull
    simp only [exists_bind_eq_ok_iff, nameOf_eq_ok, exists_ite_eq_ok, exists_refuse,
      exists_pure_eq_ok]
    simp [OrNull, hsome, IsNamespace, Namespace.segments, and_assoc]

theorem exists_placedName : (∃ placed, placedName place entries = .ok placed) ↔
    Has IsName "name" entries ∧ May (OrNull IsNamespace) "namespace" entries := by
  simp only [placedName, exists_bind_eq_ok_iff, May]
  cases lookup? "namespace" entries with
  | none => simp [exists_pure_eq_ok, exists_requiredName]
  | some v =>
      simp only [exists_bind_eq_ok_iff, exists_pure_eq_ok, and_true, exists_and_right,
        exists_requiredName, exists_namespaceOf]
      simp

/-- A text means one of some things if it is the word of one of them. -/
theorem exists_wordOf? {β : Type} (things : List β) (word : β → String) :
    (∃ b, wordOf? (fun s => things.find? (word · == s)) v = some b) ↔
      IsWord (things.map word) v := by
  have hfind : ∀ s, (∃ b, things.find? (word · == s) = some b) ↔ s ∈ things.map word := by
    intro s
    rw [← Option.isSome_iff_exists, List.find?_isSome, List.mem_map]
    simp only [beq_iff_eq]
  rw [wordOf?, IsWord, text?]
  cases hshape : shape v with
  | text s => simpa using hfind s
  | _ => simp

theorem exists_kindOf :
    (∃ kind, kindOf place entries = .ok kind) ↔ May (IsWord kindWords) "kind" entries := by
  rw [kindOf, May]
  cases hlookup : lookup? "kind" entries with
  | none => simp
  | some v =>
      simp only [Option.mem_def, Option.some.injEq, forall_eq']
      refine Iff.trans ?_ (exists_wordOf? TypeKind.all TypeKind.text)
      change _ ↔ ∃ kind, wordOf? TypeKind.ofText? v = some kind
      cases wordOf? TypeKind.ofText? v with
      | none => simp [exists_bind_eq_ok_iff, exists_refuse]
      | some kind => simp

theorem exists_visibilityOf : (∃ visibility, visibilityOf place entries = .ok visibility) ↔
    May (IsWord visibilityWords) "visibility" entries := by
  rw [visibilityOf, May]
  cases hlookup : lookup? "visibility" entries with
  | none => simp
  | some v =>
      simp only [Option.mem_def, Option.some.injEq, forall_eq']
      refine Iff.trans ?_ (exists_wordOf? [.exported, .internal] Visibility.text)
      change _ ↔ ∃ visibility, wordOf? Visibility.ofText? v = some visibility
      cases wordOf? Visibility.ofText? v with
      | none => simp [exists_bind_eq_ok_iff, exists_refuse]
      | some visibility => simp

/-- A type is of a kind that has to be said if it says so. -/
theorem says_kind_iff {kind : TypeKind} (hkind : kindOf place entries = .ok kind)
    (target : TypeKind) (htarget : target ≠ .classType) :
    Says "kind" target.text entries ↔ kind = target := by
  rw [kindOf] at hkind
  rw [Says, Has]
  split at hkind
  next hlookup =>
    cases hkind
    simp [hlookup, htarget.symm]
  next v hlookup =>
    split at hkind
    next found hword =>
      cases hkind
      rw [wordOf?] at hword
      split at hword
      next s hshape =>
        have htext : kind.text = s := by simpa using List.find?_some hword
        have hinj : kind.text = target.text ↔ kind = target := by
          cases kind <;> cases target <;> simp [TypeKind.text]
        simp [hlookup, IsWord, text?, hshape, ← htext, hinj]
      next => cases hword
    next =>
      obtain ⟨_, -, h⟩ := exists_of_bind_eq_ok hkind
      cases h

/-- Where there must be no values, the list of them is empty. -/
theorem exists_valuesOf {kind : TypeKind} :
    (∃ items, itemsOf place "values" entries = .ok items ∧
      ∃ values, items.mapM (nameOf place "values") = .ok values ∧
        ¬ (!values.isEmpty && kind != .enumType) = true) ↔
      May (Items IsName) "values" entries ∧
        (kind = .enumType ∨ May (Items fun _ => False) "values" entries) := by
  by_cases hkind : kind = .enumType
  · simp [hkind, exists_mapM_eq_ok_iff, exists_nameOf, exists_itemsOf]
  · have hnone : (∃ items, itemsOf place "values" entries = .ok items ∧ ∀ w ∈ items, False) ↔
        itemsOf place "values" entries = .ok [] := by
      simp only [← List.eq_nil_iff_forall_not_mem, exists_eq_right]
    rw [exists_itemsOf] at hnone
    have hnames (h : itemsOf place "values" entries = .ok []) :
        May (Items IsName) "values" entries := exists_itemsOf.mp ⟨[], h, fun _ hw => by cases hw⟩
    simp only [bne_iff_ne.mpr hkind, Bool.and_true, Bool.not_eq_true', Bool.not_eq_false,
      List.isEmpty_iff, exists_eq_right, mapM_eq_ok_nil, hkind, false_or, hnone]
    exact ⟨fun h => ⟨hnames h, h⟩, fun h => h.2⟩

/-- What is read last of a type. -/
theorem remainder_iff {kind : TypeKind} (hkind : kindOf place entries = .ok kind) :
    Remainder entries ↔
      (kind = .delegateType → May Invoke "invoke" entries) ∧
        May (Items IsName) "values" entries ∧
        (kind = .enumType ∨ May (Items fun _ => False) "values" entries) ∧
        May (OrNull IsRef) "base" entries ∧ May (Items IsRef) "interfaces" entries := by
  have henum := says_kind_iff hkind .enumType (by decide)
  have hdelegate := says_kind_iff hkind .delegateType (by decide)
  rw [Remainder, ← henum, ← hdelegate]
  tauto

theorem exists_typeOf {path : Path} {index : Nat} :
    (∃ t, typeOf path index v = .ok t) ↔ Mapping TypeEntries v := by
  -- How a delegate is called is the one thing that is read for some kinds only.
  have hsome : ∀ {p q rest : Prop} [Decidable p],
      (if p then q ∧ rest else rest) ↔ (p → q) ∧ rest := by
    intro p q rest _
    split <;> simp [*]
  simp only [typeOf, exists_bind_eq_ok_iff, entriesOf_eq_ok, exists_ite_eq_ok,
    exists_pure_eq_ok]
  refine exists_congr fun entries => and_congr_right fun _ => ?_
  simp only [exists_mapM_eq_ok_iff, exists_fieldOf, exists_propertyOf, exists_methodOf,
    exists_constructorOf, exists_and_right, ← and_assoc, exists_itemsOf, exists_visibilityOf,
    exists_pure_eq_ok, and_true, exists_refOf, exists_map_eq_ok, exists_invokeOf,
    exists_optionalRef, exists_refuse, false_and, if_false_left, exists_valuesOf]
  simp only [and_assoc, true_and, beq_iff_eq, hsome]
  constructor
  · rintro ⟨placed, hplaced, kind, hkind, hvisibility, hfields, hproperties, hmethods,
      hconstructors, hrest⟩
    obtain ⟨hname, hspace⟩ := exists_placedName.mp ⟨placed, hplaced⟩
    exact ⟨⟨⟨hname, hspace, exists_kindOf.mp ⟨kind, hkind⟩, hvisibility⟩, hfields, hproperties,
      hmethods, hconstructors⟩, (remainder_iff hkind).mpr hrest⟩
  · rintro ⟨⟨⟨hname, hspace, hkind, hvisibility⟩, hfields, hproperties, hmethods,
      hconstructors⟩, hrest⟩
    obtain ⟨placed, hplaced⟩ := exists_placedName.mpr ⟨hname, hspace⟩
    obtain ⟨kind, hkind⟩ := exists_kindOf.mpr hkind
    exact ⟨placed, hplaced, kind, hkind, hvisibility, hfields, hproperties, hmethods,
      hconstructors, (remainder_iff hkind).mp hrest⟩

/-! ## Full names -/

theorem textAt?_of_requiredName {name : String}
    (h : requiredName place key entries = .ok name) :
    ∃ s, textAt? key entries = some s ∧ Text.strip s = name := by
  obtain ⟨w, hw, h⟩ := exists_of_bind_eq_ok h
  obtain ⟨s, hs, -, hname⟩ := nameOf_eq_ok.mp h
  exact ⟨s, by rw [textAt?, (required_eq_ok.mp hw).1]; exact hs, hname⟩

theorem textAt?_of_namespaceOf {space : Namespace} (hv : v ∈ lookup? "namespace" entries)
    (h : namespaceOf place v = .ok space) (name : String) :
    space.qualify name = match textAt? "namespace" entries with
      | some s => Text.strip s ++ "." ++ name
      | none => name := by
  rw [textAt?, hv, Option.bind_some]
  rw [namespaceOf] at h
  split at h
  next hnull =>
    cases h
    simp [text?, hnull, Namespace.qualify]
  next =>
    obtain ⟨dotted, hdotted, h⟩ := exists_of_bind_eq_ok h
    obtain ⟨s, hs, -, hstrip⟩ := nameOf_eq_ok.mp hdotted
    split at h
    · cases h
    · cases h
      rw [hs]
      dsimp only
      rw [hstrip, Namespace.qualify]

theorem fullName?_of_placedName {placed : Namespace × String} (hentries : entries ∈ entries? v)
    (h : placedName place entries = .ok placed) :
    fullName? v = some (placed.1.qualify placed.2) := by
  obtain ⟨name, hname, h⟩ := exists_of_bind_eq_ok h
  obtain ⟨s, hs, hstrip⟩ := textAt?_of_requiredName hname
  rw [fullName?, hentries]
  simp only [Option.bind_eq_bind, Option.bind_some, hs, hstrip, Option.pure_def]
  split at h
  next w hw =>
    obtain ⟨space, hspace, h⟩ := exists_of_bind_eq_ok h
    cases h
    rw [textAt?_of_namespaceOf hw hspace]
    cases textAt? "namespace" entries <;> rfl
  next hnone =>
    cases h
    rw [Namespace.qualify_ofFullName, textAt?, hnone]
    rfl

/-- A type stands where its heading places it. -/
theorem exists_placedName_of_typeOf {path : Path} {index : Nat} {t : TypeDecl}
    (h : typeOf path index v = .ok t) :
    ∃ entries ∈ entries? v, placedName (.item path index) entries = .ok (t.space, t.name) := by
  obtain ⟨entries, hentries, h⟩ := exists_of_bind_eq_ok h
  obtain ⟨⟨space, name⟩, hplaced, h⟩ := exists_of_bind_eq_ok h
  refine ⟨entries, entriesOf_eq_ok.mp hentries, ?_⟩
  simp only [bind_eq_ok_iff] at h
  obtain ⟨kind, -, visibility, -, _, -, fields, -, _, -, properties, -, _, -, methods, -, _, -,
    constructors, -, h⟩ := h
  -- Whether the type is a delegate or not, the same steps follow.
  split at h
  all_goals
    simp only [bind_eq_ok_iff] at h
    obtain ⟨invoke, -, _, -, values, -, h⟩ := h
    split at h
    · simp only [bind_eq_ok_iff, refuse_eq_ok, false_and, exists_false] at h
    · simp only [bind_eq_ok_iff] at h
      obtain ⟨base, -, _, -, interfaces, -, h⟩ := h
      cases h
      exact hplaced

theorem fullName?_of_typeOf {path : Path} {index : Nat} {t : TypeDecl}
    (h : typeOf path index v = .ok t) : fullName? v = some t.fullName := by
  obtain ⟨entries, hentries, hplaced⟩ := exists_placedName_of_typeOf h
  exact fullName?_of_placedName hentries hplaced

/-- Types are read in a row where each can be read and none has the full name of an earlier one. -/
theorem exists_typesFrom {path : Path} {seen : List String} {index : Nat} {vs : List α} :
    (∃ types, typesFrom path seen index vs = .ok types) ↔
      (∀ v ∈ vs, Mapping TypeEntries v) ∧
        vs.Pairwise (fun v w => fullName? v ≠ fullName? w) ∧
        ∀ v ∈ vs, ∀ full ∈ fullName? v, full ∉ seen := by
  induction vs generalizing seen index with
  | nil => simp [typesFrom]
  | cons v rest ih =>
      simp only [typesFrom, exists_bind_eq_ok_iff, exists_ite_eq_ok, refuse_eq_ok, false_and,
        exists_false, exists_pure_eq_ok, if_false_left, List.contains_iff_mem, ih, and_true,
        List.forall_mem_cons, List.pairwise_cons]
      constructor
      · rintro ⟨t, ht, hseen, hrest, hpairwise, hnew⟩
        have hfull := fullName?_of_typeOf ht
        refine ⟨⟨exists_typeOf.mp ⟨t, ht⟩, hrest⟩, ⟨fun w hw heq => ?_, hpairwise⟩, ?_, ?_⟩
        · exact hnew w hw t.fullName (heq ▸ hfull) List.mem_cons_self
        · rw [hfull]
          rintro full ⟨⟩
          exact hseen
        · exact fun w hw full hmem hold => hnew w hw full hmem (List.mem_cons_of_mem _ hold)
      · rintro ⟨⟨hentries, hrest⟩, ⟨hdiffer, hpairwise⟩, hseen, hnew⟩
        obtain ⟨t, ht⟩ : ∃ t, typeOf path index v = .ok t := exists_typeOf.mpr hentries
        have hfull := fullName?_of_typeOf ht
        refine ⟨t, ht, hseen t.fullName hfull, hrest, hpairwise, fun w hw full hmem hold => ?_⟩
        rcases List.mem_cons.mp hold with rfl | hold
        · exact hdiffer w hw (hfull.trans hmem.symm)
        · exact hnew w hw full hmem hold

end Schema

namespace Manifest

open Grammar Schema

/-- A value is read as a manifest if and only if it describes one. -/
theorem exists_ofValue_iff {α : Type} [Readable α] (path : Path) (v : α) :
    (∃ m, ofValue path v = .ok m) ↔ Describes v := by
  simp only [ofValue, exists_bind_eq_ok_iff, entriesOf_eq_ok]
  refine exists_congr fun entries => and_congr_right fun _ => ?_
  have hversion : May IsWritable "version" entries ↔
      ∀ w, Readable.lookup? "version" entries = some w → IsWritable w := Iff.rfl
  -- Whether there is a version or not, the same steps follow.
  split
  all_goals
    next hlookup =>
      simp only [exists_bind_eq_ok_iff, exists_pure_eq_ok, exists_shownOf, and_true, true_and,
        exists_and_right, exists_requiredName, exists_mapM_eq_ok_iff, exists_nameOf,
        exists_typesFrom, List.not_mem_nil, not_false_eq_true, implies_true, ← and_assoc,
        exists_itemsOf, exists_distinctItemsOf]
      rw [Description, hversion, hlookup]
      simp [and_assoc, and_left_comm, and_comm]

section Outlines

open Document

/-- A manifest of one type, with more about that type. -/
def ofOneType (more : List (Document × Document)) : Document :=
  mapping [(text "name", text "A"),
    (text "types", list [mapping ((text "name", text "N.T") :: more)])]

/-- One value for each thing that is asked and that an outline leaves out. -/
def outlinesOnly : List Document :=
  [mapping [(text "name", text "A"), (text "version", int (.ofNat (Nat.pow 10 4300)))],
    ofOneType [(text "base", text "")],
    ofOneType [(text "interfaces", text "N.I")],
    ofOneType [(text "kind", text "enum"), (text "values", list [text " "])],
    ofOneType [(text "values", list [text "x"])],
    ofOneType [(text "kind", text "delegate"), (text "invoke", list [null])],
    ofOneType [(text "methods", list [mapping [(text "name", text "f"),
      (text "parameters", list [mapping [(text "type", text "N.T")]])]])],
    ofOneType [(text "methods", list [mapping [(text "name", text "f"),
      (text "parameters", list [mapping [(text "name", text "x"), (text "type", text "[]")]])]])]]

/-- An outline is not enough. -/
theorem outlines_not_enough :
    outlinesOnly.all fun v =>
      decide (Outlines v) && (ofValue ⟨.relative, ["X.yaml"]⟩ v).toOption.isNone := by
  decide +kernel

end Outlines

end Manifest

end StubTree
