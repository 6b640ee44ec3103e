import Mathlib.Data.List.Forall2
import StubTree.Proofs.Keyed
import StubTree.Proofs.Options

/-! # Stored values

Setting an option is checking the value and storing what the check makes of it. A check takes what
it has stored, and leaves it as it is; so options depend on the last value given for each name only.
-/

namespace StubTree.Options

open Readable (shape)

variable {α : Type} [Readable α] {o o' o₁ o₂ : Options} {name : String} {v : α} {d : Document}
  {given : Keyed String α}

/-- The stored value of an option. -/
def value? (o : Options) (name : String) : Option Document := Keyed.get? name o.settings

/-- What an option stores of a value that passes its check. -/
def checked (name : String) (v : α) : Except OptionFault Document :=
  match name with
  | "only_target_types" => .bool <$> flag name v
  | "builtin_binaries" => (fun names => .list (names.map .text)) <$> nameList name v
  | "stub_file_name" => .text <$> fileName name v
  | "manifest_suffix" => .text <$> ending name v
  | "quiet" => .bool <$> flag name v
  | _ => .error (.unknown name (Text.Similarity.closest? names name))

/-- A value that tells what an option stores. -/
inductive Tells : α → Document → Prop
  | flag {v : α} {b : Bool} (h : shape v = .bool b) : Tells v (.bool b)
  | text {v : α} {s : String} (h : shape v = .text s) : Tells v (.text s)
  | names {v : α} {items : List α} {names : List String} (h : shape v = .list items)
      (hitems : List.Forall₂ (fun item name => shape item = .text name) items names) :
      Tells v (.list (names.map .text))

theorem keys_settings (o : Options) : Keyed.keys o.settings = names := rfl

theorem nodup_names : names.Nodup := by decide

/-! ## One option -/

theorem settings_injective : Function.Injective settings := by
  intro o o' h
  have htexts : Function.Injective (List.map Document.text) :=
    List.map_injective_iff.mpr fun _ _ heq => Document.text.inj heq
  simp only [settings, List.cons.injEq, Prod.mk.injEq, true_and, Document.bool.injEq,
    Document.list.injEq, Document.text.injEq, htexts.eq_iff, and_true] at h
  obtain ⟨honly, hbuiltin, hfile, hsuffix, hquiet⟩ := h
  cases o
  cases o'
  simp_all

theorem ext_value? (h : ∀ name ∈ names, o.value? name = o'.value? name) : o = o' :=
  settings_injective (Keyed.ext_get? rfl nodup_names h)

theorem set_of_checked (h : checked name v = .ok d) :
    ∃ o', o.set name v = .ok o' ∧ o'.settings = Keyed.set name d o.settings := by
  unfold checked at h
  split at h
  · obtain ⟨only, honly, rfl⟩ := map_eq_ok_iff.mp h
    exact ⟨{ o with onlyTargetTypes := only }, by simp [Options.set, honly], rfl⟩
  · obtain ⟨builtins, hbuiltins, rfl⟩ := map_eq_ok_iff.mp h
    exact ⟨{ o with builtinBinaries := builtins }, by simp [Options.set, hbuiltins], rfl⟩
  · obtain ⟨file, hfile, rfl⟩ := map_eq_ok_iff.mp h
    exact ⟨{ o with stubFileName := file }, by simp [Options.set, hfile], rfl⟩
  · obtain ⟨suffix, hsuffix, rfl⟩ := map_eq_ok_iff.mp h
    exact ⟨{ o with manifestSuffix := suffix }, by simp [Options.set, hsuffix], rfl⟩
  · obtain ⟨quiet, hquiet, rfl⟩ := map_eq_ok_iff.mp h
    exact ⟨{ o with quiet := quiet }, by simp [Options.set, hquiet], rfl⟩
  · cases h

theorem set_of_fault {fault : OptionFault} (h : checked name v = .error fault) :
    o.set name v = .error fault := by
  unfold checked at h
  split at h
  -- An option is set to what its check makes of the value.
  iterate 5
    · rw [map_eq_error_iff] at h
      simp [Options.set, h]
  · rw [Options.set]
    · exact congrArg _ (Except.error.inj h)
    all_goals assumption

theorem set_eq_ok (h : o.set name v = .ok o') :
    ∃ d, checked name v = .ok d ∧ o'.settings = Keyed.set name d o.settings := by
  cases hchecked : checked name v with
  | error fault =>
      rw [set_of_fault hchecked] at h
      cases h
  | ok d =>
      obtain ⟨_, hset, hsettings⟩ := set_of_checked hchecked
      rw [h] at hset
      cases hset
      exact ⟨d, rfl, hsettings⟩

theorem value?_of_set {d' : Document} (h : o'.settings = Keyed.set name d' o.settings) :
    o'.value? name = some d' := by
  rw [value?, h, Keyed.get?_set_self]

theorem value?_of_set_of_ne {d' : Document} {other : String} (hne : other ≠ name)
    (h : o'.settings = Keyed.set name d' o.settings) : o'.value? other = o.value? other := by
  rw [value?, h, Keyed.get?_set_of_ne hne, value?]

/-! ## Many options -/

/-- Options after values were given for some names: each name given stores what its check makes of
the value, and the others stay. -/
def Updates (o : Options) (given : String → Option α) (o' : Options) : Prop :=
  ∀ name, match given name with
    | none => o'.value? name = o.value? name
    | some v => ∃ d, checked name v = .ok d ∧ o'.value? name = some d

theorem setAll_eq_ok_iff (hnodup : given.keys.Nodup) :
    o.setAll given = .ok o' ↔ o.Updates (fun name => Keyed.get? name given) o' := by
  induction given generalizing o with
  | nil =>
      constructor
      · rintro ⟨⟩ name
        rfl
      · exact fun h => congrArg Except.ok (ext_value? fun name _ => (h name).symm)
  | cons entry rest ih =>
      obtain ⟨name, v⟩ := entry
      rw [Keyed.keys_cons, List.nodup_cons] at hnodup
      have hfresh : Keyed.get? name rest = none := Keyed.get?_eq_none_iff.mpr hnodup.1
      have hfirst : Keyed.get? name ((name, v) :: rest) = some v := if_pos rfl
      have hlater : ∀ other, other ≠ name →
          Keyed.get? other ((name, v) :: rest) = Keyed.get? other rest :=
        fun other hne => if_neg (Ne.symm hne)
      constructor
      · intro h
        obtain ⟨o₁, hset, hrest⟩ := exists_of_bind_eq_ok h
        obtain ⟨d, hchecked, hsettings⟩ := set_eq_ok hset
        have hupdates := (ih hnodup.2).mp hrest
        intro other
        by_cases hname : other = name
        · subst hname
          have hstays := hupdates other
          simp only [hfresh, value?_of_set hsettings] at hstays
          simp only [hfirst]
          exact ⟨d, hchecked, hstays⟩
        · have hother := hupdates other
          simp only [value?_of_set_of_ne hname hsettings] at hother
          simpa only [hlater other hname] using hother
      · intro h
        have hname := h name
        simp only [hfirst] at hname
        obtain ⟨d, hchecked, hvalue⟩ := hname
        obtain ⟨o₁, hset, hsettings⟩ := set_of_checked (o := o) hchecked
        refine bind_eq_ok_iff.mpr ⟨o₁, hset, (ih hnodup.2).mpr ?_⟩
        intro other
        by_cases hname : other = name
        · subst hname
          simp only [hfresh, value?_of_set hsettings, hvalue]
        · have hother := h other
          simp only [hlater other hname] at hother
          simpa only [value?_of_set_of_ne hname hsettings] using hother

/-- The fault of a value that does not pass its check. -/
def fault? (entry : String × α) : Option OptionFault :=
  match checked entry.1 entry.2 with
  | .ok _ => none
  | .error fault => some fault

/-- Setting fails with the fault of the first value that does not pass, whatever the options. -/
theorem setAll_eq_error_iff {fault : OptionFault} :
    o.setAll given = .error fault ↔ given.findSome? fault? = some fault := by
  induction given generalizing o with
  | nil => exact iff_of_false (fun h => by cases h) (fun h => by cases h)
  | cons entry rest ih =>
      obtain ⟨name, v⟩ := entry
      rw [setAll, List.findSome?_cons, fault?]
      cases hchecked : checked name v with
      | ok d =>
          obtain ⟨o₁, hset, -⟩ := set_of_checked (o := o) hchecked
          rw [hset]
          exact ih
      | error cause =>
          rw [set_of_fault hchecked]
          exact ⟨fun h => congrArg _ (Except.error.inj h), fun h => congrArg _ (Option.some.inj h)⟩

/-! ## Values that are accepted again -/

theorem mapM_text? {items : List α} {texts : List String}
    (h : List.Forall₂ (fun item text => shape item = .text text) items texts) :
    items.mapM text? = some texts := by
  induction h with
  | nil => rfl
  | cons hitem _ ih =>
      rw [List.mapM_cons, ih, text?, hitem]
      rfl

theorem nameList_of_items {items : List α} {texts : List String} (hshape : shape v = .list items)
    (hitems : List.Forall₂ (fun item text => shape item = .text text) items texts) :
    nameList name v = .ok texts := by
  have htext : text? v = none := by rw [text?, hshape]
  have hlist : items? v = some items := by rw [items?, hshape]
  rw [nameList, htext, hlist]
  simp only [Option.bind_some, mapM_text? hitems]

theorem filled_of_text {s : String} (hshape : shape v = .text s) (hfilled : s ≠ "") :
    filled name v = .ok s := by
  rw [filled, hshape]
  exact if_neg (by simpa using hfilled)

/-- An option takes what tells its stored value, and stores just that. -/
theorem Valid.checked_of_tells (h : o.Valid) (hvalue : o.value? name = some d)
    (htells : Tells v d) :
    checked name v = .ok d := by
  have hmem := Keyed.mem_of_get? hvalue
  simp only [settings, List.mem_cons, Prod.mk.injEq, List.not_mem_nil, or_false] at hmem
  rcases hmem with ⟨rfl, rfl⟩ | ⟨rfl, hd⟩ | ⟨rfl, rfl⟩ | ⟨rfl, rfl⟩ | ⟨rfl, rfl⟩
  · cases htells with
    | flag hshape => simp [checked, flag, hshape]
  · cases htells with
    | names hshape hitems => simp [checked, nameList_of_items hshape hitems]
    | _ => cases hd
  · cases htells with
    | text hshape =>
        have hseparators : ¬ o.stubFileName.toList.any (fun c => c == '/' || c == '\\') = true := by
          intro hany
          obtain ⟨c, hc, hsep⟩ := List.any_eq_true.mp hany
          have hnone := h.separators c hc
          simp [hnone] at hsep
        rw [checked, fileName, filled_of_text hshape h.filled]
        simp only [bind, Except.bind, if_neg hseparators]
        rfl
  · cases htells with
    | text hshape =>
        have hfilled : o.manifestSuffix ≠ "" := by
          intro hempty
          have hending := h.ending
          simp [hempty] at hending
        rw [checked, Options.ending, filled_of_text hshape hfilled]
        simp only [bind, Except.bind, h.ending, beq_self_eq_true, if_true]
        rfl
  · cases htells with
    | flag hshape => simp [checked, flag, hshape]

/-- Every stored value tells itself. -/
theorem tells_value? (h : o.value? name = some d) : Tells d d := by
  have hmem := Keyed.mem_of_get? h
  simp only [settings, List.mem_cons, Prod.mk.injEq, List.not_mem_nil, or_false] at hmem
  rcases hmem with ⟨rfl, rfl⟩ | ⟨rfl, rfl⟩ | ⟨rfl, rfl⟩ | ⟨rfl, rfl⟩ | ⟨rfl, rfl⟩
  · exact .flag rfl
  · exact .names rfl (List.forall₂_map_left_iff.mpr (List.forall₂_same.mpr fun _ _ => rfl))
  · exact .text rfl
  · exact .text rfl
  · exact .flag rfl

/-! ## Values from elsewhere -/

section

variable {β : Type} [Readable β] {f : α → β} (hf : ∀ v, shape (f v) = (shape v).map f)

include hf

theorem text?_map (v : α) : text? (f v) = text? v := by
  rw [text?, hf, text?]
  cases shape v <;> rfl

theorem items?_map (v : α) : items? (f v) = (items? v).map (·.map f) := by
  rw [items?, hf, items?]
  cases shape v <;> rfl

theorem flag_map (name : String) (v : α) : flag name (f v) = flag name v := by
  rw [flag, hf, flag]
  cases shape v <;> rfl

theorem filled_map (name : String) (v : α) : filled name (f v) = filled name v := by
  rw [filled, hf, filled]
  cases shape v <;> rfl

theorem nameList_map (name : String) (v : α) : nameList name (f v) = nameList name v := by
  have hitems : ∀ items : List α, (items.map f).mapM text? = items.mapM text? := by
    intro items
    rw [List.mapM_map]
    exact congrArg (items.mapM ·) (funext fun item => text?_map hf item)
  rw [nameList, text?_map hf, items?_map hf, nameList]
  cases items? v with
  | none => rfl
  | some items => simp only [Option.map_some, Option.bind_some, hitems]

/-- A check looks at the shape of a value only. -/
theorem checked_map (name : String) (v : α) : checked name (f v) = checked name v := by
  unfold checked fileName ending
  simp only [flag_map hf, filled_map hf, nameList_map hf]

end

end StubTree.Options
