import StubTree.Document.Text
import StubTree.Proofs.Manifest.Methods
import StubTree.Proofs.Stub.Text

/-! # Overloads

Methods are marked as overloads by the names that they declare, the constructors of a type apart
from its methods, while all of them stand in one block under the names that the stub gives them. A
mark is never wrong. It is missing where definitions come to one name in the stub only: a method
that is named like the constructors or like the call of a delegate, and two methods of which one
has a name that is kept and the other one what is written for it.
-/

namespace StubTree.Stub

variable {d : TypeDecl} {m m' : Method} {name : String} {meaning : Meaning}

/-- A definition in the block of a type, and whether it is marked as an overload. -/
structure Definition where
  method : Method
  marked : Bool
  deriving DecidableEq, Repr

/-- The definitions of one group, those that share the name they declare marked. -/
def groupDefinitions (methods : List Method) : List Definition :=
  methods.map fun m => ⟨m, isOverloaded methods m⟩

/-- The definitions in the block of a type: constructors, methods and the call. -/
def definitions (d : TypeDecl) : List Definition :=
  groupDefinitions d.constructors ++ groupDefinitions d.methods
    ++ d.invoke.toList.map fun m => ⟨m, false⟩

/-- How many definitions in the block of a type have the name that the stub gives to `name`. -/
def sharing (d : TypeDecl) (name : String) : Nat :=
  (definitions d).countP fun x => methodName x.method.name == methodName name

/-- The names that several definitions of a block come to without any two of a group declaring
them. -/
inductive Overlooked (d : TypeDecl) : String → Prop
  | constructor (hconstructors : d.constructors ≠ [])
      (hmethod : ∃ m ∈ d.methods, m.name = "__init__") : Overlooked d "__init__"
  | call (hinvoke : d.invoke ≠ none) (hmethod : ∃ m ∈ d.methods, m.name = "__call__") :
      Overlooked d "__call__"
  | kept {kept : String} (hkept : kept ∈ keywords) (hmethod : ∃ m ∈ d.methods, m.name = kept)
      (hwritten : ∃ m ∈ d.methods, m.name = kept ++ "_") : Overlooked d kept
  | written {kept : String} (hkept : kept ∈ keywords) (hmethod : ∃ m ∈ d.methods, m.name = kept)
      (hwritten : ∃ m ∈ d.methods, m.name = kept ++ "_") : Overlooked d (kept ++ "_")

/-! ## The block -/

theorem groupLines_eq (meaning : Meaning) (methods : List Method) :
    groupLines meaning methods =
      (groupDefinitions methods).flatMap fun x => methodLines meaning x.marked x.method := by
  rw [groupDefinitions, List.flatMap_map]
  rfl

/-- The block of a type ends with its definitions, each with its marks before it. -/
theorem bodyLines_eq (meaning : Meaning) (d : TypeDecl) :
    bodyLines meaning d =
      d.values.map (fun value => identifier value ++ ": " ++ identifier d.name)
        ++ d.fields.map (fieldLine meaning) ++ d.properties.flatMap (propertyLines meaning)
        ++ (definitions d).flatMap fun x => methodLines meaning x.marked x.method := by
  simp only [bodyLines, definitions, groupLines_eq, List.flatMap_append, List.flatMap_map,
    List.append_assoc]

theorem methodLine_eq (meaning : Meaning) (m : Method) :
    ∃ after, methodLine meaning m = "def " ++ methodName m.name ++ "(" ++ after := by
  refine ⟨", ".intercalate ((if m.isStatic then [] else ["self"]) ++
    m.parameters.map (parameterText meaning)) ++ ") -> " ++ hint meaning m.returns ++ ": ...", ?_⟩
  simp only [methodLine, String.append_assoc]

/-! ## Names -/

theorem methodName_eq_iff {a b : String} : methodName a = methodName b ↔
    a = b ∨ (a ∈ keywords ∧ b = a ++ "_") ∨ (b ∈ keywords ∧ a = b ++ "_") := by
  rw [methodName_eq_identifier, methodName_eq_identifier, identifier_eq_iff]

/-- Neither of the names that reading gives is kept, nor is it written for a name that is. -/
theorem eq_of_methodName_eq {given : String} (hgiven : given = "__init__" ∨ given = "__call__")
    (h : methodName name = methodName given) : name = given := by
  have hfree : given ∉ keywords ∧ ∀ kept ∈ keywords, given ≠ kept ++ "_" := by
    rcases hgiven with rfl | rfl <;> decide +kernel
  rcases methodName_eq_iff.mp h with heq | ⟨hkept, heq⟩ | ⟨hkept, -⟩
  · exact heq
  · exact absurd heq (hfree.2 name hkept)
  · exact absurd hkept hfree.1

/-! ## Counting -/

theorem sharing_eq (d : TypeDecl) (name : String) : sharing d name =
    d.constructors.countP (fun m => methodName m.name == methodName name) +
      d.methods.countP (fun m => methodName m.name == methodName name) +
      d.invoke.toList.countP (fun m => methodName m.name == methodName name) := by
  simp only [sharing, definitions, groupDefinitions, List.countP_append, List.countP_map]
  rfl

theorem two_le_countP {α : Type} {l : List α} {p : α → Bool} {a b : α} (ha : a ∈ l) (hb : b ∈ l)
    (hne : a ≠ b) (hpa : p a = true) (hpb : p b = true) : 2 ≤ l.countP p := by
  induction l with
  | nil => cases ha
  | cons first rest ih =>
      rw [List.countP_cons]
      have hpos : ∀ c ∈ rest, p c = true → 0 < rest.countP p :=
        fun c hc hpc => List.countP_pos_iff.mpr ⟨c, hc, hpc⟩
      rcases List.mem_cons.mp ha with rfl | ha' <;> rcases List.mem_cons.mp hb with rfl | hb'
      · exact absurd rfl hne
      · have := hpos b hb' hpb
        rw [if_pos hpa]
        omega
      · have := hpos a ha' hpa
        rw [if_pos hpb]
        omega
      · exact Nat.le_add_right_of_le (ih ha' hb')

/-- Those that share a declared name share the name in the stub. -/
theorem countP_name_le (methods : List Method) (name : String) :
    methods.countP (fun m => m.name == name) ≤
      methods.countP (fun m => methodName m.name == methodName name) := by
  refine List.countP_mono_left fun m _ hm => ?_
  rw [eq_of_beq hm]
  exact beq_self_eq_true _

theorem isOverloaded_iff {methods : List Method} :
    isOverloaded methods m = true ↔ 2 ≤ methods.countP fun other => other.name == m.name :=
  decide_eq_true_iff

/-- Constructors share one name, in the declaration as in the stub. -/
theorem countP_constructors (h : d.WellNamed) (hm : m ∈ d.constructors) :
    d.constructors.countP (fun other => methodName other.name == methodName m.name) =
      d.constructors.countP fun other => other.name == m.name := by
  refine List.countP_congr fun other hother => ?_
  rw [h.constructors m hm, h.constructors other hother]
  exact iff_of_true (beq_self_eq_true _) (beq_self_eq_true _)

theorem exists_method_named {given : String} (hgiven : given = "__init__" ∨ given = "__call__")
    (h : 0 < d.methods.countP fun m => methodName m.name == methodName given) :
    ∃ m ∈ d.methods, m.name = given := by
  obtain ⟨m, hm, hname⟩ := List.countP_pos_iff.mp h
  exact ⟨m, hm, eq_of_methodName_eq hgiven (eq_of_beq hname)⟩

/-- A marked definition shares its name. -/
theorem two_le_sharing_of_marked {x : Definition} (hx : x ∈ definitions d)
    (hmarked : x.marked = true) : 2 ≤ sharing d x.method.name := by
  rw [sharing_eq]
  simp only [definitions, groupDefinitions, List.mem_append, List.mem_map] at hx
  rcases hx with (⟨m, -, rfl⟩ | ⟨m, -, rfl⟩) | ⟨m, -, rfl⟩
  · have := (isOverloaded_iff.mp hmarked).trans (countP_name_le d.constructors m.name)
    dsimp only
    omega
  · have := (isOverloaded_iff.mp hmarked).trans (countP_name_le d.methods m.name)
    dsimp only
    omega
  · cases hmarked

theorem two_le_sharing_of_overlooked (h : d.WellNamed) (hoverlooked : Overlooked d name) :
    2 ≤ sharing d name := by
  have hpos : ∀ {methods : List Method} {m : Method}, m ∈ methods → m.name = name →
      0 < methods.countP fun m => methodName m.name == methodName name := by
    rintro methods m hm rfl
    exact List.countP_pos_iff.mpr ⟨m, hm, beq_self_eq_true _⟩
  have hboth : ∀ {kept : String}, kept ∈ keywords → methodName kept = methodName name →
      methodName (kept ++ "_") = methodName name → (∃ m ∈ d.methods, m.name = kept) →
      (∃ m ∈ d.methods, m.name = kept ++ "_") → 2 ≤ sharing d name := by
    rintro _ hkept hname hwritten ⟨m, hm, rfl⟩ ⟨m', hm', heq⟩
    have hne : m ≠ m' := by
      rintro rfl
      simpa using congrArg String.length heq
    have := two_le_countP (p := fun m => methodName m.name == methodName name) hm hm' hne
      (beq_iff_eq.mpr hname) (beq_iff_eq.mpr (heq ▸ hwritten))
    rw [sharing_eq]
    omega
  cases hoverlooked with
  | constructor hconstructors hmethod =>
      obtain ⟨c, hc⟩ := List.exists_mem_of_ne_nil _ hconstructors
      obtain ⟨m, hm, hname⟩ := hmethod
      have := hpos hc (h.constructors c hc)
      have := hpos hm hname
      rw [sharing_eq]
      omega
  | call hinvoke hmethod =>
      obtain ⟨c, hc⟩ := Option.ne_none_iff_exists'.mp hinvoke
      obtain ⟨m, hm, hname⟩ := hmethod
      have := hpos (Option.mem_toList.mpr hc) (h.invoke c hc)
      have := hpos hm hname
      rw [sharing_eq]
      omega
  | kept hkept hmethod hwritten =>
      exact hboth hkept rfl (methodName_eq_iff.mpr (Or.inr (Or.inr ⟨hkept, rfl⟩))) hmethod hwritten
  | written hkept hmethod hwritten =>
      exact hboth hkept (methodName_eq_iff.mpr (Or.inr (Or.inl ⟨hkept, rfl⟩))) rfl hmethod hwritten

theorem eq_init_of_countP_pos (h : d.WellNamed)
    (hpos : 0 < d.constructors.countP fun m => methodName m.name == methodName name) :
    name = "__init__" ∧ d.constructors ≠ [] := by
  obtain ⟨c, hc, hname⟩ := List.countP_pos_iff.mp hpos
  rw [h.constructors c hc] at hname
  exact ⟨eq_of_methodName_eq (Or.inl rfl) (eq_of_beq hname).symm, List.ne_nil_of_mem hc⟩

theorem eq_call_of_countP_pos (h : d.WellNamed)
    (hpos : 0 < d.invoke.toList.countP fun m => methodName m.name == methodName name) :
    name = "__call__" ∧ d.invoke ≠ none := by
  obtain ⟨c, hc, hname⟩ := List.countP_pos_iff.mp hpos
  rw [Option.mem_toList] at hc
  rw [h.invoke c hc] at hname
  exact ⟨eq_of_methodName_eq (Or.inr rfl) (eq_of_beq hname).symm,
    Option.isSome_iff_ne_none.mp (Option.isSome_of_mem hc)⟩

/-- Methods come to one name without declaring it where one of them has a name that is kept. -/
theorem overlooked_of_methods (hm : m ∈ d.methods)
    (hunmarked : isOverloaded d.methods m = false)
    (hshares : 2 ≤ d.methods.countP fun other => methodName other.name == methodName m.name) :
    Overlooked d m.name := by
  have hother : ∃ m' ∈ d.methods, methodName m'.name = methodName m.name ∧ m'.name ≠ m.name := by
    by_contra hnone
    push Not at hnone
    have hle : d.methods.countP (fun other => methodName other.name == methodName m.name) ≤
        d.methods.countP fun other => other.name == m.name :=
      List.countP_mono_left fun m' hm' hname => beq_iff_eq.mpr (hnone m' hm' (eq_of_beq hname))
    rw [isOverloaded_iff.mpr (hshares.trans hle)] at hunmarked
    cases hunmarked
  obtain ⟨m', hm', hname, hne⟩ := hother
  rcases methodName_eq_iff.mp hname with heq | ⟨hkept, heq⟩ | ⟨hkept, heq⟩
  · exact absurd heq hne
  · rw [heq]
    exact .written hkept ⟨m', hm', rfl⟩ ⟨m, hm, heq⟩
  · exact .kept hkept ⟨m, hm, rfl⟩ ⟨m', hm', heq⟩

/-- Definitions that share a name without a mark are overlooked. -/
theorem overlooked_of_two_le_sharing (h : d.WellNamed) {x : Definition} (hx : x ∈ definitions d)
    (hunmarked : x.marked = false) (hshares : 2 ≤ sharing d x.method.name) :
    Overlooked d x.method.name := by
  simp only [definitions, groupDefinitions, List.mem_append, List.mem_map] at hx
  rcases hx with (⟨m, hm, rfl⟩ | ⟨m, hm, rfl⟩) | ⟨m, hm, rfl⟩
  · -- One constructor: the others that have its name are methods.
    have hname := h.constructors m hm
    have hsingle : ¬ 2 ≤ d.constructors.countP fun other =>
        methodName other.name == methodName m.name := by
      rw [countP_constructors h hm, ← isOverloaded_iff]
      exact ne_true_of_eq_false hunmarked
    have hcall : ¬ 0 < d.invoke.toList.countP fun other =>
        methodName other.name == methodName m.name := by
      intro hpos
      exact absurd (hname.symm.trans (eq_call_of_countP_pos h hpos).1) (by decide)
    dsimp only at hshares ⊢
    rw [sharing_eq] at hshares
    have hmethods : 0 < d.methods.countP fun other =>
        methodName other.name == methodName m.name := by omega
    rw [hname] at hmethods ⊢
    exact .constructor (List.ne_nil_of_mem hm) (exists_method_named (Or.inl rfl) hmethods)
  · dsimp only at hshares ⊢
    by_cases hinit : 0 < d.constructors.countP fun other =>
        methodName other.name == methodName m.name
    · obtain ⟨hname, hconstructors⟩ := eq_init_of_countP_pos h hinit
      rw [hname]
      exact .constructor hconstructors ⟨m, hm, hname⟩
    by_cases hcall : 0 < d.invoke.toList.countP fun other =>
        methodName other.name == methodName m.name
    · obtain ⟨hname, hinvoke⟩ := eq_call_of_countP_pos h hcall
      rw [hname]
      exact .call hinvoke ⟨m, hm, hname⟩
    rw [sharing_eq] at hshares
    exact overlooked_of_methods hm hunmarked (by omega)
  · -- There is one call: the others that have its name are methods.
    rw [Option.mem_toList] at hm
    have hname := h.invoke m hm
    have hinit : ¬ 0 < d.constructors.countP fun other =>
        methodName other.name == methodName m.name := by
      intro hpos
      exact absurd (hname.symm.trans (eq_init_of_countP_pos h hpos).1) (by decide)
    have hsingle : (d.invoke.toList.countP fun other =>
        methodName other.name == methodName m.name) ≤ 1 := by
      rw [hm]
      exact List.countP_le_length
    dsimp only at hshares ⊢
    rw [sharing_eq] at hshares
    have hmethods : 0 < d.methods.countP fun other =>
        methodName other.name == methodName m.name := by omega
    rw [hname] at hmethods ⊢
    exact .call (Option.isSome_iff_ne_none.mp (Option.isSome_of_mem hm))
      (exists_method_named (Or.inr rfl) hmethods)

/-! ## Marks -/

/-- The block of a type that was read ends with its definitions, each with its marks before it. The
mark of an overload is there for definitions that share their name in the stub and for no other
ones, except for those that are overlooked, where it is missing. -/
theorem overloads_of_ofValue {α : Type} [Readable α] {path : Path} {v : α} {manifest : Manifest}
    (h : Manifest.ofValue path v = .ok manifest) (hd : d ∈ manifest.types) (meaning : Meaning) :
    bodyLines meaning d =
      d.values.map (fun value => identifier value ++ ": " ++ identifier d.name)
        ++ d.fields.map (fieldLine meaning) ++ d.properties.flatMap (propertyLines meaning)
        ++ (definitions d).flatMap (fun x => methodLines meaning x.marked x.method) ∧
    (∀ x ∈ definitions d, ∃ after,
      methodLine meaning x.method = "def " ++ methodName x.method.name ++ "(" ++ after) ∧
    ∀ x ∈ definitions d,
      2 ≤ sharing d x.method.name ↔ x.marked = true ∨ Overlooked d x.method.name := by
  have hnamed := Manifest.wellNamed_of_ofValue h hd
  refine ⟨bodyLines_eq meaning d, fun x _ => methodLine_eq meaning x.method, fun x hx => ?_⟩
  constructor
  · intro hshares
    cases hmarked : x.marked with
    | true => exact Or.inl rfl
    | false => exact Or.inr (overlooked_of_two_le_sharing hnamed hx hmarked hshares)
  · rintro (hmarked | hoverlooked)
    · exact two_le_sharing_of_marked hx hmarked
    · exact two_le_sharing_of_overlooked hnamed hoverlooked

/-! ## Names that come together -/

/-- A type that has one constructor and declares methods of given names. -/
def withMethods (names : List String) : Document :=
  .mapping [(.text "name", .text "A"), (.text "types", .list [.mapping [
    (.text "name", .text "N.T"), (.text "constructors", .list [.mapping []]),
    (.text "methods", .list (names.map fun name => .mapping [(.text "name", .text name)]))]])]

/-- The definitions of that type: the name each declares, whether it is marked, and how many share
its name. -/
def marks? (names : List String) : Option (List (String × Bool × Nat)) :=
  (Manifest.ofValue ⟨.relative, ["X.yaml"]⟩ (withMethods names)).toOption.bind fun m =>
    m.types.head?.map fun d =>
      (definitions d).map fun x => (x.method.name, x.marked, sharing d x.method.name)

theorem exists_of_marks? {names : List String} {view : List (String × Bool × Nat)}
    (h : marks? names = some view) : ∃ manifest d,
      Manifest.ofValue ⟨.relative, ["X.yaml"]⟩ (withMethods names) = .ok manifest ∧
      d ∈ manifest.types ∧
      (definitions d).map (fun x => (x.method.name, x.marked, sharing d x.method.name)) = view := by
  obtain ⟨manifest, hmanifest, h⟩ := Option.bind_eq_some_iff.mp h
  obtain ⟨d, hd, rfl⟩ := Option.map_eq_some_iff.mp h
  exact ⟨manifest, d, eq_ok_of_toOption hmanifest, List.mem_of_mem_head? hd, rfl⟩

theorem mixed_evaluated :
    marks? ["f", "f", "__init__", "is", "is_"] =
      some [("__init__", false, 2), ("f", true, 2), ("f", true, 2), ("__init__", false, 2),
        ("is", false, 2), ("is_", false, 2)] := by
  decide +kernel

/-- Each definition of the type shares its name with another one, and those without a mark are
overlooked. -/
theorem overloads_of_ofValue_mixed : ∃ manifest d,
    Manifest.ofValue ⟨.relative, ["X.yaml"]⟩ (withMethods ["f", "f", "__init__", "is", "is_"]) =
      .ok manifest ∧ d ∈ manifest.types ∧
    (definitions d).map (fun x => (x.method.name, x.marked, sharing d x.method.name)) =
      [("__init__", false, 2), ("f", true, 2), ("f", true, 2), ("__init__", false, 2),
        ("is", false, 2), ("is_", false, 2)] ∧
    ∀ x ∈ definitions d, x.marked = true ∨ Overlooked d x.method.name := by
  obtain ⟨manifest, d, hmanifest, hd, hview⟩ := exists_of_marks? mixed_evaluated
  refine ⟨manifest, d, hmanifest, hd, hview, fun x hx => ?_⟩
  have hmem := List.mem_map_of_mem
    (f := fun x : Definition => (x.method.name, x.marked, sharing d x.method.name)) hx
  have htwo : ∀ row ∈ [("__init__", false, 2), ("f", true, 2), ("f", true, 2),
      ("__init__", false, 2), ("is", false, 2), ("is_", false, 2)], row.2.2 = 2 := by decide
  rw [hview] at hmem
  exact ((overloads_of_ofValue hmanifest hd fun _ => none).2.2 x hx).mp (htwo _ hmem).ge

theorem named_evaluated :
    marks? ["__init__"] = some [("__init__", false, 2), ("__init__", false, 2)] := by
  decide +kernel

/-- The method that is named like the constructor shares its name, and neither of them is marked. -/
theorem overload_unmarked : ¬ ∀ (v : Document) (manifest : Manifest) (d : TypeDecl),
    Manifest.ofValue ⟨.relative, ["X.yaml"]⟩ v = .ok manifest → d ∈ manifest.types →
    ∀ x ∈ definitions d, (x.marked = true ↔ 2 ≤ sharing d x.method.name) := by
  intro hall
  obtain ⟨manifest, d, hmanifest, hd, hview⟩ := exists_of_marks? named_evaluated
  have hfirst : ("__init__", false, 2) ∈
      (definitions d).map fun x => (x.method.name, x.marked, sharing d x.method.name) := by
    rw [hview]
    exact List.mem_cons_self
  obtain ⟨x, hx, hrow⟩ := List.mem_map.mp hfirst
  simp only [Prod.mk.injEq] at hrow
  have hmarked := (hall _ manifest d hmanifest hd x hx).mpr hrow.2.2.ge
  rw [hrow.2.1] at hmarked
  cases hmarked

end StubTree.Stub
