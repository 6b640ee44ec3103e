import Mathlib.Data.String.Basic
import StubTree.Proofs.Keyed
import StubTree.Stub.Text

/-! # What a stub shows

The lines of the import block come from the references of the declarations and from their marks
alone, and every declaration starts with its class statement.
-/

namespace StubTree.Stub

variable {meaning : Meaning} {space : Namespace} {types : List (Meaning × TypeDecl)}
  {t : TypeId} {d : TypeDecl} {i : Import}

/-! ## Identifiers -/

/-- Two names are written alike only if they are equal or one is kept and the other one is what is
written for it. -/
theorem identifier_eq_iff {a b : String} : identifier a = identifier b ↔
    a = b ∨ (a ∈ keywords ∧ b = a ++ "_") ∨ (b ∈ keywords ∧ a = b ++ "_") := by
  have hfree : ∀ kept ∈ keywords, kept ++ "_" ∉ keywords := by decide +kernel
  rw [identifier, identifier]
  split
  next ha =>
    split
    next hb =>
      rw [String.append_left_inj]
      refine ⟨Or.inl, ?_⟩
      rintro (heq | ⟨-, rfl⟩ | ⟨-, rfl⟩)
      · exact heq
      · exact absurd hb (hfree a ha)
      · exact absurd ha (hfree b hb)
    next hb =>
      constructor
      · exact fun heq => Or.inr (Or.inl ⟨ha, heq.symm⟩)
      · rintro (rfl | ⟨-, heq⟩ | ⟨hb', -⟩)
        · exact absurd ha hb
        · exact heq.symm
        · exact absurd hb' hb
  next ha =>
    split
    next hb =>
      constructor
      · exact fun heq => Or.inr (Or.inr ⟨hb, heq⟩)
      · rintro (rfl | ⟨ha', -⟩ | ⟨-, heq⟩)
        · exact absurd hb ha
        · exact absurd ha' ha
        · exact heq
    next hb =>
      refine ⟨Or.inl, ?_⟩
      rintro (heq | ⟨ha', -⟩ | ⟨hb', -⟩)
      · exact heq
      · exact absurd ha' ha
      · exact absurd hb' hb

/-- Names with two underscores in front are written as they are, for none of them is kept. -/
theorem methodName_eq_identifier (name : String) : methodName name = identifier name := by
  have hkept : ∀ kept ∈ keywords, "__".toList.isPrefixOf kept.toList = false := by decide +kernel
  rw [methodName]
  split
  next hfront =>
    rw [identifier, if_neg]
    intro hmem
    rw [hkept name hmem] at hfront
    cases hfront
  next => rfl

/-! ## The import block -/

/-- The imports that the declarations of a stub want, in order and as often as they do. -/
def wantedImports (space : Namespace) (types : List (Meaning × TypeDecl)) : List Import :=
  types.flatMap fun (meaning, d) => importsOf meaning space d

/-- The lines of an import block: modules, each with the names that are imported from it. -/
def importLines (space : Namespace) (types : List (Meaning × TypeDecl)) :
    List (String × List String) :=
  let wanted := bySource (wantedImports space types)
  (Text.sorted wanted.keys).map fun source =>
    (source, Text.sortedDistinct ((wanted.get? source).getD []))

theorem mem_bySource_foldl {imports : List Import} {acc : Keyed String (List String)} :
    i.name ∈ ((imports.foldl (fun acc i =>
        Keyed.set i.source ((Keyed.get? i.source acc).getD [] ++ [i.name]) acc) acc).get?
          i.source).getD [] ↔
      i.name ∈ ((acc.get? i.source).getD []) ∨ i ∈ imports := by
  induction imports generalizing acc with
  | nil => simp
  | cons first rest ih =>
      rw [List.foldl_cons, ih, List.mem_cons, ← or_assoc]
      refine or_congr_left ?_
      by_cases hsource : i.source = first.source
      · rw [hsource, Keyed.get?_set_self, Option.getD_some, List.mem_append, List.mem_singleton]
        refine or_congr_right ?_
        cases i
        cases first
        simp_all
      · rw [Keyed.get?_set_of_ne hsource]
        have hne : i ≠ first := fun heq => hsource (congrArg Import.source heq)
        simp [hne]

theorem mem_bySource {imports : List Import} :
    i.name ∈ ((bySource imports).get? i.source).getD [] ↔ i ∈ imports := by
  rw [bySource, mem_bySource_foldl]
  simp [Keyed.get?]

/-- What stands in the import block is what the declarations want. -/
theorem mem_wantedImports_of_importLines {line : String × List String} {name : String}
    (hline : line ∈ importLines space types) (hname : name ∈ line.2) :
    (⟨line.1, name⟩ : Import) ∈ wantedImports space types := by
  obtain ⟨source, -, rfl⟩ := List.mem_map.mp hline
  exact mem_bySource.mp (Text.mem_sortedDistinct.mp hname)

/-- The text of a stub, its import block written out line by line. -/
theorem text_eq (space : Namespace) (types : List (Meaning × TypeDecl)) :
    text space types = "\n\n".intercalate
      (header space ::
        (if (wantedImports space types).isEmpty then [] else ["\n".intercalate
          ((importLines space types).map fun line =>
            "from " ++ line.1 ++ " import " ++ ", ".intercalate line.2)]) ++
        types.map fun (meaning, d) => declaration meaning d) ++ "\n" := by
  rw [importLines, List.map_map]
  rfl

theorem importFor_eq_some {ref : TypeRef} : importFor meaning space ref = some i ↔
    ∃ u, meaning ref = some u ∧ u.space ≠ space ∧ i = ⟨u.space.moduleName, identifier u.name⟩ := by
  rw [importFor]
  split
  next hnone => simp [hnone]
  next u hmeaning =>
    rw [hmeaning]
    split
    next hspace => simp [hspace]
    next hspace =>
      simp only [Option.some.injEq, exists_eq_left', ne_eq, hspace, not_false_eq_true, true_and]
      exact eq_comm

theorem mem_markImports : i ∈ markImports d ↔
    (i = overloadImport ∧ (d.constructors.any (isOverloaded d.constructors) ||
      d.methods.any (isOverloaded d.methods)) = true) ∨
    (i = classVarImport ∧
      (d.fields.any (·.isStatic) || d.properties.any (·.isStatic)) = true) := by
  rw [markImports, List.mem_append, List.mem_ite_nil_right, List.mem_ite_nil_right,
    List.mem_singleton, List.mem_singleton]
  tauto

theorem mem_importsOf : i ∈ importsOf meaning space d ↔
    (∃ ref ∈ shownRefs d, ∃ u, meaning ref = some u ∧ u.space ≠ space ∧
      i = ⟨u.space.moduleName, identifier u.name⟩) ∨ i ∈ markImports d := by
  simp only [importsOf, List.mem_append, List.mem_filterMap, importFor_eq_some]

/-- An import that is not a mark stands for a reference to a type of another namespace. -/
theorem exists_ref_of_mem_importsOf (h : i ∈ importsOf meaning space d)
    (hoverload : i ≠ overloadImport) (hclassVar : i ≠ classVarImport) :
    ∃ ref ∈ shownRefs d, ∃ u, meaning ref = some u ∧ u.space ≠ space ∧
      i = ⟨u.space.moduleName, identifier u.name⟩ := by
  refine (mem_importsOf.mp h).resolve_right fun hmark => ?_
  exact (mem_markImports.mp hmark).elim (fun h => hoverload h.1) fun h => hclassVar h.1

/-! ## Declarations -/

/-- The types that the bases and annotations of a declaration name: those that its references mean,
and the declared type itself, of which its values are. -/
inductive Names (meaning : Meaning) (t : TypeId) (d : TypeDecl) : TypeId → Prop
  | reference {ref : TypeRef} {u : TypeId} (hshown : ref ∈ shownRefs d)
      (hmeaning : meaning ref = some u) : Names meaning t d u
  | value {value : String} (hvalue : value ∈ d.values) : Names meaning t d t

theorem hint_of_meaning {ref : TypeRef} {u : TypeId} (h : meaning ref = some u) :
    hint meaning ref =
      if ref.isArray then "list[" ++ identifier u.name ++ "]" else identifier u.name := by
  rw [hint, h]

/-! ## Class statements -/

/-- The text has a class statement for that name, at the start of a line. -/
def HasClass (text name : String) : Prop :=
  ∃ before, ∃ mark ∈ ["(", ":"], ∃ after,
    text = before ++ "\nclass " ++ identifier name ++ mark ++ after

theorem exists_headLine_eq (meaning : Meaning) (d : TypeDecl) :
    ∃ mark ∈ ["(", ":"], ∃ after,
      headLine meaning d = "class " ++ identifier d.name ++ mark ++ after := by
  by_cases hnone : (bases meaning d).isEmpty
  · refine ⟨":", by simp, "", ?_⟩
    rw [headLine, if_pos hnone]
    simp only [String.append_assoc, String.append_empty]
  · refine ⟨"(", by simp, ", ".intercalate (bases meaning d) ++ "):", ?_⟩
    rw [headLine, if_neg hnone]
    simp only [String.append_assoc]
    rfl

theorem exists_declaration_eq (meaning : Meaning) (d : TypeDecl) :
    ∃ mark ∈ ["(", ":"], ∃ after,
      declaration meaning d = "class " ++ identifier d.name ++ mark ++ after := by
  obtain ⟨mark, hmark, after, hhead⟩ := exists_headLine_eq meaning d
  refine ⟨mark, hmark, ?_⟩
  rw [declaration]
  split
  next => exact ⟨after ++ " ...", by rw [hhead, String.append_assoc]⟩
  next =>
    refine ⟨after ++ ("\n" ++ Text.indent margin ("\n".intercalate (bodyLines meaning d))), ?_⟩
    rw [hhead]
    simp only [String.append_assoc]

/-- A text that is joined to others before it stands behind a separator. -/
theorem exists_intercalate_eq (sep first : String) {rest : List String} {s : String}
    (h : s ∈ rest) :
    ∃ before after, sep.intercalate (first :: rest) = before ++ sep ++ s ++ after := by
  obtain ⟨former, later, rfl⟩ := List.append_of_mem h
  refine ⟨sep.intercalate (first :: former), sep.intercalate ("" :: later), ?_⟩
  have hlast : sep.intercalate (s :: later) = s ++ sep.intercalate ("" :: later) := by
    rw [← String.intercalate_cons_append, String.append_empty]
  rw [← List.cons_append, String.intercalate_append_of_ne_nil (List.cons_ne_nil _ _)
    (List.cons_ne_nil _ _), hlast, ← String.append_assoc]

/-- A stub has a class statement for each of its declarations. -/
theorem hasClass_text (h : (meaning, d) ∈ types) : HasClass (text space types) d.name := by
  obtain ⟨mark, hmark, more, hdeclaration⟩ := exists_declaration_eq meaning d
  have hmem : declaration meaning d ∈ types.map fun (meaning, d) => declaration meaning d :=
    List.mem_map_of_mem (f := fun (meaning, d) => declaration meaning d) h
  rw [text_eq, List.cons_append]
  obtain ⟨before, after, htext⟩ := exists_intercalate_eq "\n\n" (header space)
    (List.mem_append_right _ hmem)
  refine ⟨before ++ "\n", mark, hmark, more ++ after ++ "\n", ?_⟩
  rw [htext, hdeclaration]
  have hbreaks : ∀ s, "\n\n" ++ ("class " ++ s) = "\n" ++ ("\nclass " ++ s) := by
    intro s
    rw [← String.append_assoc, ← String.append_assoc]
    rfl
  simp only [String.append_assoc, hbreaks]

end StubTree.Stub
