import Mathlib.Data.List.Infix
import StubTree.Document.Shape
import StubTree.Text.Blank
import StubTree.Text.Pieces

/-! # The grammar of manifests

Which values describe a binary, said key by key. No order of checks comes in, and nothing of what is
made of a value. Of a key that is not mentioned nothing is asked.
-/

namespace StubTree.Grammar

open Readable (shape lookup?)

variable {α : Type} [Readable α]

abbrev Entries (α : Type) := List (α × α)

/-! ## Values -/

def isNull (v : α) : Bool :=
  match shape v with
  | .null => true
  | _ => false

def bool? (v : α) : Option Bool :=
  match shape v with
  | .bool b => some b
  | _ => none

def text? (v : α) : Option String :=
  match shape v with
  | .text s => some s
  | _ => none

def items? (v : α) : Option (List α) :=
  match shape v with
  | .list items => some items
  | _ => none

def entries? (v : α) : Option (Entries α) :=
  match shape v with
  | .mapping entries => some entries
  | _ => none

abbrev IsFlag (v : α) : Prop := (bool? v).isSome = true

/-- A text with a character that is no blank. -/
abbrev IsName (v : α) : Prop := ∃ s ∈ text? v, s.toList.any fun c => !Text.isBlank c

abbrev IsWord (words : List String) (v : α) : Prop := ∃ s ∈ text? v, s ∈ words

/-- The name of a type, or two brackets behind it for a list of that type. There are no lists of
nothing. -/
def IsReference (s : String) : Prop :=
  let name := Text.trim s.toList
  let listed := Text.trim (name.take (name.length - 2))
  name ≠ [] ∧ ("[]".toList <:+ name → listed ≠ [] ∧ listed ≠ "void".toList)

instance : DecidablePred IsReference := fun _ => inferInstanceAs (Decidable (_ ∧ (_ → _ ∧ _)))

abbrev IsRef (v : α) : Prop := ∃ s ∈ text? v, IsReference s

/-- A text that, without the blanks around it, is segments between dots, none of them empty. -/
abbrev IsNamespace (v : α) : Prop :=
  ∃ s ∈ text? v, Text.strip s ≠ "" ∧ "" ∉ Text.split '.' (Text.strip s)

/-- A value that can be written as a text. A whole number can be too long for that. -/
abbrev IsWritable (v : α) : Prop := (Readable.shown? v).isSome = true

section

variable (P : α → Prop) (Q : Entries α → Prop)

abbrev OrNull (v : α) : Prop := isNull v = true ∨ P v

/-- Nothing, or a list of such values. -/
def Items (v : α) : Prop := OrNull (fun v => ∃ items ∈ items? v, ∀ item ∈ items, P item) v

def Mapping (v : α) : Prop := ∃ entries ∈ entries? v, Q entries

/-- The key is there, and its value is such. -/
def Has (key : String) (entries : Entries α) : Prop := ∃ v ∈ lookup? key entries, P v

/-- If the key is there, its value is such. -/
def May (key : String) (entries : Entries α) : Prop := ∀ v ∈ lookup? key entries, P v

variable [DecidablePred P] [DecidablePred Q]

instance : DecidablePred (Items P) := fun _ =>
  inferInstanceAs (Decidable (_ ∨ ∃ _ ∈ _, ∀ _ ∈ _, P _))

instance : DecidablePred (Mapping Q) := fun _ => inferInstanceAs (Decidable (∃ _ ∈ _, Q _))

instance (key : String) : DecidablePred (Has P key) := fun _ =>
  inferInstanceAs (Decidable (∃ _ ∈ _, P _))

instance (key : String) : DecidablePred (May P key) := fun _ =>
  inferInstanceAs (Decidable (∀ _ ∈ _, P _))

end

/-! ## Members -/

def ParameterEntries (entries : Entries α) : Prop :=
  Has IsName "name" entries ∧ Has IsRef "type" entries

def FieldEntries (entries : Entries α) : Prop :=
  Has IsName "name" entries ∧ Has IsRef "type" entries ∧ May IsFlag "static" entries

def PropertyEntries (entries : Entries α) : Prop :=
  FieldEntries entries ∧ May IsFlag "readonly" entries

/-- What a method takes and returns, where parameters are mappings of a given kind. -/
def Signature (Q : Entries α → Prop) (entries : Entries α) : Prop :=
  May (Items (Mapping Q)) "parameters" entries ∧ May (OrNull IsRef) "returns" entries ∧
    May IsFlag "static" entries

def MethodEntries (Q : Entries α → Prop) (entries : Entries α) : Prop :=
  Has IsName "name" entries ∧ Signature Q entries

instance : DecidablePred (ParameterEntries (α := α)) := fun _ => inferInstanceAs (Decidable (_ ∧ _))

instance : DecidablePred (FieldEntries (α := α)) := fun _ => inferInstanceAs (Decidable (_ ∧ _ ∧ _))

instance : DecidablePred (PropertyEntries (α := α)) := fun _ => inferInstanceAs (Decidable (_ ∧ _))

instance (Q : Entries α → Prop) [DecidablePred Q] : DecidablePred (Signature Q) := fun _ =>
  inferInstanceAs (Decidable (_ ∧ _ ∧ _))

instance (Q : Entries α → Prop) [DecidablePred Q] : DecidablePred (MethodEntries Q) := fun _ =>
  inferInstanceAs (Decidable (_ ∧ _))

/-! ## Types -/

def kindWords : List String := ["class", "struct", "interface", "enum", "delegate"]

def visibilityWords : List String := ["public", "internal"]

/-- What a type is called and what it is. -/
def Heading (entries : Entries α) : Prop :=
  Has IsName "name" entries ∧ May (OrNull IsNamespace) "namespace" entries ∧
    May (IsWord kindWords) "kind" entries ∧ May (IsWord visibilityWords) "visibility" entries

/-- The members of a type, where parameters are mappings of a given kind. -/
def Members (Q : Entries α → Prop) (entries : Entries α) : Prop :=
  May (Items (Mapping FieldEntries)) "fields" entries ∧
    May (Items (Mapping PropertyEntries)) "properties" entries ∧
    May (Items (Mapping (MethodEntries Q))) "methods" entries ∧
    May (Items (Mapping (Signature Q))) "constructors" entries

def Outline (Q : Entries α → Prop) (entries : Entries α) : Prop :=
  Heading entries ∧ Members Q entries

abbrev Says (key word : String) (entries : Entries α) : Prop := Has (IsWord [word]) key entries

/-- How a delegate is called. What counts as absent says that it takes and returns nothing. -/
def Invoke (v : α) : Prop := (shape v).isVoid = true ∨ Mapping (Signature ParameterEntries) v

/-- The bases of a type, the values of an enum, and how a delegate is called. Other types have no
values, and what they say of how they are called does not count. -/
def Remainder (entries : Entries α) : Prop :=
  May (OrNull IsRef) "base" entries ∧ May (Items IsRef) "interfaces" entries ∧
    May (Items IsName) "values" entries ∧
    (Says "kind" "enum" entries ∨ May (Items fun _ => False) "values" entries) ∧
    (Says "kind" "delegate" entries → May Invoke "invoke" entries)

instance : DecidablePred (Heading (α := α)) := fun _ =>
  inferInstanceAs (Decidable (_ ∧ _ ∧ _ ∧ _))

instance (Q : Entries α → Prop) [DecidablePred Q] : DecidablePred (Members Q) := fun _ =>
  inferInstanceAs (Decidable (_ ∧ _ ∧ _ ∧ _))

instance (Q : Entries α → Prop) [DecidablePred Q] : DecidablePred (Outline Q) := fun _ =>
  inferInstanceAs (Decidable (_ ∧ _))

/-- All that is asked of a type. -/
def TypeEntries (entries : Entries α) : Prop := Outline ParameterEntries entries ∧ Remainder entries

instance : DecidablePred (Invoke (α := α)) := fun _ => inferInstanceAs (Decidable (_ ∨ _))

instance : DecidablePred (Remainder (α := α)) := fun _ =>
  inferInstanceAs (Decidable (_ ∧ _ ∧ _ ∧ (_ ∨ _) ∧ (_ → _)))

instance : DecidablePred (TypeEntries (α := α)) := fun _ => inferInstanceAs (Decidable (_ ∧ _))

def textAt? (key : String) (entries : Entries α) : Option String := (lookup? key entries).bind text?

/-- The full name of a type: its name behind its namespace, if it gives one, and else its name as it
stands. -/
def fullName? (v : α) : Option String := do
  let entries ← entries? v
  let name ← textAt? "name" entries
  match textAt? "namespace" entries with
  | some space => return Text.strip space ++ "." ++ Text.strip name
  | none => return Text.strip name

/-- The items of a list have full names that are different from one another. -/
abbrev Distinct (v : α) : Prop :=
  ∀ items ∈ items? v, items.Pairwise fun a b => fullName? a ≠ fullName? b

/-! ## Manifests -/

/-- What is asked of a manifest, where types are mappings of a given kind. -/
def Description (T : Entries α → Prop) (entries : Entries α) : Prop :=
  Has IsName "name" entries ∧ May (Items IsName) "references" entries ∧
    May (Items (Mapping T)) "types" entries ∧ May Distinct "types" entries

instance (T : Entries α → Prop) [DecidablePred T] : DecidablePred (Description T) := fun _ =>
  inferInstanceAs (Decidable (_ ∧ _ ∧ _ ∧ _))

/-- All that is asked of a manifest. -/
def Describes (v : α) : Prop :=
  Mapping (fun entries => Description TypeEntries entries ∧ May IsWritable "version" entries) v

/-- What is left when nothing is asked of versions and parameters, of bases, interfaces and values,
and of how delegates are called. -/
def Outlines (v : α) : Prop := Mapping (Description (Outline fun _ => True)) v

instance : DecidablePred (Describes (α := α)) := fun _ =>
  inferInstanceAs (Decidable (Mapping (fun entries => Description TypeEntries entries ∧ _) _))

instance : DecidablePred (Outlines (α := α)) := fun _ =>
  inferInstanceAs (Decidable (Mapping (Description (Outline fun _ => True)) _))

end StubTree.Grammar
