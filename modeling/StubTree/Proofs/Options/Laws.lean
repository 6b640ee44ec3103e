import StubTree.Proofs.Options.Merging

/-! # Laws of options

However options came about, overrides that hold nothing leave them as they are; overrides one after
the other do what they do at once, the later before the earlier; and a mapping that lists the
options is read as just these.
-/

namespace StubTree.Options

open Readable (shape)

variable {α : Type} [Readable α] {o : Options} {name : String} {entries : List (α × α)}
  {settings : Keyed String α}

/-! ## Options as a mapping -/

/-- A text that is a name, but for dashes in place of some of its underscores. -/
def IsDashed (key name : String) : Prop :=
  List.Forall₂ (fun c c' => c = c' ∨ c = '-' ∧ c' = '_') key.toList name.toList

instance (key name : String) : Decidable (IsDashed key name) :=
  inferInstanceAs (Decidable (List.Forall₂ _ _ _))

/-- A mapping that lists options: every entry tells what is stored under the name that it spells,
and no option is left out. -/
structure Lists (entries : List (α × α)) (o : Options) : Prop where
  of_entry : ∀ entry ∈ entries, ∃ key name d, shape entry.1 = .text key ∧ IsDashed key name ∧
    o.value? name = some d ∧ Tells entry.2 d
  complete : ∀ name ∈ names, ∃ entry ∈ entries, ∃ key, shape entry.1 = .text key ∧
    IsDashed key name

/-- Settings that tell what options store. -/
def Telling (settings : Keyed String α) (o : Options) : Prop :=
  ∀ name v, Keyed.get? name settings = some v → ∃ d, o.value? name = some d ∧ Tells v d

theorem map_of_forall₂ {cs ds : List Char}
    (h : List.Forall₂ (fun c c' => c = c' ∨ c = '-' ∧ c' = '_') cs ds) (hplain : '-' ∉ ds) :
    cs.map (fun c => if c == '-' then '_' else c) = ds := by
  induction h with
  | nil => rfl
  | cons hchar _ ih =>
      rw [List.mem_cons, not_or] at hplain
      rw [List.map_cons, ih hplain.2]
      rcases hchar with rfl | ⟨rfl, rfl⟩
      · simp [Ne.symm hplain.1]
      · rfl

theorem nameOf_of_isDashed {v : α} {key : String} (hshape : shape v = .text key)
    (hdashed : IsDashed key name) (hname : name ∈ names) : nameOf v = .ok name := by
  have hplain : ∀ name ∈ names, '-' ∉ name.toList := by decide
  rw [nameOf, Readable.shown?, hshape]
  simp only [map_of_forall₂ hdashed (hplain name hname), String.ofList_toList]

/-- The settings that a mapping spells, with those that a later one replaces. -/
def named (entries : List (α × α)) : Keyed String α :=
  entries.filterMap fun entry => (nameOf entry.1).toOption.map (·, entry.2)

theorem mem_named {v : α} :
    (name, v) ∈ named entries ↔ ∃ key, (key, v) ∈ entries ∧ nameOf key = .ok name := by
  rw [named, List.mem_filterMap]
  constructor
  · rintro ⟨⟨key, w⟩, hentry, hnamed⟩
    obtain ⟨_, hname, heq⟩ := Option.map_eq_some_iff.mp hnamed
    cases heq
    exact ⟨key, hentry, eq_ok_of_toOption hname⟩
  · rintro ⟨key, hentry, hname⟩
    exact ⟨(key, v), hentry, by rw [hname]; rfl⟩

theorem spelled_eq (h : ∀ entry ∈ entries, ∃ name, nameOf entry.1 = .ok name) :
    spelled entries = .ok (Keyed.update [] (named entries)) := by
  suffices hfrom : ∀ acc : Keyed String α,
      entries.foldlM (fun acc entry => return Keyed.set (← nameOf entry.1) entry.2 acc) acc =
        (.ok (Keyed.update acc (named entries)) : Except Fault (Keyed String α)) from hfrom []
  induction entries with
  | nil => exact fun _ => rfl
  | cons entry rest ih =>
      intro acc
      obtain ⟨key, v⟩ := entry
      obtain ⟨name, hname⟩ := h (key, v) List.mem_cons_self
      have hnamed : named ((key, v) :: rest) = (name, v) :: named rest := by
        rw [named, List.filterMap_cons, hname]
        rfl
      rw [List.foldlM_cons, hnamed, hname]
      exact ih (fun other hother => h other (List.mem_cons_of_mem _ hother)) _

theorem Lists.exists_spelled (h : Lists entries o) :
    ∃ settings, spelled entries = .ok settings ∧ settings.keys.Nodup ∧ Telling settings o ∧
      ∀ name ∈ names, name ∈ settings.keys := by
  have hentries : ∀ entry ∈ entries, ∃ name d, nameOf entry.1 = .ok name ∧
      o.value? name = some d ∧ Tells entry.2 d := by
    intro entry hentry
    obtain ⟨key, name, d, hkey, hdashed, hvalue, htells⟩ := h.of_entry entry hentry
    exact ⟨name, d, nameOf_of_isDashed hkey hdashed (Keyed.mem_keys_of_get? hvalue), hvalue, htells⟩
  have hnamed : ∀ entry ∈ entries, ∃ name, nameOf entry.1 = .ok name := by
    intro entry hentry
    obtain ⟨name, _, hname, -⟩ := hentries entry hentry
    exact ⟨name, hname⟩
  have hnone : (Keyed.keys ([] : Keyed String α)).Nodup := List.nodup_nil
  refine ⟨_, spelled_eq hnamed, Keyed.nodup_keys_update hnone _, ?_, ?_⟩
  · intro name v hv
    rcases Keyed.get?_update_eq_some hv with hnone | hmem
    · cases hnone
    obtain ⟨key, hentry, hname⟩ := mem_named.mp hmem
    obtain ⟨name', d, hname', hvalue, htells⟩ := hentries _ hentry
    rw [hname] at hname'
    cases hname'
    exact ⟨d, hvalue, htells⟩
  · intro name hname
    obtain ⟨⟨key, v⟩, hentry, text, hkey, hdashed⟩ := h.complete name hname
    have hspelled := mem_named.mpr ⟨key, hentry, nameOf_of_isDashed hkey hdashed hname⟩
    exact Keyed.mem_keys_update.mpr (Or.inr (Keyed.mem_keys_of_mem hspelled))

/-- Settings that tell what every option stores make these options. -/
theorem Valid.ofSettings_of_telling (h : o.Valid) (hnodup : settings.keys.Nodup)
    (htelling : Telling settings o) (hall : ∀ name ∈ names, name ∈ settings.keys) :
    ofSettings settings = .ok o := by
  have hown : ownWord ∉ settings.keys := by
    intro hmem
    obtain ⟨v, hv⟩ := Keyed.exists_get?_of_mem_keys hmem
    obtain ⟨d, hd, -⟩ := htelling ownWord v hv
    cases hd
  have hset : Options.setAll {} settings = .ok o := by
    refine (setAll_eq_ok_iff hnodup).mpr fun name => ?_
    dsimp only
    cases hv : Keyed.get? name settings with
    | none =>
        have hunknown : name ∉ names := fun hname => Keyed.get?_eq_none_iff.mp hv (hall name hname)
        simp only [value?_eq_none_iff.mpr hunknown]
    | some v =>
        obtain ⟨d, hvalue, htells⟩ := htelling name v hv
        exact ⟨d, h.checked_of_tells hvalue htells, hvalue⟩
  rw [ofSettings, refuseOwnWord_of_not_mem hown, hset]
  rfl

/-- A mapping that lists options is read as these. -/
theorem Valid.ofValue_of_lists (h : o.Valid) (path : Path) {v : α}
    (hshape : shape v = .mapping entries) (hlists : Lists entries o) : ofValue path v = .ok o := by
  obtain ⟨settings, hspelled, hnodup, htelling, hall⟩ := hlists.exists_spelled
  rw [ofValue, hshape]
  simp only [hspelled]
  exact h.ofSettings_of_telling hnodup htelling hall

/-- A file whose mapping lists options is read as these. -/
theorem Valid.load_of_lists (h : o.Valid) {disk : Disk} {path : Path} {bytes : ByteArray}
    {text : String} {v : SharedValue} {entries : List (SharedValue × SharedValue)}
    (hread : disk.read path = .ok bytes) (htext : String.fromUTF8? bytes = some text)
    (hyaml : Yaml.read (.ofText text) = .ok v) (hshape : shape v = .mapping entries)
    (hlists : Lists entries o) : load disk path = .ok o := by
  have hbytes : disk.readFor path (.option ∘ .unreadable path) = .ok bytes := by
    rw [Disk.readFor, hread]
    rfl
  have hvalue : readValue (.ofText text) (.option ∘ .notYaml path) = .ok v := by
    rw [readValue, hyaml]
    rfl
  refine bind_eq_ok_iff.mpr ⟨bytes, hbytes, ?_⟩
  rw [htext]
  exact bind_eq_ok_iff.mpr ⟨(), rfl,
    bind_eq_ok_iff.mpr ⟨v, hvalue, h.ofValue_of_lists path hshape hlists⟩⟩

/-! ## All options -/

/-- Options that come from settings, from a file, or from others by overrides. -/
inductive Obtained : Options → Prop
  | settings {α : Type} [Readable α] {settings : Keyed String α} {o : Options}
      (h : ofSettings settings = .ok o) : Obtained o
  | file {disk : Disk} {path : Path} {o : Options} (h : load disk path = .ok o) : Obtained o
  | merged {α : Type} [Readable α] {overrides : Keyed String α} {o o' : Options} (ho : Obtained o)
      (h : o.merged overrides = .ok o') : Obtained o'

theorem Obtained.valid (h : Obtained o) : o.Valid := by
  induction h with
  | settings h => exact valid_of_ofSettings h
  | file h => exact valid_of_load h
  | merged _ h ih => exact ih.merged h

/-- What holds of options whatever way they came about. Options are values: what is made of them
leaves them as they are. -/
structure Lawful (o : Options) : Prop where
  unchanged : ∀ {α : Type} [Readable α] (overrides : Keyed String α),
    (∀ entry ∈ overrides, isGiven entry.2 = false) → ownWord ∉ overrides.keys →
      o.merged overrides = .ok o
  remade : ∀ {α : Type} [Readable α] (overrides : Keyed String α), overrides.keys.Nodup →
    ownWord ∉ overrides.keys → o.merged overrides = ofSettings (o.overlaid overrides)
  listed : ∀ {α : Type} [Readable α] (path : Path) (v : α) (entries : List (α × α)),
    shape v = .mapping entries → Lists entries o → ofValue path v = .ok o
  read : ∀ (disk : Disk) (path : Path) (bytes : ByteArray) (text : String) (v : SharedValue)
    (entries : List (SharedValue × SharedValue)), disk.read path = .ok bytes →
      String.fromUTF8? bytes = some text → Yaml.read (.ofText text) = .ok v →
        shape v = .mapping entries → Lists entries o → load disk path = .ok o
  chained : ∀ {α : Type} [Readable α] (x y : Keyed String α) (o₁ : Options), x.keys.Nodup →
    y.keys.Nodup → ownWord ∉ y.keys → o.merged x = .ok o₁ →
      (∃ o', o₁.merged y = .ok o' ∧ o.merged (overridden x y) = .ok o') ∨
        ∃ fault fault', o₁.merged y = .error (.option fault) ∧
          o.merged (overridden x y) = .error (.option fault')

/-- Options obey these laws whatever way they came about. -/
theorem lawful_of_obtained (h : Obtained o) : Lawful o where
  unchanged _ hnothing howner := merged_eq_self hnothing howner
  remade _ hnodup howner := h.valid.merged_eq_ofSettings hnodup howner
  listed path _ _ hshape hlists := h.valid.ofValue_of_lists path hshape hlists
  read _ _ _ _ _ _ hread htext hyaml hshape hlists :=
    h.valid.load_of_lists hread htext hyaml hshape hlists
  chained _ _ _ hx hy howner hmerged := merged_merged_agree hx hy howner hmerged

/-! ## Options of a file, with a name changed -/

def dashedFile : Disk :=
  ⟨[], [(["options.yaml"], .file "quiet: true\nbuiltin-binaries: core".toUTF8)]⟩

def fileOptions : Options := { builtinBinaries := ["core"], quiet := true }

def renamedOptions : Options := { fileOptions with stubFileName := "stubs.pyi" }

/-- The options by dashed keys, in another order. -/
def dashedEntries : List (Document × Document) :=
  [(.text "stub-file-name", .text "stubs.pyi"), (.text "quiet", .bool true),
    (.text "builtin-binaries", .list [.text "core"]), (.text "only_target-types", .bool false),
    (.text "manifest_suffix", .text ".yaml")]

theorem lists_dashedEntries : Lists dashedEntries renamedOptions where
  of_entry entry hentry := by
    simp only [dashedEntries, List.mem_cons, List.not_mem_nil, or_false] at hentry
    rcases hentry with rfl | rfl | rfl | rfl | rfl
    · exact ⟨_, "stub_file_name", _, rfl, by decide, rfl, .text rfl⟩
    · exact ⟨_, "quiet", _, rfl, by decide, rfl, .flag rfl⟩
    · exact ⟨_, "builtin_binaries", _, rfl, by decide, rfl, .names rfl (.cons rfl .nil)⟩
    · exact ⟨_, "only_target_types", _, rfl, by decide, rfl, .flag rfl⟩
    · exact ⟨_, "manifest_suffix", _, rfl, by decide, rfl, .text rfl⟩
  complete name hname := by
    simp only [names, List.mem_cons, List.not_mem_nil, or_false] at hname
    rcases hname with rfl | rfl | rfl | rfl | rfl
    · exact ⟨(.text "only_target-types", .bool false), by simp [dashedEntries], _, rfl, by decide⟩
    · exact ⟨(.text "builtin-binaries", .list [.text "core"]), by simp [dashedEntries], _, rfl,
        by decide⟩
    · exact ⟨(.text "stub-file-name", .text "stubs.pyi"), by simp [dashedEntries], _, rfl,
        by decide⟩
    · exact ⟨(.text "manifest_suffix", .text ".yaml"), by simp [dashedEntries], _, rfl, by decide⟩
    · exact ⟨(.text "quiet", .bool true), by simp [dashedEntries], _, rfl, by decide⟩

/-- Overrides that give a value to one option, and none to a name of no option. -/
def loud : Keyed String Document := [("quiet", .bool false), ("colour", .null)]

/-- Overrides that leave what came before them as it is. -/
def bare : Keyed String Document := [("quiet", .null), ("builtin_binaries", .list [])]

theorem lawful_of_obtained_renamed :
    Obtained renamedOptions ∧
    renamedOptions.merged [("quiet", Document.null), ("colour", .null)] = .ok renamedOptions ∧
    ofValue ⟨.root, ["dashed.yaml"]⟩ (Document.mapping dashedEntries) = .ok renamedOptions ∧
    ∃ o₁ o', renamedOptions.merged loud = .ok o₁ ∧ o₁.merged bare = .ok o' ∧
      renamedOptions.merged [("quiet", Document.bool false), ("colour", .null),
        ("builtin_binaries", .list [])] = .ok o' := by
  have hfile : load dashedFile ⟨.root, ["options.yaml"]⟩ = .ok fileOptions :=
    eq_ok_of_toOption (by decide +kernel)
  have hrenamed : fileOptions.merged [("stub_file_name", Document.text "stubs.pyi")] =
      .ok renamedOptions := eq_ok_of_toOption (by decide +kernel)
  have hobtained : Obtained renamedOptions := .merged (.file hfile) hrenamed
  have hlaws := lawful_of_obtained hobtained
  have hloud : renamedOptions.merged loud = .ok { renamedOptions with quiet := false } :=
    eq_ok_of_toOption (by decide +kernel)
  have hbare : Options.merged { renamedOptions with quiet := false } bare =
      .ok { renamedOptions with quiet := false, builtinBinaries := [] } :=
    eq_ok_of_toOption (by decide +kernel)
  refine ⟨hobtained, hlaws.unchanged _ (by decide) (by decide),
    hlaws.listed _ _ _ rfl lists_dashedEntries, _, _, hloud, hbare, ?_⟩
  rcases hlaws.chained loud bare _ (by decide) (by decide) (by decide) hloud with
    ⟨o', hlater, honce⟩ | ⟨_, _, hlater, -⟩
  · rw [hbare] at hlater
    cases hlater
    exact honce
  · rw [hbare] at hlater
    cases hlater

end StubTree.Options
