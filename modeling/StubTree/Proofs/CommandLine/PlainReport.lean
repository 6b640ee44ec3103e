import StubTree.Proofs.CommandLine.Report
import StubTree.Proofs.Loader.Passage
import StubTree.Proofs.Report.Elapsed
import StubTree.Proofs.Text.ControlSequences
import StubTree.Proofs.Text.Sorted

/-! # Reports without styling

A report file gets what stripping leaves. A document has no escape at all, whatever it names, and
no more has the line with the totals. A listing shows names as they are, between the control
sequences that style it: a control sequence is left in the file exactly if the listing held one
that was broken, and none is left where no name holds an escape.
-/

namespace StubTree

open Text Text.Ansi

/-! ## What is styled -/

namespace Elapsed

theorem legible_secondsText (units : Nat) : Legible (secondsText units).toList :=
  legible_toList_append.mpr ⟨Number.Binary64.legible_brief _, by decide⟩

theorem legible_fieldText {mark : Char} (h : IsLegible mark) (n : Option Nat) :
    Legible (fieldText mark n) := by
  cases n with
  | none => exact legible_nil
  | some n => exact legible_append.mpr ⟨Number.legible_digitsOf n, legible_cons.mpr ⟨h, by decide⟩⟩

theorem legible_unitsText (units : Nat) : Legible (unitsText units).toList := by
  rw [toList_unitsText, legible_append, legible_append]
  exact ⟨legible_fieldText (by decide) _, legible_fieldText (by decide) _, legible_secondsText _⟩

theorem legible_text {x : Number.Binary64} {s : String} (h : text x = .ok s) :
    Legible s.toList := by
  have hbrief : ∀ x : Number.Binary64, Legible (x.brief ++ "s").toList := fun x =>
    legible_toList_append.mpr ⟨x.legible_brief, by decide⟩
  rw [text.eq_def] at h
  split at h
  · rw [← Except.ok.inj h]
    exact legible_unitsText _
  · rw [← Except.ok.inj h]
    exact hbrief _
  · rw [← Except.ok.inj h]
    exact hbrief _
  · cases h
  · cases h

end Elapsed

namespace Generation

variable {g : Generation} {elapsed : Number.Binary64} {s : String}

/-- The names and paths that a listing shows. -/
def shown (g : Generation) : List String :=
  g.files.flatMap (fun (space, f) => f.path.text :: space.moduleName :: f.types)
    ++ g.skipped.map (·.moduleName)

theorem isStyled_listing (h : ∀ s ∈ g.shown, '\x1b' ∉ s.toList) : IsStyled g.listing.toList := by
  obtain ⟨hfiles, hskipped⟩ := List.forall_mem_append.mp h
  refine isStyled_intercalate (isStyled_of_not_mem (by decide))
    (List.forall_mem_append.mpr ⟨?_, ?_⟩)
  · intro line hline
    obtain ⟨⟨space, f⟩, hmem, hline⟩ := List.mem_flatMap.mp hline
    have hfile := fun s hs =>
      hfiles s (List.mem_flatMap.mpr ⟨(space, f), List.mem_mergeSort.mp hmem, hs⟩)
    obtain ⟨hpath, hfile⟩ := List.forall_mem_cons.mp hfile
    obtain ⟨hmodule, htypes⟩ := List.forall_mem_cons.mp hfile
    rcases List.mem_cons.mp hline with rfl | hline
    · exact isStyled_toList_append (isStyled_toList_append (isStyled_paint _ hpath)
        (isStyled_of_not_mem (by decide))) (isStyled_paint _ hmodule)
    · obtain ⟨name, hname, rfl⟩ := List.mem_map.mp hline
      exact isStyled_toList_append (isStyled_of_not_mem (by decide))
        (isStyled_of_not_mem (htypes name hname))
  · intro line hline
    obtain ⟨moduleName, hmodule, rfl⟩ := List.mem_map.mp hline
    exact isStyled_toList_append (isStyled_toList_append (isStyled_paint _ (by decide))
      (isStyled_of_not_mem (by decide)))
      (isStyled_of_not_mem (hskipped moduleName (mem_sorted.mp hmodule)))

theorem isStyled_tally (n : Nat) {noun : String} (h : Legible noun.toList) :
    IsStyled (tally n noun).toList := by
  refine isStyled_paint _ (Legible.escape_not_mem ?_)
  refine legible_toList_append.mpr ⟨legible_toList_append.mpr ⟨legible_toList_append.mpr
    ⟨Number.legible_natText n, by decide⟩, h⟩, ?_⟩
  split <;> decide

theorem isStyled_totals (h : g.totals elapsed = .ok s) : IsStyled s.toList := by
  obtain ⟨time, htime, h⟩ := exists_of_bind_eq_ok h
  cases h
  have hword : ∀ word : String, Legible word.toList → IsStyled word.toList := fun _ hlegible =>
    isStyled_of_not_mem hlegible.escape_not_mem
  exact isStyled_toList_append (isStyled_toList_append (isStyled_toList_append
    (isStyled_toList_append (isStyled_toList_append (hword _ (by decide))
      (isStyled_tally _ (by decide))) (hword _ (by decide))) (isStyled_tally _ (by decide)))
    (hword _ (by decide))) (hword _ (Elapsed.legible_text htime))

end Generation

/-! ## What stands in a report file -/

theorem Disk.held_of_read {d : Disk} {p : Path} {bytes : ByteArray} (h : d.read p = .ok bytes) :
    d.held (d.landing p) = bytes := by
  obtain ⟨l, hl, hfile⟩ := exists_file_of_read h
  obtain rfl := locate_eq_landing (locateFor_eq_ok.mp hl).2
  rw [held, hfile]

namespace CommandLine.GenerateRequest

variable {r : GenerateRequest} {disk disk' : Disk} {elapsed : Number.Binary64} {path given : Path}
  {s out : String} {before : ByteArray} {sink : Report.Sink}

/-- A line in a file that is there stands behind what the file held. -/
theorem read_writeLine_of_read (hread : disk.read path = .ok before)
    (h : (Report.Sink.file path).writeLine disk s = (disk', .ok out)) :
    disk'.read path = .ok (before ++ (plain s ++ "\n").toUTF8) := by
  obtain ⟨-, made, hmade, happend⟩ := writeLine_file h
  have hextends := Disk.extends_of_makeDirectories hmade
  rw [Disk.read_append happend, Disk.landing_of_home hextends.home, hextends.held,
    Disk.held_of_read hread]

theorem exists_file_of_sink (h : r.sink = .ok sink) (hreport : r.report = some given) :
    ∃ path, sink = .file path := by
  rw [GenerateRequest.sink, hreport] at h
  dsimp only at h
  split at h
  · exact ⟨_, (Except.ok.inj h).symm⟩
  · split at h
    · exact ⟨_, (Except.ok.inj h).symm⟩
    · cases h

/-- What a run that ends well writes into its report file. -/
inductive Writes (g : Generation) (elapsed : Number.Binary64) : Report.Format → String → Prop
  | document {format text} (h : g.document.serialize format = .ok text) :
      Writes g elapsed (.document format) (text ++ "\n")
  | listing {totals} (h : g.totals elapsed = .ok totals) :
      Writes g elapsed .listing (plain g.listing ++ "\n" ++ (plain totals ++ "\n"))

theorem run_writes (hdistinct : disk.Distinct) (hexit : (r.run disk elapsed).exitCode = 0)
    (hreport : r.report = some given) :
    ∃ g path written, r.start disk = .ok g ∧ r.sink = .ok (.file path) ∧
      Writes g.generation elapsed r.format written ∧
      (r.run disk elapsed).disk.read path = .ok (g.disk.overlooked path ++ written.toUTF8) := by
  obtain ⟨g, sink, cleared, reported, last, report, totals, hstart, hsink, hcleared, hline, hclose,
    hrun⟩ := run_wrote hexit
  obtain ⟨path, rfl⟩ := exists_file_of_sink hsink hreport
  obtain ⟨-, hdisk, -⟩ := start_eq_ok hstart
  rw [hrun]
  cases hformat : r.format with
  | document format =>
      rw [hformat] at hline hclose
      cases hclose
      cases hserialize : g.generation.document.serialize format with
      | error fault =>
          simp only [Generation.report, Generation.content, hserialize] at hline
          cases hline
      | ok text =>
          simp only [Generation.report, Generation.content, hserialize] at hline
          obtain ⟨-, hread⟩ := read_writeLine (hdisk hdistinct) hcleared hline
          rw [plain_of_legible (Document.legible_serialize hserialize)] at hread
          exact ⟨g, path, _, hstart, hsink, .document hserialize, hread⟩
  | listing =>
      rw [hformat] at hline hclose
      obtain ⟨-, hread⟩ := read_writeLine (hdisk hdistinct) hcleared hline
      rw [Generation.close] at hclose
      split at hclose
      · cases hclose
      next closing htotals =>
        refine ⟨g, path, _, hstart, hsink, .listing htotals, ?_⟩
        rw [read_writeLine_of_read hread hclose, ByteArray.append_assoc]
        rfl

/-- Of all that is written into a report file only the names in a listing may leave a control
sequence, and only if one was broken among them. -/
theorem Writes.holds_iff {g : Generation} {format : Report.Format} {written : String}
    (h : Writes g elapsed format written) :
    Holds written.toList ↔ format = .listing ∧ HoldsBroken g.listing.toList := by
  cases h with
  | document htext =>
      refine iff_of_false (fun hholds => ?_) (fun h => by cases h.1)
      have hlegible := legible_toList_append.mpr ⟨Document.legible_serialize htext,
        (by decide : Legible "\n".toList)⟩
      exact hlegible.escape_not_mem hholds.escape_mem
  | @listing totals htotals =>
      have hstyled : '\x1b' ∉ strip totals.toList := Generation.isStyled_totals htotals
      have hend : ¬ Holds ('\n' :: (strip totals.toList ++ ['\n'])) := fun hholds => by
        simpa [hstyled] using hholds.escape_mem
      have hsplit : (plain g.listing ++ "\n" ++ (plain totals ++ "\n")).toList =
          strip g.listing.toList ++ '\n' :: (strip totals.toList ++ ['\n']) := by
        simp [plain]
      rw [hsplit, holds_append_control (by decide), or_iff_left hend, holds_strip_iff]
      simp

/-- What stripping leaves, and what a run that ends well leaves in its report file. Stripping takes
out exactly the control sequences that stand in a text, so one is left exactly if the text held a
broken one, and only then does stripping again take out more. The report file holds what was
written behind the bytes that its path overlooked, and what was written holds a control sequence
exactly if it is a listing that held a broken one; it holds none if no name in the listing holds
an escape. -/
theorem run_stripped (s : String) :
    ((∃ cut : Cut, cut.AtSequences s.toList ∧ (plain s).toList = cut.joined) ∧
      (Holds (plain s).toList ↔ HoldsBroken s.toList) ∧
      (plain (plain s) = plain s ↔ ¬ Holds (plain s).toList)) ∧
    ∀ {r : GenerateRequest} {disk : Disk} {elapsed : Number.Binary64} {given : Path},
      disk.Distinct → (r.run disk elapsed).exitCode = 0 → r.report = some given →
      ∃ (g : Generated) (path : Path) (written : String), r.start disk = .ok g ∧
        r.sink = .ok (.file path) ∧ (r.run disk elapsed).disk.read path =
          .ok (g.disk.overlooked path ++ written.toUTF8) ∧
        ((∃ l, disk.locate path = .ok l) → g.disk.overlooked path = .empty) ∧
        (Holds written.toList ↔ r.format = .listing ∧ HoldsBroken g.generation.listing.toList) ∧
        ((∀ s ∈ g.generation.shown, '\x1b' ∉ s.toList) → ¬ Holds written.toList) := by
  refine ⟨?_, fun {r disk elapsed given} hdistinct hexit hreport => ?_⟩
  · have htext : (plain s).toList = strip s.toList := String.toList_ofList
    obtain ⟨cut, hcut⟩ := Cut.exists_atSequences s.toList
    refine ⟨⟨cut, hcut, htext.trans hcut.joined_eq.symm⟩, ?_, ?_⟩
    · rw [htext, holds_strip_iff]
    · rw [← strip_eq_self_iff, ← String.toList_inj, plain, String.toList_ofList]
  · obtain ⟨g, path, written, hstart, hsink, hwrites, hread⟩ := run_writes hdistinct hexit hreport
    obtain ⟨hkeeps, -, -⟩ := start_eq_ok hstart
    refine ⟨g, path, written, hstart, hsink, hread, ?_, hwrites.holds_iff, fun hnames hholds => ?_⟩
    · rintro ⟨l, hl⟩
      rw [Disk.overlooked, hkeeps.locate hl]
    · obtain ⟨-, hbroken⟩ := hwrites.holds_iff.mp hholds
      exact (Generation.isStyled_listing hnames).not_holds (holds_strip_iff.mpr hbroken)

/-- A manifest whose only type has a broken control sequence in its name. -/
def brokenNameDisk : Disk :=
  ⟨["w"], [(["w"], .directory),
    (["w", "A.yaml"], .file "name: A\ntypes:\n- name: \"N.\\e[\\e[0m0mT\"".toUTF8)]⟩

/-- A listing to a file. -/
def listingRequest : GenerateRequest where
  targets := [⟨.relative, ["A.yaml"]⟩]
  destination := ⟨.relative, ["stubs"]⟩
  searchPaths := []
  builtins := []
  onlyTargetTypes := none
  config := none
  report := some ⟨.relative, ["r.txt"]⟩
  format := .listing
  quiet := true

set_option maxRecDepth 100000 in
/-- A listing of names without escapes is stripped for good. -/
theorem run_stripped_names :
    plain (plain "\x1b[1mT\x1b[0m") = plain "\x1b[1mT\x1b[0m" ∧ reportDisk.Distinct ∧
    (listingRequest.run reportDisk .zero).exitCode = 0 ∧
    ∃ (g : Generated) (written : String), listingRequest.start reportDisk = .ok g ∧
      (∀ s ∈ g.generation.shown, '\x1b' ∉ s.toList) ∧
      (listingRequest.run reportDisk .zero).disk.read ⟨.relative, ["r.txt"]⟩ =
        .ok (g.disk.overlooked ⟨.relative, ["r.txt"]⟩ ++ written.toUTF8) ∧
      ¬ Holds written.toList := by
  have hdistinct : reportDisk.Distinct := by
    rw [Disk.Distinct]
    decide
  have hreport : listingRequest.report = some ⟨.relative, ["r.txt"]⟩ := rfl
  have hexit : (listingRequest.run reportDisk .zero).exitCode = 0 := by decide +kernel
  have hnames : ((listingRequest.start reportDisk).toOption.any fun g =>
      decide (∀ s ∈ g.generation.shown, '\x1b' ∉ s.toList)) = true := by decide +kernel
  have hplain : ¬ Holds (plain "\x1b[1mT\x1b[0m").toList := by decide +kernel
  obtain ⟨g, path, written, hstart, hsink, hread, -, -, hfree⟩ :=
    (run_stripped "\x1b[1mT\x1b[0m").2 hdistinct hexit hreport
  obtain ⟨g', hstart', hnames⟩ := (Option.any_eq_true _ _).mp hnames
  obtain rfl := Except.ok.inj (hstart.symm.trans (eq_ok_of_toOption hstart'))
  obtain rfl : (⟨.relative, ["r.txt"]⟩ : Path) = path :=
    Report.Sink.file.inj (Except.ok.inj hsink)
  exact ⟨(run_stripped _).1.2.2.mpr hplain, hdistinct, hexit, g, written, hstart,
    of_decide_eq_true hnames, hread, hfree (of_decide_eq_true hnames)⟩

set_option maxRecDepth 100000 in
/-- Stripping joins a broken control sequence, and a report file holds one then. -/
theorem run_not_stripped :
    Holds (plain "\x1b[\x1b[0m0m").toList ∧
    plain (plain "\x1b[\x1b[0m0m") ≠ plain "\x1b[\x1b[0m0m" ∧
    (listingRequest.run brokenNameDisk .zero).exitCode = 0 ∧
    ∃ written : String, (listingRequest.run brokenNameDisk .zero).disk.read ⟨.relative, ["r.txt"]⟩ =
      .ok written.toUTF8 ∧ Holds written.toList := by
  have hread : ((listingRequest.run brokenNameDisk .zero).disk.read
      ⟨.relative, ["r.txt"]⟩).toOption = some
        ("stubs/N/__init__.pyi: N\n    \x1b[0mT\n"
          ++ "Wrote 1 stub file with 1 type in 0s\n").toUTF8 := by
    decide +kernel
  exact ⟨by decide +kernel, by decide +kernel, by decide +kernel, _, eq_ok_of_toOption hread,
    by decide +kernel⟩

end CommandLine.GenerateRequest

end StubTree
