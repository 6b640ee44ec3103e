import StubTree.CommandLine.Run
import StubTree.Proofs.Disk.Overlooked
import StubTree.Proofs.Document.Legible
import StubTree.Proofs.Session.Loading

/-! # Reports that programs can read

A run that reports a document says nothing else on the standard output, whichever way it was told
to be quiet or not to be. In a file the document stands alone, unless the path of the file leads
through a directory that is made for the report: a file at the end of such a path is not removed
beforehand, and keeps its bytes in front.
-/

namespace StubTree

/-! ## The disk of a run -/

namespace Plan

variable {p : Plan} {s s' : Stage}

/-- A round that ends well takes no directory away, and gives no location a second entry. -/
theorem Round.disk (h : p.Round s s') :
    s.disk.Keeps s'.disk ∧ (s.disk.Distinct → s'.disk.Distinct) := by
  cases h with
  | skipped => exact ⟨⟨rfl, fun _ h => h⟩, id⟩
  | @emitted e _ _ _ directory made disk _ _ _ _ _ hmade _ _ hwrite =>
      have hkeeps := (Disk.extends_makeDirectories s.disk directory).keeps
      have hdistinct := fun h : s.disk.Distinct => h.makeDirectories directory
      rw [hmade] at hkeeps hdistinct
      obtain ⟨l, -, hentry, rfl⟩ := Disk.write_eq_ok hwrite
      exact ⟨hkeeps.trans (Disk.keeps_put_file hentry _), fun h => (hdistinct h).put l _⟩

theorem Run.disk (h : p.Run s s') :
    s.disk.Keeps s'.disk ∧ (s.disk.Distinct → s'.disk.Distinct) := by
  let inv (last : Stage) : Prop :=
    s.disk.Keeps last.disk ∧ (s.disk.Distinct → last.disk.Distinct)
  have hinv : inv s := ⟨⟨rfl, fun _ h => h⟩, id⟩
  have hround : ∀ {t t'}, p.Round t t' → inv t → inv t' := fun hround hlast =>
    ⟨hlast.1.trans hround.disk.1, fun h => hround.disk.2 (hlast.2 h)⟩
  exact h.preserves hround hinv

end Plan

namespace Session

variable {s : Session} {disk : Disk} {destination : Path} {targets searchPaths : List Path}
  {onlyTargetTypes : Option Document} {g : Generation}

/-- What a build with a result did to the disk, and that it is as quiet as its options say. -/
theorem build_disk
    (h : (s.build disk destination targets searchPaths onlyTargetTypes).result = .ok g) :
    disk.Keeps (s.build disk destination targets searchPaths onlyTargetTypes).disk ∧
      (disk.Distinct →
        (s.build disk destination targets searchPaths onlyTargetTypes).disk.Distinct) ∧
      (s.build disk destination targets searchPaths onlyTargetTypes).session.options.quiet =
        s.options.quiet := by
  obtain ⟨loaded, names, said, hloading, hbuild⟩ := exists_loading h
  rw [hbuild] at h ⊢
  obtain ⟨last, hrun, -, hgenerate⟩ := generate_eq_ok h
  obtain ⟨only, hoptions⟩ := hloading.options
  rw [hgenerate]
  refine ⟨hrun.disk.1, hrun.disk.2, ?_⟩
  change loaded.options.quiet = s.options.quiet
  rw [hoptions]

theorem spoken_of_quiet (h : s.options.quiet = true) (said : List Progress) : s.spoken said = "" :=
  if_pos h

end Session

namespace CommandLine.GenerateRequest

open Text (plain plain_of_legible Legible legible_toList_append)

variable {r : GenerateRequest} {disk disk' : Disk} {elapsed : Number.Binary64}
  {format : Document.Format} {g : Generated} {path : Path} {s out : String}

/-! ## The two halves of a run -/

theorem quiet_options {o : Options} (h : r.options disk = .ok o)
    (hdocument : (r.format != .listing && r.report.isNone) = true) : o.quiet = true := by
  rw [options, hdocument] at h
  split at h
  · cases h
    exact Bool.or_true _
  · obtain ⟨o', -, h⟩ := exists_of_bind_eq_ok h
    cases h
    exact Bool.or_true _

/-- What the first half of a run leaves that ends well. -/
theorem start_eq_ok (h : r.start disk = .ok g) :
    disk.Keeps g.disk ∧ (disk.Distinct → g.disk.Distinct) ∧
      ((r.format != .listing && r.report.isNone) = true → g.output = "") := by
  rw [start] at h
  split at h
  · cases h
  split at h
  · cases h
  split at h
  · cases h
  next o hoptions =>
    rw [build] at h
    split at h
    · cases h
    next generation hresult =>
      cases h
      obtain ⟨hkeeps, hdistinct, hquiet⟩ := Session.build_disk hresult
      refine ⟨hkeeps, hdistinct, fun hdocument => Session.spoken_of_quiet ?_ _⟩
      exact hquiet.trans (quiet_options hoptions hdocument)

theorem sink_eq_file (h : r.sink = .ok (.file path)) :
    ∃ given, r.report = some given ∧ (given.suffix ≠ "" ∧ path = given ∨
      given.suffix = "" ∧ given.withSuffix? ("." ++ r.format.name) = some path) := by
  rw [sink] at h
  split at h
  · cases h
  next given hreport =>
    refine ⟨given, hreport, ?_⟩
    split at h
    next hsuffix =>
      cases h
      exact Or.inl ⟨bne_iff_ne.mp hsuffix, rfl⟩
    next hsuffix =>
      split at h
      next hpath =>
        cases h
        exact Or.inr ⟨by simpa using hsuffix, hpath⟩
      · cases h

/-- The report of an earlier run is removed, if its path denotes one. -/
theorem clearedFor_file (hnul : path.hasNul = false)
    (h : clearedFor disk (.file path) = .ok disk') : disk' = disk.removeFile path := by
  obtain ⟨entry, hprobe, h⟩ := exists_of_bind_eq_ok h
  rw [Disk.probe, hnul, if_neg Bool.false_ne_true] at hprobe
  cases hlocate : disk.locate path with
  | error =>
      rw [hlocate] at hprobe
      rw [Disk.removeFile, hlocate]
      split at hprobe
      next heq => cases heq
      next => cases hprobe
      next =>
        cases hprobe
        cases h
        rfl
  | ok l =>
      rw [hlocate] at hprobe
      cases hprobe
      rw [Disk.removeFile_of_locate hlocate]
      split at h
      next hfile =>
        cases h
        rw [Disk.removeFile_of_locate hlocate]
      next hfile =>
        cases h
        rw [if_neg hfile]

theorem writeLine_file (h : (Report.Sink.file path).writeLine disk s = (disk', .ok out)) :
    out = "" ∧ ∃ made, disk.makeDirectories path.parent = (made, none) ∧
      made.append path (plain s ++ "\n").toUTF8 = .ok disk' := by
  rw [Report.Sink.writeLine] at h
  split at h
  · cases h
  next made hmade =>
    split at h
    · cases h
    next appended happend =>
      cases h
      exact ⟨rfl, made, hmade, happend⟩

/-- A line in a file that was cleared stands behind what the path overlooks. -/
theorem read_writeLine (hdistinct : disk.Distinct) {cleared : Disk}
    (hcleared : clearedFor disk (.file path) = .ok cleared)
    (h : (Report.Sink.file path).writeLine cleared s = (disk', .ok out)) :
    out = "" ∧ disk'.read path = .ok (disk.overlooked path ++ (plain s ++ "\n").toUTF8) := by
  obtain ⟨hout, made, hmade, happend⟩ := writeLine_file h
  have hlocate := (Disk.append_eq_ok happend).1
  obtain rfl := clearedFor_file (Disk.locateFor_eq_ok.mp hlocate).1 hcleared
  have hextends := Disk.extends_makeDirectories (disk.removeFile path) path.parent
  rw [hmade] at hextends
  have hlanding : made.landing path = disk.landing path :=
    Disk.landing_of_home (hextends.home.trans (disk.home_removeFile path)) path
  refine ⟨hout, ?_⟩
  rw [Disk.read_append happend, hlanding, hextends.held, Disk.held_removeFile hdistinct]

/-! ## Runs -/

theorem exitCode_ofFault (disk : Disk) (output : String) (fault : Fault) :
    (Outcome.ofFault disk output fault).exitCode = 1 := by
  rw [Outcome.ofFault]
  split <;> rfl

theorem exitCode_ofComplaint? {outcome : Outcome} {complaint : Except Fault (Option PathComplaint)}
    (h : Outcome.ofComplaint? disk complaint = some outcome) : outcome.exitCode = 1 := by
  unfold Outcome.ofComplaint? at h
  split at h <;> cases h <;> rfl

theorem exitCode_of_start_eq_error {outcome : Outcome} (h : r.start disk = .error outcome) :
    outcome.exitCode = 1 := by
  rw [start] at h
  split at h
  next htargets =>
    cases h
    exact exitCode_ofComplaint? htargets
  split at h
  next hdestination =>
    cases h
    exact exitCode_ofComplaint? hdestination
  split at h
  · cases h
    exact exitCode_ofFault _ _ _
  · rw [build] at h
    split at h
    · cases h
      exact exitCode_ofFault _ _ _
    · cases h

/-- A run that ends well handed over its report, and then its totals. -/
theorem run_wrote (hexit : (r.run disk elapsed).exitCode = 0) :
    ∃ g sink cleared reported last report totals, r.start disk = .ok g ∧ r.sink = .ok sink ∧
      clearedFor g.disk sink = .ok cleared ∧
      g.generation.report r.format sink cleared = (reported, .ok report) ∧
      g.generation.close elapsed r.format sink reported = (last, .ok totals) ∧
      r.run disk elapsed =
        { exitCode := 0, disk := last, output := g.output ++ report ++ totals } := by
  rw [run] at hexit ⊢
  split at hexit
  next hstart =>
    rw [exitCode_of_start_eq_error hstart] at hexit
    cases hexit
  next g hstart =>
    rw [hstart]
    rw [finish] at hexit ⊢
    split at hexit
    · cases hexit
    next sink cleared hprepare =>
      obtain ⟨sink', hsink, hprepare⟩ := exists_of_bind_eq_ok hprepare
      obtain ⟨cleared', hcleared, hprepare⟩ := exists_of_bind_eq_ok hprepare
      cases hprepare
      split at hexit
      · cases hexit
      next reported report hreport =>
        split at hexit
        · cases hexit
        next last totals hclose =>
          exact ⟨g, sink, cleared, reported, last, report, totals, rfl, hsink, hcleared, hreport,
            hclose, rfl⟩

/-- A run that reports a document and ends well wrote one line, the document. -/
theorem run_eq_ok (hformat : r.format = .document format)
    (hexit : (r.run disk elapsed).exitCode = 0) :
    ∃ g sink cleared text last out, r.start disk = .ok g ∧ r.sink = .ok sink ∧
      clearedFor g.disk sink = .ok cleared ∧ g.generation.document.serialize format = .ok text ∧
      sink.writeLine cleared text = (last, .ok out) ∧
      r.run disk elapsed = { exitCode := 0, disk := last, output := g.output ++ out } := by
  obtain ⟨g, sink, cleared, reported, last, report, totals, hstart, hsink, hcleared, hreport,
    hclose, hrun⟩ := run_wrote hexit
  rw [hformat] at hreport hclose
  cases hclose
  rw [String.append_empty] at hrun
  cases hserialize : g.generation.document.serialize format with
  | error fault =>
      simp only [Generation.report, Generation.content, hserialize] at hreport
      cases hreport
  | ok text =>
      simp only [Generation.report, Generation.content, hserialize] at hreport
      exact ⟨g, sink, cleared, text, reported, report, hstart, hsink, hcleared, hserialize, hreport,
        hrun⟩

/-- A run that reports a document and ends well. Without a file the standard output is the document
and a line end, with no styling in it. In the file, which has the ending of the format if it was
named without one, the document and a line end stand behind what the path overlooked before the
report, and alone if all directories on the way to it were there when the run began. -/
theorem run_document (hdistinct : disk.Distinct) (hformat : r.format = .document format)
    (hexit : (r.run disk elapsed).exitCode = 0) :
    ∃ g text, r.start disk = .ok g ∧ g.generation.document.serialize format = .ok text ∧
      plain (text ++ "\n") = text ++ "\n" ∧
      (r.report = none → (r.run disk elapsed).output = text ++ "\n") ∧
      ∀ given, r.report = some given → ∃ path,
        (given.suffix ≠ "" ∧ path = given ∨
          given.suffix = "" ∧ given.withSuffix? ("." ++ format.name) = some path) ∧
        (r.run disk elapsed).disk.read path =
          .ok (g.disk.overlooked path ++ (text ++ "\n").toUTF8) ∧
        ((∃ l, disk.locate path = .ok l) →
          (r.run disk elapsed).disk.read path = .ok (text ++ "\n").toUTF8) := by
  obtain ⟨g, sink, cleared, text, last, out, hstart, hsink, hcleared, hserialize, hline, hrun⟩ :=
    run_eq_ok hformat hexit
  obtain ⟨hkeeps, hdisk, hsilent⟩ := start_eq_ok hstart
  have htext : Legible text.toList := Document.legible_serialize hserialize
  have hplain : plain (text ++ "\n") = text ++ "\n" :=
    plain_of_legible (legible_toList_append.mpr ⟨htext, by decide⟩)
  refine ⟨g, text, hstart, hserialize, hplain, ?_, ?_⟩
  · intro hreport
    have houtput : g.output = "" := hsilent (by simp [hformat, hreport])
    rw [GenerateRequest.sink, hreport] at hsink
    cases hsink
    cases hline
    rw [hrun, houtput, String.empty_append]
  · intro given hreport
    cases sink with
    | output =>
        rw [GenerateRequest.sink, hreport] at hsink
        dsimp only at hsink
        split at hsink
        · cases hsink
        · split at hsink <;> cases hsink
    | file path =>
        obtain ⟨given', hgiven', hpath⟩ := sink_eq_file hsink
        obtain rfl := Option.some.inj (hgiven'.symm.trans hreport)
        rw [hformat] at hpath
        obtain ⟨-, hread⟩ := read_writeLine (hdisk hdistinct) hcleared hline
        rw [plain_of_legible htext] at hread
        rw [hrun]
        refine ⟨path, hpath, hread, ?_⟩
        rintro ⟨l, hl⟩
        dsimp only
        rw [hread, Disk.overlooked, hkeeps.locate hl, ByteArray.empty_append]

/-! ## Reports where a file stands -/

/-- A manifest with one type, and files where reports of earlier runs would be. -/
def reportDisk : Disk :=
  ⟨["w"], [(["w"], .directory),
    (["w", "A.yaml"], .file "name: A\ntypes:\n- name: N.T".toUTF8),
    (["w", "old.yaml"], .file "old".toUTF8)]⟩

/-- A report in YAML to a file. -/
def reportRequest (report : Path) : GenerateRequest where
  targets := [⟨.relative, ["A.yaml"]⟩]
  destination := ⟨.relative, ["stubs"]⟩
  searchPaths := []
  builtins := []
  onlyTargetTypes := none
  config := none
  report := some report
  format := .document .yaml
  quiet := false

set_option maxRecDepth 100000 in
/-- The report of an earlier run is replaced, also where the ending of its name is left out. -/
theorem run_document_replaced :
    reportDisk.Distinct ∧
    ((reportRequest ⟨.relative, ["old"]⟩).run reportDisk .zero).exitCode = 0 ∧
    ∃ g text, (reportRequest ⟨.relative, ["old"]⟩).start reportDisk = .ok g ∧
      g.generation.document.serialize .yaml = .ok text ∧
      ((reportRequest ⟨.relative, ["old"]⟩).run reportDisk .zero).disk.read
        ⟨.relative, ["old.yaml"]⟩ = .ok (text ++ "\n").toUTF8 := by
  have hdistinct : reportDisk.Distinct := by
    rw [Disk.Distinct]
    decide
  have hexit : ((reportRequest ⟨.relative, ["old"]⟩).run reportDisk .zero).exitCode = 0 := by
    decide +kernel
  have hlocate :
      (reportDisk.locate ⟨.relative, ["old.yaml"]⟩).toOption = some ["w", "old.yaml"] := by
    decide +kernel
  obtain ⟨g, text, hstart, hserialize, -, -, hfile⟩ := run_document hdistinct rfl hexit
  obtain ⟨path, hpath, -, halone⟩ := hfile ⟨.relative, ["old"]⟩ rfl
  refine ⟨hdistinct, hexit, g, text, hstart, hserialize, ?_⟩
  rcases hpath with ⟨hsuffix, -⟩ | ⟨-, hpath⟩
  · exact absurd (by decide +kernel) hsuffix
  · obtain rfl : (⟨.relative, ["old.yaml"]⟩ : Path) = path := Option.some.inj hpath
    exact halone ⟨_, eq_ok_of_toOption hlocate⟩

set_option maxRecDepth 100000 in
/-- A report named by way of a directory that is not there goes behind what the file held. -/
theorem run_document_behind :
    ((reportRequest ⟨.relative, ["new", "..", "old.yaml"]⟩).run reportDisk .zero).exitCode = 0 ∧
    ∃ g text, (reportRequest ⟨.relative, ["new", "..", "old.yaml"]⟩).start reportDisk = .ok g ∧
      g.generation.document.serialize .yaml = .ok text ∧
      ((reportRequest ⟨.relative, ["new", "..", "old.yaml"]⟩).run reportDisk .zero).disk.read
        ⟨.relative, ["old.yaml"]⟩ = .ok ("old" ++ text ++ "\n").toUTF8 ∧
      ("old" ++ text ++ "\n").toUTF8 ≠ (text ++ "\n").toUTF8 := by
  have hevaluated :
      ((reportRequest ⟨.relative, ["new", "..", "old.yaml"]⟩).run reportDisk .zero).exitCode = 0 ∧
      ((reportRequest ⟨.relative, ["new", "..", "old.yaml"]⟩).start reportDisk).toOption.any
        (fun g => (g.generation.document.serialize .yaml).toOption.any fun text =>
          ((reportRequest ⟨.relative, ["new", "..", "old.yaml"]⟩).run reportDisk .zero).disk.read
            ⟨.relative, ["old.yaml"]⟩ |>.toOption.any fun bytes =>
              bytes = ("old" ++ text ++ "\n").toUTF8 ∧ bytes ≠ (text ++ "\n").toUTF8) = true := by
    decide +kernel
  obtain ⟨hexit, hread⟩ := hevaluated
  obtain ⟨g, hstart, hread⟩ := (Option.any_eq_true _ _).mp hread
  obtain ⟨text, hserialize, hread⟩ := (Option.any_eq_true _ _).mp hread
  obtain ⟨bytes, hbytes, hread⟩ := (Option.any_eq_true _ _).mp hread
  obtain ⟨rfl, hother⟩ := of_decide_eq_true hread
  exact ⟨hexit, g, text, eq_ok_of_toOption hstart, eq_ok_of_toOption hserialize,
    eq_ok_of_toOption hbytes, hother⟩

end CommandLine.GenerateRequest

end StubTree
