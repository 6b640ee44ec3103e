import StubTree.Proofs.Loader.Growth

/-! # Calls for a binary

Loading a manifest, requiring an identity and following the references of an entry call one
another. Each is described by what it does to the loader, given the same of the calls it makes;
the depth of loading then goes by induction.
-/

namespace StubTree.Loader

variable {disk : Disk} {l l' l'' : Loader} {added more : Library} {m : Manifest}

/-- What holds of a call for a binary on every loader: it adds entries, and on a standard loader
its result, if there is one, is the root of what was added. -/
def Serves (disk : Disk) (direct : Path → Prop) (l : Loader)
    (outcome : Loader × Except Fault String) : Prop :=
  ∃ added, Adds disk l added outcome.1 ∧
    (l.IsStandard → ∀ root, outcome.2 = .ok root →
      Completes disk l direct added outcome.1.library root)

/-- What holds of requiring an identity. The link has the short name; on a standard loader it
leads to an entry. -/
def Supplies (disk : Disk) (l : Loader) (identity : String)
    (outcome : Loader × Except Fault Link) : Prop :=
  ∃ added, Adds disk l added outcome.1 ∧ ∀ link, outcome.2 = .ok link →
    link.name = shortName identity ∧
    (l.IsStandard → link = .held (shortName identity) ∧
      Completes disk l (fun _ => False) added outcome.1.library (shortName identity))

/-! ## Following references -/

theorem Completes.root_only {direct : Path → Prop} {root : String} {lib : Library}
    (h : root ∈ Keyed.keys lib) : Completes disk l direct [] lib root where
  held := h
  linked _ h := by cases h
  reached _ h := by cases h
  sources _ h := by cases h

/-- What following one more reference adds joins what was added before. -/
theorem Completes.append_link {name : String} {links : List Link}
    (h : Completes disk l (fun _ => False) added l'.library m.name)
    (hadds : Adds disk l ((m.name, ⟨m, links⟩) :: added) l')
    (hmore : Adds disk l' more l'')
    (hserved : Completes disk l' (fun _ => False) more l''.library name) :
    Completes disk l (fun _ => False) (added ++ more)
      (l''.addLink m.name (.held name)).library m.name := by
  have hall := hadds.trans hmore
  have hlibrary := library_addLink hall.library
    (hall.fresh m.name List.mem_cons_self) (.held name)
  have hkeys : Keyed.keys (l''.addLink m.name (.held name)).library = Keyed.keys l''.library := by
    rw [hlibrary, hall.library]
    simp
  have hmono := linksOf_subset_addLink l'' m.name (.held name)
  have hedge : Link.held name ∈
      (l''.addLink m.name (.held name)).library.linksOf (.held m.name) := by
    rw [hlibrary, Library.linksOf,
      Keyed.get?_append_of_not_mem (hall.fresh m.name List.mem_cons_self), Keyed.get?_cons,
      if_pos rfl]
    simp
  refine { held := ?_, linked := ?_, reached := ?_, sources := ?_ }
  · rw [hkeys]
    exact hmore.mem_keys h.held
  · intro entry hentry
    exact (List.mem_append.mp hentry).elim (h.linked entry) (hserved.linked entry)
  · intro other hother
    rw [Keyed.keys_append, List.mem_append] at hother
    rcases hother with hother | hother
    · exact (hmore.reaches (h.reached other hother)).mono hmono
    · exact Relation.ReflTransGen.head hedge ((hserved.reached other hother).mono hmono)
  · intro entry hentry
    rcases List.mem_append.mp hentry with hentry | hentry
    · exact h.sources entry hentry
    · exact Or.inr (hadds.foundAt_iff.mp ((hserved.sources entry hentry).resolve_left And.right))

/-- Following the references of an entry, from any of them on. The induction is on those that
are left; what was added so far is complete apart from the entry itself. -/
theorem linkAll_from {require : Loader → String → Loader × Except Fault Link}
    (hrequire : ∀ l identity, Supplies disk l identity (require l identity))
    {links : List Link} (followed : List String) {remaining : List String}
    (hreferences : m.references = followed ++ remaining)
    (hadds : Adds disk l ((m.name, ⟨m, links⟩) :: added) l')
    (hnames : links.map Link.name = followed.map shortName)
    (hstandard : l.IsStandard →
      links = followed.map (fun reference => .held (shortName reference)) ∧
      Completes disk l (fun _ => False) added l'.library m.name) :
    ∃ links added,
      Adds disk l ((m.name, ⟨m, links⟩) :: added) (linkAll require m.name remaining l').1 ∧
      (l.IsStandard → (linkAll require m.name remaining l').2 = .ok () →
        links = m.wantedLinks ∧ Completes disk l (fun _ => False) added
          (linkAll require m.name remaining l').1.library m.name) ∧
      (∀ fault, (linkAll require m.name remaining l').2 = .error fault →
        links.length < m.references.length) := by
  induction remaining generalizing l' links added followed with
  | nil =>
      refine ⟨links, added, hadds, ?_, fun _ h => by cases h⟩
      intro hstd _
      rw [List.append_nil] at hreferences
      rw [Manifest.wantedLinks, hreferences]
      exact hstandard hstd
  | cons reference rest ih =>
      obtain ⟨more, hmore, hresult⟩ := hrequire l' reference
      rw [linkAll]
      cases hcall : require l' reference with
      | mk last result =>
          rw [hcall] at hmore hresult
          have hall := hadds.trans hmore
          cases result with
          | error fault =>
              refine ⟨links, added ++ more, hall, (fun _ h => by cases h), ?_⟩
              intro _ _
              have hlength := congrArg List.length hnames
              rw [List.length_map, List.length_map] at hlength
              rw [hlength, hreferences, List.length_append, List.length_cons]
              omega
          | ok link =>
              obtain ⟨hname, hserved⟩ := hresult link rfl
              have hnext : (links ++ [link]).map Link.name =
                  (followed ++ [reference]).map shortName := by
                simp [hnames, hname]
              -- The call left the links of the entry alone, so the new one comes behind the last.
              apply ih (followed ++ [reference]) (by simpa using hreferences)
                (hall.addLink ?_ ?_) hnext
              · intro hstd
                obtain ⟨hlinks, hdone⟩ := hstandard hstd
                obtain ⟨rfl, hroot⟩ := hserved (hadds.isStandard hstd)
                exact ⟨by simp [hlinks], hdone.append_link hadds hmore hroot⟩
              · rw [hnext, Manifest.wanted, hreferences]
                exact ⟨rest.map shortName, by simp⟩
              · intro hstd
                obtain ⟨rfl, hroot⟩ := hserved (hadds.isStandard hstd)
                exact ⟨_, hroot.held, rfl⟩

/-- An entry that was just read, with all its references followed. -/
theorem linkAll_enter {require : Loader → String → Loader × Except Fault Link}
    (hrequire : ∀ l identity, Supplies disk l identity (require l identity))
    (direct : Path → Prop) (hread : Manifest.load disk m.path = .ok m) (hdirect : direct m.path)
    (hfresh : m.name ∉ Keyed.keys l.library) :
    ∃ added, Adds disk l added (linkAll require m.name m.references (l.enter m)).1 ∧
      (l.IsStandard → (linkAll require m.name m.references (l.enter m)).2 = .ok () →
        Completes disk l direct added
          (linkAll require m.name m.references (l.enter m)).1.library m.name) := by
  have henter := Adds.enter hread hfresh
  have hheld : m.name ∈ Keyed.keys (l.enter m).library := by
    rw [henter.keys_library]
    simp
  obtain ⟨links, added, hadds, hresult, -⟩ := linkAll_from hrequire [] rfl henter rfl
    (fun _ => ⟨rfl, .root_only hheld⟩)
  refine ⟨_, hadds, ?_⟩
  intro hstd hok
  obtain ⟨hlinks, hdone⟩ := hresult hstd hok
  refine { held := hdone.held, linked := ?_, reached := ?_, sources := ?_ }
  · intro entry hentry
    rcases List.mem_cons.mp hentry with rfl | hentry
    · exact hlinks
    · exact hdone.linked entry hentry
  · intro name hname
    rcases List.mem_cons.mp hname with rfl | hname
    · exact Relation.ReflTransGen.refl
    · exact hdone.reached name hname
  · intro entry hentry
    rcases List.mem_cons.mp hentry with rfl | hentry
    · exact Or.inl ⟨rfl, hdirect⟩
    · exact (hdone.sources entry hentry).imp (And.imp_right False.elim) id

/-! ## Requiring an identity -/

theorem findFile_eq_some {fileName : String} {dirs : List Path} {candidate : Path}
    (h : findFile disk fileName dirs = .ok (some candidate)) :
    ∃ before dir after, dirs = before ++ dir :: after ∧
      (∀ other ∈ before, ¬ disk.HasFile (other.entry fileName)) ∧
      disk.HasFile (dir.entry fileName) ∧ candidate = dir.entry fileName := by
  induction dirs with
  | nil => cases h
  | cons dir rest ih =>
      rw [findFile] at h
      obtain ⟨entry, hprobe, h⟩ := exists_of_bind_eq_ok h
      split at h
      next hfile =>
        cases h
        refine ⟨[], dir, rest, rfl, ?_, ⟨entry, hprobe, hfile⟩, rfl⟩
        intro other hother
        cases hother
      next hnone =>
        obtain ⟨before, found, after, rfl, hbefore, hfound, rfl⟩ := ih h
        refine ⟨dir :: before, found, after, rfl, ?_, hfound, rfl⟩
        intro other hother
        rcases List.mem_cons.mp hother with rfl | hother
        · rintro ⟨entry', hprobe', hfile⟩
          rw [hprobe] at hprobe'
          cases hprobe'
          exact hnone hfile
        · exact hbefore other hother

theorem findFile_eq_error {fileName : String} {dirs : List Path} {fault : Fault}
    (h : findFile disk fileName dirs = .error fault) :
    ∃ dir ∈ dirs, disk.probe (dir.entry fileName) = .error fault := by
  induction dirs with
  | nil => cases h
  | cons dir rest ih =>
      rw [findFile] at h
      rcases eq_error_or_exists_of_bind h with hprobe | ⟨entry, -, h⟩
      · exact ⟨dir, List.mem_cons_self, hprobe⟩
      · split at h
        · cases h
        · obtain ⟨later, hlater, hprobe⟩ := ih h
          exact ⟨later, List.mem_cons_of_mem _ hlater, hprobe⟩

theorem accept_eq_ok {identity : String} {found : Option Link} {link : Link}
    (h : l.accept identity found = .ok link) :
    found = some link ∧ link.name = shortName identity := by
  cases found with
  | none => cases h
  | some other =>
      rw [accept] at h
      split at h
      next hname =>
        cases h
        exact ⟨rfl, eq_of_beq hname⟩
      next => cases h

theorem accept_of_name {identity : String} {link : Link} (h : link.name = shortName identity) :
    l.accept identity (some link) = .ok link := by
  rw [accept, h, if_pos (beq_self_eq_true _)]

/-- What the resolver is known to do: a standard loader finds entries only. -/
def Finds (disk : Disk) (l : Loader) (identity : String)
    (outcome : Loader × Except Fault (Option Link)) : Prop :=
  ∃ added, Adds disk l added outcome.1 ∧ (l.IsStandard → ∀ link, outcome.2 = .ok (some link) →
    ∃ root, link = .held root ∧ (root = shortName identity →
      Completes disk l (fun _ => False) added outcome.1.library root))

/-- A resolver of one's own only has to leave alone what is there. -/
theorem Finds.of_adds {identity : String} {outcome : Loader × Except Fault (Option Link)}
    (hcustom : ¬ l.IsStandard) (h : ∃ added, Adds disk l added outcome.1) :
    Finds disk l identity outcome :=
  h.imp fun _ hadds => ⟨hadds, fun hstd => absurd hstd hcustom⟩

theorem Completes.of_foundAt {direct : Path → Prop} {lib : Library} {root : String}
    (h : Completes disk l direct added lib root)
    (hdirect : ∀ path, direct path → l.FoundAt disk root path) :
    Completes disk l (fun _ => False) added lib root where
  held := h.held
  linked := h.linked
  reached := h.reached
  sources entry hentry := by
    rcases h.sources entry hentry with ⟨hroot, hpath⟩ | hfound
    · exact Or.inr (hroot ▸ hdirect _ hpath)
    · exact Or.inr hfound

section

variable {load : Load}
  (hload : ∀ l path expected,
    Serves disk (fun p => absolute disk path = .ok p) l (load l path expected))

include hload

theorem search_finds (l : Loader) (identity : String) :
    Finds disk l identity (search disk load l identity) := by
  rw [search]
  split
  next => exact ⟨[], .refl disk l, fun _ _ h => by cases h⟩
  next => exact ⟨[], .refl disk l, fun _ _ h => by cases h⟩
  next path hfound =>
    obtain ⟨added, hadds, hserved⟩ := hload l path (some (shortName identity))
    cases hcall : load l path (some (shortName identity)) with
    | mk last result =>
        rw [hcall] at hadds hserved
        cases result with
        | error fault => exact ⟨added, hadds, fun _ _ h => by cases h⟩
        | ok root =>
            refine ⟨added, hadds, ?_⟩
            intro hstd link hlink
            cases hlink
            refine ⟨root, rfl, ?_⟩
            rintro rfl
            apply (hserved hstd _ rfl).of_foundAt
            intro p hp
            have hsome := findFile_eq_some hfound
            obtain ⟨before, dir, after, hdirs, hbefore, hfile, hpath⟩ := hsome
            rw [hpath] at hp
            exact ⟨before, dir, after, hdirs, hbefore, hfile, hp⟩

theorem ask_finds (l : Loader) (identity : String) :
    Finds disk l identity (ask disk load l identity) := by
  rw [ask]
  split
  next => exact ⟨[], .refl disk l, fun _ _ h => by cases h⟩
  next => exact search_finds hload l identity
  next supply hcustom =>
    apply Finds.of_adds fun hstd => hstd supply hcustom
    have hasked : Adds disk l [] { l with asked := l.asked ++ [identity] } :=
      { Adds.refl disk l with library := (List.append_nil _).symm }
    dsimp only
    split
    next => exact ⟨_, hasked⟩
    next path _ =>
      obtain ⟨added, hadds, -⟩ := hload { l with asked := l.asked ++ [identity] } path none
      cases hcall : load { l with asked := l.asked ++ [identity] } path none with
      | mk last result =>
          rw [hcall] at hadds
          cases result <;> exact ⟨_, hasked.trans hadds⟩
    next path _ =>
      split <;> exact ⟨_, hasked⟩

theorem requireWith_supplies (l : Loader) (identity : String) :
    Supplies disk l identity (requireWith disk load l identity) := by
  rw [requireWith]
  split
  next b hget =>
    refine ⟨[], .refl disk l, ?_⟩
    intro link hlink
    cases hlink
    exact ⟨rfl, fun _ => ⟨rfl, .root_only (Keyed.mem_keys_of_get? hget)⟩⟩
  next =>
    obtain ⟨added, hadds, hfound⟩ := ask_finds hload l identity
    cases hcall : ask disk load l identity with
    | mk last result =>
        rw [hcall] at hadds hfound
        cases result with
        | error fault => exact ⟨added, hadds, fun _ h => by cases h⟩
        | ok found =>
            refine ⟨added, hadds, ?_⟩
            intro link hlink
            obtain ⟨rfl, hname⟩ := accept_eq_ok hlink
            refine ⟨hname, ?_⟩
            intro hstd
            obtain ⟨root, rfl, hdone⟩ := hfound hstd link rfl
            exact ⟨congrArg Link.held hname, hname ▸ hdone hname⟩

end

/-! ## Loading -/

/-- A manifest that there is room to load is the one that is loaded without a limit. -/
theorem load_of_load_on {stack : Stack} {path : Path} (h : Manifest.load disk path stack = .ok m) :
    Manifest.load disk path = .ok m := by
  obtain ⟨bytes, hbytes, h⟩ := exists_of_bind_eq_ok h
  obtain ⟨_, -, h⟩ := exists_of_bind_eq_ok h
  exact bind_eq_ok_iff.mpr ⟨bytes, hbytes, bind_eq_ok_iff.mpr ⟨(), Stack.reserve_endless _, h⟩⟩

theorem readExpected_eq_ok {stack : Stack} {path : Path} {expected : Option String}
    (h : readExpected disk path expected stack = .ok m) :
    absolute disk path = .ok m.path ∧ Manifest.load disk m.path = .ok m ∧
      ∀ name ∈ expected, m.name = name := by
  obtain ⟨p, hp, h⟩ := exists_of_bind_eq_ok h
  obtain ⟨read, hread, h⟩ := exists_of_bind_eq_ok h
  have hread := load_of_load_on hread
  have hpath := (Manifest.load_eq_ok hread).1
  split at h
  next =>
    cases h
    exact ⟨hpath ▸ hp, hpath ▸ hread, fun _ h => by cases h⟩
  next name =>
    split at h
    next hname =>
      cases h
      refine ⟨hpath ▸ hp, hpath ▸ hread, ?_⟩
      rintro _ ⟨⟩
      exact eq_of_beq hname
    next => cases h

/-- What loading comes to is the name that the manifest declares. -/
theorem exists_read_of_loadWithin {fuel : Nat} {l : Loader} {path : Path}
    {expected : Option String} {name : String}
    (h : (loadWithin disk .endless fuel l path expected).2 = .ok name) :
    ∃ m, readExpected disk path expected = .ok m ∧ m.name = name := by
  cases fuel with
  | zero => cases h
  | succ fuel =>
      rw [loadWithin] at h
      split at h
      · cases h
      next m hread =>
        refine ⟨m, hread, ?_⟩
        split at h
        · cases h
          rfl
        · split at h
          · cases h
            rfl
          · cases h

theorem exists_read_of_load {l : Loader} {path : Path} {expected : Option String} {name : String}
    (h : (load disk l path expected).2 = .ok name) :
    ∃ m, readExpected disk path expected = .ok m ∧ m.name = name :=
  exists_read_of_loadWithin h

/-- Loading, however deep it may go. -/
theorem loadWithin_serves (stack : Stack) (fuel : Nat) (l : Loader) (path : Path)
    (expected : Option String) :
    Serves disk (fun p => absolute disk path = .ok p) l
      (loadWithin disk stack fuel l path expected) := by
  induction fuel generalizing stack l path expected with
  | zero => exact ⟨[], .refl disk l, fun _ _ h => by cases h⟩
  | succ fuel ih =>
      rw [loadWithin]
      split
      next => exact ⟨[], .refl disk l, fun _ _ h => by cases h⟩
      next m hread =>
        obtain ⟨hpath, hload, -⟩ := readExpected_eq_ok hread
        split
        next b hget =>
          -- A name that is there is never loaded again, whatever its manifest says by now.
          refine ⟨[], .refl disk l, ?_⟩
          intro _ root hroot
          cases hroot
          exact .root_only (Keyed.mem_keys_of_get? hget)
        next hget =>
          obtain ⟨added, hadds, hdone⟩ := linkAll_enter
            (requireWith_supplies fun l path expected =>
              ih (stack.inside .reference) l path expected)
            (fun p => absolute disk path = .ok p) hload hpath
            (Keyed.get?_eq_none_iff.mp hget)
          cases hcall : linkAll (requireWith disk (loadWithin disk (stack.inside .reference) fuel))
              m.name m.references (l.enter m) with
          | mk last result =>
              rw [hcall] at hadds hdone
              cases result with
              | error fault => exact ⟨added, hadds, fun _ _ h => by cases h⟩
              | ok done =>
                  refine ⟨added, hadds, ?_⟩
                  intro hstd root hroot
                  cases hroot
                  exact hdone hstd rfl

theorem load_serves (disk : Disk) (l : Loader) (path : Path) (expected : Option String) :
    Serves disk (fun p => absolute disk path = .ok p) l (load disk l path expected) :=
  loadWithin_serves _ _ l path expected

theorem require_supplies (disk : Disk) (l : Loader) (identity : String) :
    Supplies disk l identity (require disk l identity) :=
  requireWith_supplies (load_serves disk) l identity

end StubTree.Loader
