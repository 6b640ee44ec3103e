import Mathlib.Data.Option.Basic
import StubTree.Proofs.Session.Reached
import StubTree.Proofs.Session.Selection
import StubTree.Proofs.Text.Sorted

/-! # Collections without an order

The types of a namespace, the types added to it, the names imported from a module and the targets
are kept without an order of their own. Here a run goes through each of them in any order, another
one whenever it does, and what it shows is the same: types are chosen, names imported and targets
told in an order that leaves no two of them in the same place.
-/

namespace StubTree

/-! ## Texts -/

namespace Stub

variable {order : NameOrder}

theorem importLine_of_perm (h : ∀ source words, (order source words).Perm words) (source : String)
    (names : List String) : importLine source names order = importLine source names := by
  rw [importLine, Text.sorted_eq_of_perm (h source _)]
  rfl

theorem text_of_perm (h : ∀ source words, (order source words).Perm words) (space : Namespace)
    (types : List (Meaning × TypeDecl)) : text space types order = text space types := by
  simp only [text, importBlock, importLine_of_perm h]

theorem render_of_perm (h : ∀ source words, (order source words).Perm words) (lib : Library)
    (space : Namespace) (types : List TypeId) :
    render lib space types order = render lib space types := by
  simp only [render, text_of_perm h]

end Stub

/-! ## Rounds -/

/-- An event as it is recorded: what was added stands in the order of the types of the stub. -/
def Event.shown : Event → Event
  | .emitted e => .emitted { e with added := e.types.filter (· ∈ e.added) }
  | .skipped space => .skipped space

theorem Event.shown_emitted {e : Emission} {added : List TypeId} (h : added.Perm e.added) :
    shown (.emitted { e with added }) = shown (.emitted e) := by
  simp only [shown, h.mem_iff]

theorem Event.progress_shown (event : Event) : event.shown.progress = event.progress := by
  cases event <;> rfl

/-- What is recorded of an event is what it shows. -/
theorem Generation.note_shown (g : Generation) (event : Event) :
    g.note event.shown = g.note event := by
  cases event with
  | skipped space => rfl
  | emitted e =>
      have hsame : e.types.filter (· ∈ e.types.filter (· ∈ e.added)) =
          e.types.filter (· ∈ e.added) := by
        refine List.filter_congr fun t ht => ?_
        simp [ht]
      simp only [note, Event.shown, record, hsame]

theorem Generation.foldl_note_shown (g : Generation) (events : List Event) :
    (events.map Event.shown).foldl note g = events.foldl note g := by
  simp only [List.foldl_map, note_shown]

/-- Stages that show the same. -/
structure Stage.Alike (s s' : Stage) : Prop where
  registry : s.registry = s'.registry
  disk : s.disk = s'.disk
  events : s.events.map Event.shown = s'.events.map Event.shown

namespace Plan

variable {p : Plan} {s s' : Stage}

theorem emit_alike (e : Enumeration) (h : s.Alike s') (space : Namespace)
    (types : List TypeId) :
    (p.emit s space types e).1.Alike (p.emit s' space types).1 ∧
      (p.emit s space types e).2 = (p.emit s' space types).2 := by
  rw [emit, emit, h.disk, h.registry, Stub.render_of_perm (e.names_perm _),
    Enumeration.names_listed]
  cases space.directory p.destination with
  | error fault => exact ⟨h, rfl⟩
  | ok directory =>
      dsimp only
      obtain ⟨made, _ | fault⟩ := s'.disk.makeDirectories directory
      · obtain ⟨met, fault | text⟩ := Stub.render p.library space types
        · exact ⟨⟨rfl, rfl, h.events⟩, rfl⟩
        · dsimp only
          cases made.write (p.stubPath directory) text.toUTF8 with
          | error fault => exact ⟨⟨rfl, rfl, h.events⟩, rfl⟩
          | ok disk =>
              refine ⟨⟨rfl, rfl, ?_⟩, rfl⟩
              dsimp only
              rw [List.map_append, List.map_append, h.events, List.map_singleton,
                List.map_singleton, Enumeration.added_listed]
              rw [Event.shown_emitted (e := ⟨space, p.stubPath directory, types,
                (s'.registry.clear space).1, text⟩) (e.added_perm _ _)]
      · exact ⟨⟨rfl, rfl, h.events⟩, rfl⟩

/-- A round does the same in whatever order it goes through the types of its namespace. -/
theorem round?_alike (e : Enumeration) (h : s.Alike s') (hsound : s'.registry.Sound) :
    Option.Rel (fun a b => a.1.Alike b.1 ∧ a.2 = b.2) (p.round? s e) (p.round? s') := by
  rw [round?, round?, h.registry]
  cases hpop : s'.registry.pop? with
  | none => exact .none
  | some popped =>
      obtain ⟨⟨space, members⟩, registry⟩ := popped
      obtain ⟨-, hmembers, -⟩ := Registry.pop?_eq_some hpop
      have hselect : p.session.select (e.members s.events.length members) =
          p.session.select members := by
        rw [hmembers]
        exact Session.select_eq_of_perm (hsound.membersNodup space) (hsound.placed space)
          (e.members_perm _ _) p.session
      have hpopped : Stage.Alike { s with registry } { s' with registry } :=
        ⟨rfl, h.disk, h.events⟩
      dsimp only
      cases space.check with
      | error fault => exact .some ⟨hpopped, rfl⟩
      | ok checked =>
          dsimp only
          rw [hselect, Enumeration.members_listed]
          cases p.session.select members with
          | nil =>
              have hskipped : (s.events ++ [Event.skipped space]).map Event.shown =
                  (s'.events ++ [Event.skipped space]).map Event.shown := by
                rw [List.map_append, List.map_append, h.events]
              exact .some ⟨⟨rfl, h.disk, hskipped⟩, rfl⟩
          | cons t rest => exact .some (emit_alike e hpopped space (t :: rest))

/-- The rounds of a run, one after the other: the next ones start where the same is shown. -/
theorem drain_alike (e : Enumeration) (fuel : Nat) (h : s.Alike s')
    (hsound : s'.registry.Sound) :
    (p.drain fuel s e).1.Alike (p.drain fuel s').1 ∧
      (p.drain fuel s e).2 = (p.drain fuel s').2 := by
  induction fuel generalizing s s' with
  | zero =>
      rw [drain, drain, h.registry]
      exact ⟨h, rfl⟩
  | succ fuel ih =>
      have hround := round?_alike (p := p) e h hsound
      rw [drain, drain]
      cases hnext : p.round? s' with
      | none =>
          rw [hnext] at hround
          cases hone : p.round? s e with
          | none => exact ⟨h, rfl⟩
          | some next =>
              rw [hone] at hround
              cases hround
      | some next' =>
          rw [hnext] at hround
          cases hone : p.round? s e with
          | none =>
              rw [hone] at hround
              cases hround
          | some next =>
              rw [hone] at hround
              obtain ⟨hstage, hfault⟩ : next.1.Alike next'.1 ∧ next.2 = next'.2 := by
                cases hround
                assumption
              obtain ⟨next, fault⟩ := next
              obtain ⟨next', fault'⟩ := next'
              cases hfault
              cases fault with
              | none => exact ih hstage ((round_of_round? hnext).sound hsound)
              | some fault => exact ⟨hstage, rfl⟩

end Plan

/-! ## Builds -/

/-- Builds that show the same, however they end. -/
structure Built.Alike (b b' : Built) : Prop where
  session : b.session = b'.session
  disk : b.disk = b'.disk
  said : b.said = b'.said
  events : b.events.map Event.shown = b'.events.map Event.shown
  result : b.result = b'.result

theorem Built.Alike.refl (b : Built) : b.Alike b := ⟨rfl, rfl, rfl, rfl, rfl⟩

theorem Built.Alike.trans {b b' b'' : Built} (h : b.Alike b') (h' : b'.Alike b'') :
    b.Alike b'' where
  session := h.session.trans h'.session
  disk := h.disk.trans h'.disk
  said := h.said.trans h'.said
  events := h.events.trans h'.events
  result := h.result.trans h'.result

theorem Built.Alike.symm {b b' : Built} (h : b.Alike b') : b'.Alike b where
  session := h.session.symm
  disk := h.disk.symm
  said := h.said.symm
  events := h.events.symm
  result := h.result.symm

namespace Session

variable {s : Session} {disk : Disk} {destination : Path}

theorem generate_alike (e : Enumeration) (hsound : s.registry.Sound) (disk : Disk)
    (destination : Path) :
    (s.generate disk destination e).Alike (s.generate disk destination) := by
  rw [generate, generate]
  cases checkAll s.registry.namespaces with
  | error fault => exact .refl _
  | ok checked =>
      dsimp only
      have hrounds := Plan.drain_alike (p := ⟨s, destination⟩) e
        (Plan.roundBound ⟨s, destination⟩ s.registry)
        (s := { registry := s.registry, disk }) ⟨rfl, rfl, rfl⟩ hsound
      rcases hone : Plan.drain ⟨s, destination⟩ (Plan.roundBound ⟨s, destination⟩ s.registry)
        { registry := s.registry, disk } e with ⟨stage, fault⟩
      rcases hother : Plan.drain ⟨s, destination⟩ (Plan.roundBound ⟨s, destination⟩ s.registry)
        { registry := s.registry, disk } with ⟨last, fault'⟩
      rw [hone, hother] at hrounds
      obtain ⟨hlast, hfault⟩ := hrounds
      dsimp only at hlast hfault ⊢
      have htargets : s.loader.targetNames e.targets = s.loader.targetNames :=
        Text.sorted_eq_of_perm (e.targets_perm _)
      have hprogress (events : List Event) :
          events.flatMap Event.progress = (events.map Event.shown).flatMap Event.progress := by
        simp only [List.flatMap_map, Event.progress_shown]
      have hnotes (g : Generation) :
          stage.events.foldl Generation.note g = last.events.foldl Generation.note g := by
        rw [← Generation.foldl_note_shown, hlast.events, Generation.foldl_note_shown]
      refine ⟨?_, hlast.disk, ?_, hlast.events, ?_⟩
      · dsimp only
        rw [hlast.registry]
      · dsimp only
        rw [hprogress, hlast.events, ← hprogress]
      · dsimp only
        rw [htargets]
        cases hfault
        cases fault with
        | some fault => rfl
        | none => exact congrArg Except.ok (hnotes _)

/-- A build shows the same in whatever order it goes through what has none. -/
theorem build_alike (e : Enumeration) (s : Session) (disk : Disk) (destination : Path)
    (targets searchPaths : List Path) (only : Option Document) (stack : Stack) :
    (s.build disk destination targets searchPaths only e stack).Alike
      (s.build disk destination targets searchPaths only .listed stack) := by
  rw [build, build]
  cases s.choose only with
  | error fault => exact .refl _
  | ok chosen =>
      dsimp only
      have hempty : ({ chosen with registry := {} }.prepare disk searchPaths).1.registry.Sound :=
        Registry.Sound.empty
      rcases hprepare : ({ chosen with registry := {} } : Session).prepare disk searchPaths with
        ⟨prepared, fault | done⟩
      · exact .refl _
      · rw [hprepare] at hempty
        dsimp only
        have htargets : (prepared.loadTargets disk targets stack).1.registry.Sound :=
          loadAll_preserves (fun s => s.registry.Sound) (fun _ _ hs => hs)
            (fun _ _ hs => hs.addAll _) _ hempty
        rcases hload : prepared.loadTargets disk targets stack with ⟨loaded, said, fault | names⟩
        · exact .refl _
        · rw [hload] at htargets
          dsimp only
          have hbuiltins :
              (loaded.loadBuiltins disk loaded.options.builtinBinaries stack).1.registry.Sound :=
            loadAll_preserves (fun s => s.registry.Sound) (fun _ _ hs => hs)
              (fun _ _ hs => hs.addAll _) _ htargets
          rcases hmore : loaded.loadBuiltins disk loaded.options.builtinBinaries stack with
            ⟨last, more, fault | names⟩
          · exact .refl _
          · rw [hmore] at hbuiltins
            have hwritten := generate_alike e hbuiltins disk destination
            exact ⟨hwritten.session, hwritten.disk, congrArg (said ++ more ++ ·) hwritten.said,
              hwritten.events, hwritten.result⟩

/-- Builds show the same and end alike in whatever orders they go through what has none. -/
theorem build_enumerated (e e' : Enumeration) (s : Session) (disk : Disk) (destination : Path)
    (targets searchPaths : List Path) (only : Option Document) (stack : Stack) :
    (s.build disk destination targets searchPaths only e stack).Alike
      (s.build disk destination targets searchPaths only e' stack) :=
  (build_alike e s disk destination targets searchPaths only stack).trans
    (build_alike e' s disk destination targets searchPaths only stack).symm

end Session

end StubTree
