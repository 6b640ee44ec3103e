import Mathlib.Data.List.Induction
import Mathlib.Data.List.Shortlex
import StubTree.Proofs.Library.Within

/-! # The nearest declaration

From a binary, a row of positions leads along links to another one. A search comes to a declaration
by the least row of positions that leads to one: a shorter row is less than a longer one, and of two
rows of one length the one that is less where they first differ.

The links that wait in a search always stand in the order of their rows, and whatever a binary that
was seen is linked to has been seen, or waits behind the least row of that binary.
-/

namespace StubTree

/-! ## Rows of positions -/

/-- A row of positions that is less than another. -/
def Nearer (p q : List Nat) : Prop := List.Shortlex (· < ·) p q

namespace Nearer

variable {p q r : List Nat}

theorem trans (h : Nearer p q) (h' : Nearer q r) : Nearer p r := by
  rcases List.shortlex_def.mp h with hshort | ⟨hlength, hlex⟩
  · refine .of_length_lt (hshort.trans_le ?_)
    rcases List.shortlex_def.mp h' with hshort' | ⟨hlength', -⟩
    · exact hshort'.le
    · exact hlength'.le
  · rcases List.shortlex_def.mp h' with hshort' | ⟨hlength', hlex'⟩
    · exact .of_length_lt (hlength ▸ hshort')
    · exact .of_lex (hlength.trans hlength') (List.lt_trans hlex hlex')

theorem asymm (h : Nearer p q) : ¬ Nearer q p :=
  Std.Asymm.asymm (r := List.Shortlex (· < ·)) p q h

theorem concat_self (p : List Nat) (i : Nat) : Nearer p (p ++ [i]) :=
  .of_length_lt (by simp)

/-- Of two rows the lesser one stays the lesser, whatever one position follows each. -/
theorem concat (h : Nearer p q) (i j : Nat) : Nearer (p ++ [i]) (q ++ [j]) := by
  rcases List.shortlex_def.mp h with hshort | ⟨hlength, hlex⟩
  · exact .of_length_lt (by simpa using hshort)
  · refine .of_lex (by simpa using hlength) ?_
    clear h
    induction hlex with
    | nil => simp at hlength
    | cons _ ih => exact .cons (ih (by simpa using hlength))
    | rel hlt => exact .rel hlt

theorem concat_of_lt (p : List Nat) {i j : Nat} (h : i < j) : Nearer (p ++ [i]) (p ++ [j]) :=
  List.Shortlex.append_left ((List.shortlex_singleton_iff i j).mpr h) p

end Nearer

/-- A row of positions that is no greater than another. -/
def NoFarther (p q : List Nat) : Prop := p = q ∨ Nearer p q

namespace NoFarther

variable {p q r : List Nat}

theorem trans_nearer (h : NoFarther p q) (h' : Nearer q r) : Nearer p r := by
  rcases h with rfl | h
  · exact h'
  · exact h.trans h'

theorem trans (h : NoFarther p q) (h' : NoFarther q r) : NoFarther p r := by
  rcases h' with rfl | h'
  · exact h
  · exact Or.inr (h.trans_nearer h')

theorem antisymm (h : NoFarther p q) (h' : NoFarther q p) : p = q := by
  rcases h with rfl | h
  · rfl
  · exact h'.elim Eq.symm fun h' => absurd h' h.asymm

theorem concat (h : NoFarther p q) (i : Nat) : NoFarther (p ++ [i]) (q ++ [i]) := by
  rcases h with rfl | h
  · exact Or.inl rfl
  · exact Or.inr (h.concat i i)

end NoFarther

namespace Library

variable {lib : Library} {start link : Link} {unit fullName : String} {path : List Nat}
  {seen : List String} {waiting : List (List Nat × Link)} {t u : Located}

/-- Where positions lead from a link: each is the place of the next link among those of the binary
before it. -/
def follow? (lib : Library) (start : Link) : List Nat → Option Link
  | [] => some start
  | i :: rest => (lib.linksOf start)[i]?.bind (follow? lib · rest)

theorem follow?_concat (path : List Nat) (i : Nat) :
    lib.follow? start (path ++ [i]) = (lib.follow? start path).bind fun link =>
      (lib.linksOf link)[i]? := by
  induction path generalizing start with
  | nil => cases h : (lib.linksOf start)[i]? <;> simp [follow?, h]
  | cons j rest ih =>
      rw [List.cons_append, follow?, follow?]
      cases (lib.linksOf start)[j]? with
      | none => rfl
      | some next => exact ih

/-- Positions lead from entries to entries. -/
theorem Closed.exists_of_follow? (h : lib.Closed) (hunit : unit ∈ Keyed.keys lib)
    (hpath : lib.follow? (.held unit) path = some link) :
    ∃ name ∈ Keyed.keys lib, link = .held name := by
  induction path generalizing unit with
  | nil =>
      cases hpath
      exact ⟨unit, hunit, rfl⟩
  | cons i rest ih =>
      obtain ⟨next, hnext, hrest⟩ := Option.bind_eq_some_iff.mp hpath
      obtain ⟨name, hname, rfl⟩ := h.exists_of_mem_linksOf hunit (List.mem_of_getElem? hnext)
      exact ih hname hrest

/-- What is reached along links is where some positions lead. -/
theorem reaches_iff_follow? {name : String} :
    lib.Reaches unit name ↔ ∃ path, lib.follow? (.held unit) path = some (.held name) := by
  constructor
  · intro h
    induction h with
    | refl => exact ⟨[], rfl⟩
    | tail _ hlink ih =>
        obtain ⟨path, hpath⟩ := ih
        obtain ⟨i, hi⟩ := List.mem_iff_getElem?.mp hlink
        refine ⟨path ++ [i], ?_⟩
        rw [follow?_concat, hpath, Option.bind_some, hi]
  · rintro ⟨path, hpath⟩
    induction path generalizing unit with
    | nil =>
        cases hpath
        exact .refl
    | cons i rest ih =>
        obtain ⟨next, hnext, hrest⟩ := Option.bind_eq_some_iff.mp hpath
        cases next with
        | held other => exact .head (List.mem_of_getElem? hnext) (ih hrest)
        | apart m =>
            -- A manifest that was read apart leads nowhere else.
            cases rest with
            | nil => cases hrest
            | cons j rest => simp [follow?, linksOf] at hrest

/-! ## What is searched for -/

/-- The binary behind a link declares a type of that full name, in that way. -/
def Offers (lib : Library) (fullName : String) (t : Located) : Prop :=
  ∃ m, lib.manifest? t.link = some m ∧ t.decl ∈ m.types ∧ t.decl.fullName = fullName

/-- A type of that full name behind the least row of positions that leads to one. -/
def Nearest (lib : Library) (start : Link) (fullName : String) (t : Located) : Prop :=
  ∃ path, lib.follow? start path = some t.link ∧ lib.Offers fullName t ∧
    ∀ other u, lib.follow? start other = some u.link → lib.Offers fullName u → NoFarther path other

theorem offers_of_declared? (h : lib.declared? fullName link = some t) :
    t.link = link ∧ lib.Offers fullName t := by
  obtain ⟨d, hd, rfl⟩ := Option.map_eq_some_iff.mp h
  obtain ⟨m, hm, hfind⟩ := Option.bind_eq_some_iff.mp hd
  rw [Manifest.find?] at hfind
  exact ⟨rfl, m, hm, List.mem_of_find?_eq_some hfind, by simpa using List.find?_some hfind⟩

theorem declared?_ne_none (h : lib.Offers fullName t) : lib.declared? fullName t.link ≠ none := by
  obtain ⟨m, hm, hmem, hname⟩ := h
  rw [declared?, hm, Option.bind_some, Manifest.find?, ne_eq, Option.map_eq_none_iff,
    List.find?_eq_none]
  exact fun hnone => hnone _ hmem (beq_iff_eq.mpr hname)

/-- A binary declares a full name in one way. -/
theorem Sound.offers_unique (h : lib.Sound) (ht : lib.Offers fullName t)
    (hu : lib.Offers fullName u) (hlink : t.link = u.link) {name : String}
    (hheld : t.link = .held name) : t = u := by
  obtain ⟨m, hm, htmem, htname⟩ := ht
  obtain ⟨m', hm', humem, huname⟩ := hu
  rw [← hlink, hm] at hm'
  cases hm'
  rw [hheld] at hm
  obtain ⟨links, hget⟩ := exists_get?_of_manifest? hm
  have hnodup := h.fullNames _ (Keyed.mem_of_get? hget)
  have hdecl := List.inj_on_of_nodup_map hnodup htmem humem (htname.trans huname.symm)
  cases t
  cases u
  cases hlink
  cases hdecl
  rfl

theorem Nearest.unique (hsound : lib.Sound) (hclosed : lib.Closed) (hunit : unit ∈ Keyed.keys lib)
    (ht : lib.Nearest (.held unit) fullName t) (hu : lib.Nearest (.held unit) fullName u) :
    t = u := by
  obtain ⟨path, hpath, hoffers, hleast⟩ := ht
  obtain ⟨path', hpath', hoffers', hleast'⟩ := hu
  obtain rfl := (hleast _ _ hpath' hoffers').antisymm (hleast' _ _ hpath hoffers)
  rw [hpath] at hpath'
  obtain ⟨name, -, hheld⟩ := hclosed.exists_of_follow? hunit hpath
  exact hsound.offers_unique hoffers hoffers' (Option.some.inj hpath') hheld

/-! ## The search -/

/-- How a search ends that has seen some names and has links waiting: with a type, or with nothing
once no link waits. -/
inductive Searches (lib : Library) (fullName : String) :
    List String → List Link → Option Located → Prop
  | missed {seen : List String} : Searches lib fullName seen [] none
  | again {seen : List String} {link : Link} {queue : List Link} {result : Option Located}
      (hseen : link.name ∈ seen) (h : Searches lib fullName seen queue result) :
      Searches lib fullName seen (link :: queue) result
  | found {seen : List String} {link : Link} {queue : List Link} {t : Located}
      (hnew : link.name ∉ seen) (hdeclared : lib.declared? fullName link = some t) :
      Searches lib fullName seen (link :: queue) (some t)
  | onward {seen : List String} {link : Link} {queue : List Link} {result : Option Located}
      (hnew : link.name ∉ seen) (hnone : lib.declared? fullName link = none)
      (h : Searches lib fullName (link.name :: seen) (queue ++ lib.linksOf link) result) :
      Searches lib fullName seen (link :: queue) result

/-- With a round for every link that waits or can still come to wait, a search ends by itself. -/
theorem searches_visit {fuel : Nat} {queue : List Link}
    (hfuel : queue.length + lib.linksLeft seen ≤ fuel) :
    lib.Searches fullName seen queue
      ((lib.visit fuel seen queue).findSome? (lib.declared? fullName)) := by
  induction fuel generalizing seen queue with
  | zero =>
      obtain rfl : queue = [] := List.length_eq_zero_iff.mp (by omega)
      exact .missed
  | succ fuel ih =>
      cases queue with
      | nil => exact .missed
      | cons link rest =>
          rw [List.length_cons] at hfuel
          rw [visit]
          split
          next hseen => exact .again hseen (ih (by omega))
          next hnew =>
            have hleft := length_linksOf_add_linksLeft_le lib hnew
            rw [List.findSome?_cons]
            split
            next hdeclared => exact .found hnew hdeclared
            next hnone =>
              refine .onward hnew hnone (ih ?_)
              rw [List.length_append]
              omega

/-- The search for a full name ends, and its end decides what the name means. -/
theorem searches_resolve (lib : Library) (start : Link) (fullName : String) :
    lib.Searches fullName [] [start] (lib.resolve start fullName).toOption := by
  have hsearch : lib.Searches fullName [] [start]
      ((lib.searchOrder start).findSome? (lib.declared? fullName)) := by
    apply searches_visit
    rw [linksLeft_nil, List.length_singleton]
    omega
  rw [resolve]
  cases hfound : (lib.searchOrder start).findSome? (lib.declared? fullName) <;>
    rwa [hfound] at hsearch

/-! ## The links that wait -/

/-- The links that wait in a search, each with the row of positions by which it came. -/
structure Frontier (lib : Library) (start : Link) (seen : List String)
    (waiting : List (List Nat × Link)) : Prop where
  leads : ∀ w ∈ waiting, lib.follow? start w.1 = some w.2
  sorted : waiting.Pairwise fun v w => Nearer v.1 w.1
  /-- What is put behind the queue for a link in it is farther than all that is in it. -/
  shallow : ∀ v ∈ waiting, ∀ w ∈ waiting, ∀ i, Nearer v.1 (w.1 ++ [i])
  root : start.name ∈ seen ∨ ([], start) ∈ waiting
  /-- A binary that was seen came by its least row, and so do the binaries it is linked to. -/
  seen : ∀ name ∈ seen, ∃ path, (∀ other, lib.follow? start other = some (.held name) →
      NoFarther path other) ∧
    ∀ i link, (lib.linksOf (.held name))[i]? = some link →
      link.name ∈ seen ∨ (path ++ [i], link) ∈ waiting

namespace Frontier

/-- At the start of a search one link waits, which no position leads to. -/
theorem single (lib : Library) (start : Link) : lib.Frontier start [] [([], start)] where
  leads := by simp [follow?]
  sorted := List.pairwise_singleton _ _
  shallow := by
    intro v hv w hw i
    rw [List.mem_singleton.mp hv, List.mem_singleton.mp hw]
    exact Nearer.concat_self [] i
  root := Or.inr (List.mem_singleton_self _)
  seen _ h := by cases h

/-- A link to a binary that was seen is left out. -/
theorem again {rest : List (List Nat × Link)} (h : lib.Frontier start seen ((path, link) :: rest))
    (hseen : link.name ∈ seen) : lib.Frontier start seen rest where
  leads w hw := h.leads w (List.mem_cons_of_mem _ hw)
  sorted := h.sorted.of_cons
  shallow v hv w hw := h.shallow v (List.mem_cons_of_mem _ hv) w (List.mem_cons_of_mem _ hw)
  root := by
    rcases h.root with hroot | hroot
    · exact Or.inl hroot
    · rcases List.mem_cons.mp hroot with heq | hrest
      · cases heq
        exact Or.inl hseen
      · exact Or.inr hrest
  seen := by
    intro name hname
    obtain ⟨least, hleast, hlinks⟩ := h.seen name hname
    refine ⟨least, hleast, fun i other hi => ?_⟩
    rcases hlinks i other hi with hother | hother
    · exact Or.inl hother
    · rcases List.mem_cons.mp hother with heq | hrest
      · cases heq
        exact Or.inl hseen
      · exact Or.inr hrest

/-- The links of a binary, behind the row by which it came. -/
def children (lib : Library) (path : List Nat) (link : Link) : List (List Nat × Link) :=
  (lib.linksOf link).mapIdx fun i child => (path ++ [i], child)

theorem mem_children {w : List Nat × Link} :
    w ∈ children lib path link ↔ ∃ i, (lib.linksOf link)[i]? = some w.2 ∧ w.1 = path ++ [i] := by
  rw [children, List.mem_mapIdx]
  constructor
  · rintro ⟨i, hi, rfl⟩
    exact ⟨i, List.getElem?_eq_getElem hi, rfl⟩
  · rintro ⟨i, hi, hpath⟩
    obtain ⟨hlt, hget⟩ := List.getElem?_eq_some_iff.mp hi
    exact ⟨i, hlt, Prod.ext hpath.symm hget⟩

theorem map_snd_children : (children lib path link).map Prod.snd = lib.linksOf link := by
  refine List.ext_getElem (by simp [children]) fun i _ _ => ?_
  simp [children]

theorem pairwise_children :
    (children lib path link).Pairwise fun v w => Nearer v.1 w.1 := by
  rw [List.pairwise_iff_getElem]
  intro i j hi hj hlt
  simp only [children, List.getElem_mapIdx]
  exact Nearer.concat_of_lt path hlt

section

variable (hheld : ∀ path link, lib.follow? start path = some link → link = .held link.name)

include hheld

/-- A row that leads to a binary not seen yet is no less than one of the rows that wait. -/
theorem exists_noFarther (h : lib.Frontier start seen waiting) {other : List Nat}
    (hother : lib.follow? start other = some link) (hnew : link.name ∉ seen) :
    ∃ w ∈ waiting, NoFarther w.1 other := by
  induction other using List.reverseRecOn generalizing link with
  | nil =>
      cases hother
      exact ⟨_, h.root.resolve_left hnew, Or.inl rfl⟩
  | append_singleton before i ih =>
      rw [follow?_concat] at hother
      obtain ⟨last, hbefore, hi⟩ := Option.bind_eq_some_iff.mp hother
      by_cases hlast : last.name ∈ seen
      · obtain ⟨least, hleast, hlinks⟩ := h.seen _ hlast
        have heq := hheld _ _ hbefore
        rw [heq] at hbefore hi
        exact ⟨_, (hlinks i link hi).resolve_left hnew, (hleast _ hbefore).concat i⟩
      · obtain ⟨w, hw, hle⟩ := ih hbefore hlast
        exact ⟨w, hw, hle.trans (Or.inr (Nearer.concat_self before i))⟩

/-- The first link that waits came by a row that is no greater than any to a binary not seen
yet. -/
theorem noFarther_head {rest : List (List Nat × Link)} {first : List Nat × Link} {other : List Nat}
    (h : lib.Frontier start seen (first :: rest)) (hother : lib.follow? start other = some link)
    (hnew : link.name ∉ seen) : NoFarther first.1 other := by
  obtain ⟨w, hw, hle⟩ := h.exists_noFarther hheld hother hnew
  rcases List.mem_cons.mp hw with rfl | hrest
  · exact hle
  · exact NoFarther.trans (Or.inr (List.rel_of_pairwise_cons h.sorted hrest)) hle

/-- A binary is seen: its links come to wait behind all others. -/
theorem onward {rest : List (List Nat × Link)} (h : lib.Frontier start seen ((path, link) :: rest))
    (hnew : link.name ∉ seen) :
    lib.Frontier start (link.name :: seen) (rest ++ children lib path link) := by
  have hlink : lib.follow? start path = some link := h.leads _ List.mem_cons_self
  have hfirst : (path, link) ∈ (path, link) :: rest := List.mem_cons_self
  -- What stands behind the first link in the queue is farther than it, but nearer than its links.
  have hbehind : ∀ v ∈ rest, Nearer path v.1 := fun v hv => List.rel_of_pairwise_cons h.sorted hv
  have hbetween : ∀ v ∈ rest, ∀ i, Nearer v.1 (path ++ [i]) :=
    fun v hv i => h.shallow v (List.mem_cons_of_mem _ hv) _ hfirst i
  refine { leads := ?_, sorted := ?_, shallow := ?_, root := ?_, seen := ?_ }
  · intro w hw
    rcases List.mem_append.mp hw with hw | hw
    · exact h.leads w (List.mem_cons_of_mem _ hw)
    · obtain ⟨i, hi, hpath⟩ := mem_children.mp hw
      rw [hpath, follow?_concat, hlink, Option.bind_some, hi]
  · refine List.pairwise_append.mpr ⟨h.sorted.of_cons, pairwise_children, ?_⟩
    intro v hv w hw
    obtain ⟨i, -, hpath⟩ := mem_children.mp hw
    exact hpath ▸ hbetween v hv i
  · intro v hv w hw j
    rcases List.mem_append.mp hv with hv | hv <;> rcases List.mem_append.mp hw with hw | hw
    · exact h.shallow v (List.mem_cons_of_mem _ hv) w (List.mem_cons_of_mem _ hw) j
    · obtain ⟨i, -, hpath⟩ := mem_children.mp hw
      rw [hpath]
      exact (hbetween v hv i).trans (Nearer.concat_self _ j)
    · obtain ⟨i, -, hpath⟩ := mem_children.mp hv
      rw [hpath]
      exact (hbehind w hw).concat i j
    · obtain ⟨i, -, hpath⟩ := mem_children.mp hv
      obtain ⟨i', -, hpath'⟩ := mem_children.mp hw
      rw [hpath, hpath']
      exact .of_length_lt (by simp)
  · rcases h.root with hroot | hroot
    · exact Or.inl (List.mem_cons_of_mem _ hroot)
    · rcases List.mem_cons.mp hroot with heq | hrest
      · cases heq
        exact Or.inl List.mem_cons_self
      · exact Or.inr (List.mem_append_left _ hrest)
  · intro name hname
    rcases List.mem_cons.mp hname with rfl | hname
    · refine ⟨path, fun other hother => h.noFarther_head hheld hother hnew, fun i child hi => ?_⟩
      rw [← hheld _ _ hlink] at hi
      exact Or.inr (List.mem_append_right _ (mem_children.mpr ⟨i, hi, rfl⟩))
    · obtain ⟨least, hleast, hlinks⟩ := h.seen name hname
      refine ⟨least, hleast, fun i child hi => ?_⟩
      rcases hlinks i child hi with hchild | hchild
      · exact Or.inl (List.mem_cons_of_mem _ hchild)
      · rcases List.mem_cons.mp hchild with heq | hrest
        · cases heq
          exact Or.inl List.mem_cons_self
        · exact Or.inr (List.mem_append_left _ hrest)

end

end Frontier

/-! ## What a search comes to -/

/-- What a search has come to: the nearest declaration, or nothing where no positions lead to
one. -/
def Answers (lib : Library) (start : Link) (fullName : String) : Option Located → Prop
  | some t => lib.Nearest start fullName t
  | none => ∀ path t, lib.follow? start path = some t.link → ¬ lib.Offers fullName t

/-- A search that has seen no declaration so far comes to the nearest one. The induction is on the
rounds that are left. -/
theorem Searches.answers {queue : List Link} {result : Option Located}
    (h : lib.Searches fullName seen queue result)
    (hheld : ∀ path link, lib.follow? start path = some link → link = .held link.name)
    (hfrontier : lib.Frontier start seen waiting) (hqueue : waiting.map Prod.snd = queue)
    (hunseen : ∀ path t, lib.follow? start path = some t.link → lib.Offers fullName t →
      t.link.name ∉ seen) :
    lib.Answers start fullName result := by
  induction h generalizing waiting with
  | missed =>
      obtain rfl := List.map_eq_nil_iff.mp hqueue
      intro path t hpath hoffers
      obtain ⟨w, hw, -⟩ := hfrontier.exists_noFarther hheld hpath (hunseen path t hpath hoffers)
      cases hw
  | again hseen _ ih =>
      obtain ⟨⟨path, link⟩, rest, rfl, rfl, rfl⟩ := List.map_eq_cons_iff.mp hqueue
      exact ih (hfrontier.again hseen) rfl hunseen
  | found hnew hdeclared =>
      obtain ⟨⟨path, link⟩, rest, rfl, rfl, rfl⟩ := List.map_eq_cons_iff.mp hqueue
      obtain ⟨hlink, hoffers⟩ := offers_of_declared? hdeclared
      refine ⟨path, ?_, hoffers, fun other u hother hu => ?_⟩
      · rw [hlink]
        exact hfrontier.leads _ List.mem_cons_self
      · exact hfrontier.noFarther_head hheld hother (hunseen other u hother hu)
  | onward hnew hnone _ ih =>
      obtain ⟨⟨path, link⟩, rest, rfl, rfl, rfl⟩ := List.map_eq_cons_iff.mp hqueue
      refine ih (hfrontier.onward hheld hnew) ?_ ?_
      · rw [List.map_append, Frontier.map_snd_children]
      · intro other t hother hoffers
        rw [List.mem_cons, not_or]
        refine ⟨?_, hunseen other t hother hoffers⟩
        -- A name stands for one binary, and this one declares nothing that is searched for.
        intro hname
        have hsame : t.link = link := by
          rw [hheld _ _ hother, hname, ← hheld _ _ (hfrontier.leads _ List.mem_cons_self)]
        exact declared?_ne_none hoffers (hsame ▸ hnone)

end Library

namespace Loader

open Library

variable {l : Loader} {unit fullName : String}

/-- What a full name means in a binary of a loader that comes about: the search for it ends, without
a bound on its rounds; it fails where no binary declares the name that links lead to; and otherwise
it comes to the declaration behind the least row of positions. -/
theorem resolve_nearest (h : l.Reached (· = .searchPaths)) (hunit : unit ∈ Keyed.keys l.library)
    (fullName : String) :
    l.library.Searches fullName [] [.held unit]
      (l.library.resolve (.held unit) fullName).toOption ∧
    (l.library.resolve (.held unit) fullName = .error (.typeNotFound fullName unit) ↔
      ∀ name t, l.library.Reaches unit name → t.link = .held name →
        ¬ l.library.Offers fullName t) ∧
    ∀ t, l.library.resolve (.held unit) fullName = .ok t ↔
      l.library.Nearest (.held unit) fullName t := by
  have hclosed := h.standard.2
  have hsearches := searches_resolve l.library (.held unit) fullName
  have hanswers : l.library.Answers (.held unit) fullName
      (l.library.resolve (.held unit) fullName).toOption := by
    refine hsearches.answers ?_ (.single _ _) rfl (fun _ _ _ _ hseen => by cases hseen)
    intro path link hpath
    obtain ⟨name, -, rfl⟩ := hclosed.exists_of_follow? hunit hpath
    rfl
  refine ⟨hsearches, ?_⟩
  cases hresolve : l.library.resolve (.held unit) fullName with
  | error fault =>
      rw [hresolve] at hanswers
      have hfault : fault = .typeNotFound fullName unit := by
        rw [resolve] at hresolve
        split at hresolve <;> cases hresolve
        rfl
      subst hfault
      refine ⟨⟨fun _ name t hreaches hlink => ?_, fun _ => rfl⟩,
        fun t => ⟨fun ht => (by cases ht), ?_⟩⟩
      · obtain ⟨path, hpath⟩ := reaches_iff_follow?.mp hreaches
        exact hanswers path t (hlink ▸ hpath)
      · rintro ⟨path, hpath, hoffers, -⟩
        exact absurd hoffers (hanswers path t hpath)
  | ok t =>
      rw [hresolve] at hanswers
      refine ⟨⟨fun ht => (by cases ht), fun hnone => ?_⟩, fun u => ?_⟩
      · obtain ⟨path, hpath, hoffers, -⟩ := hanswers
        obtain ⟨name, -, hlink⟩ := hclosed.exists_of_follow? hunit hpath
        exact absurd hoffers (hnone name t (reaches_iff_follow?.mpr ⟨path, hlink ▸ hpath⟩) hlink)
      · constructor
        · rintro ⟨⟩
          exact hanswers
        · intro hu
          rw [hanswers.unique h.sound hclosed hunit hu]

/-- Manifests that reference one another, in circles and repeatedly. Two of those that are two links
away from the first one declare the same name. -/
def forkDisk : Disk :=
  ⟨[], [(["a"], .directory),
    (["a", "A.yaml"], .file "name: A\nreferences: [B, C, B, A]".toUTF8),
    (["a", "B.yaml"], .file "name: B\nreferences: [A, D]".toUTF8),
    (["a", "C.yaml"], .file "name: C\nreferences: [E, A]".toUTF8),
    (["a", "D.yaml"], .file "name: D\nreferences: [D, C]\ntypes:\n- name: N.T".toUTF8),
    (["a", "E.yaml"], .file "name: E\ntypes:\n- name: N.T".toUTF8)]⟩

/-- The loader that has loaded them all. -/
def forkLoader : Loader :=
  ((install { suffix := ".yaml" } .searchPaths).call forkDisk
    (.target ⟨.root, ["a", "A.yaml"]⟩)).1

set_option maxRecDepth 100000 in
/-- Of the two declarations the one by the row 0, 1 is nearer than the one by the row 1, 0. -/
theorem resolve_nearest_fork :
    "A" ∈ Keyed.keys forkLoader.library ∧
    forkLoader.library.follow? (.held "A") [1, 0] = some (.held "E") ∧
    ∃ t, forkLoader.library.resolve (.held "A") "N.T" = .ok t ∧ t.link = .held "D" ∧
      forkLoader.library.Nearest (.held "A") "N.T" t := by
  have hevaluated : "A" ∈ Keyed.keys forkLoader.library ∧
      forkLoader.library.follow? (.held "A") [1, 0] = some (.held "E") ∧
      ((forkLoader.library.resolve (.held "A") "N.T").toOption.map (·.link)) =
        some (.held "D") := by
    decide +kernel
  obtain ⟨hunit, hother, hfound⟩ := hevaluated
  obtain ⟨t, ht, hlink⟩ := Option.map_eq_some_iff.mp hfound
  have hresolve := eq_ok_of_toOption ht
  have hreached : forkLoader.Reached (· = .searchPaths) := by
    rw [forkLoader]
    exact .call _ _ (.install (.new ".yaml") rfl)
  obtain ⟨-, -, hnearest⟩ := resolve_nearest hreached hunit "N.T"
  exact ⟨hunit, hother, t, hresolve, hlink, (hnearest t).mp hresolve⟩

end Loader

end StubTree
