import Mathlib.Data.List.SplitBy
import StubTree.Document.Serialize
import StubTree.Proofs.Outcome
import StubTree.Proofs.Text.Legible

/-! # Documents are written legibly

Whatever characters a document holds, both formats write it in line feeds and the characters from
the space to the tilde: all others are escaped. In YAML it is the choice of the quotes that sees to
it, so every step of the writer keeps what is written legible.
-/

namespace StubTree

open Text

namespace Document.Json

variable {d : Document} {s : String} {level : Nat}

theorem legible_escapedChar (c : Char) : Legible (escapedChar c) := by
  have hhex : ∀ n, Legible ('\\' :: 'u' :: Text.hex 4 n) := fun n =>
    legible_cons.mpr ⟨by decide, legible_cons.mpr ⟨by decide, legible_hex 4 n⟩⟩
  rw [escapedChar]
  split
  next hmark =>
    refine legible_cons.mpr ⟨by decide, ?_⟩
    rcases (Bool.or_eq_true _ _).mp hmark with h | h <;> rw [beq_iff_eq.mp h] <;> decide
  -- Five characters have a letter of their own.
  iterate 5
    split
    · decide
  split
  next hshown =>
    rw [Bool.and_eq_true, decide_eq_true_eq, decide_eq_true_eq] at hshown
    exact legible_cons.mpr ⟨Or.inr hshown, legible_nil⟩
  split
  · exact hhex _
  · exact legible_append.mpr ⟨hhex _, hhex _⟩

theorem legible_textToken (s : String) : Legible (textToken s).toList := by
  rw [textToken, String.toList_ofList]
  exact legible_append.mpr
    ⟨legible_cons.mpr ⟨by decide, legible_flatMap legible_escapedChar _⟩, by decide⟩

theorem legible_floatToken (x : Number.Binary64) : Legible (floatToken x).toList := by
  cases x with
  | finite negative units => exact Number.Binary64.legible_text _
  | infinite negative => cases negative <;> decide
  | nan => decide

theorem legible_scalarToken? (h : scalarToken? d = some s) : Legible s.toList := by
  cases d with
  | null =>
      rw [← Option.some.inj h]
      decide
  | bool b =>
      rw [← Option.some.inj h]
      split <;> decide
  | int i =>
      rw [← Option.some.inj h]
      exact Number.legible_intText i
  | float x =>
      rw [← Option.some.inj h]
      exact legible_floatToken x
  | text | date =>
      rw [← Option.some.inj h]
      exact legible_textToken _
  | list | mapping => cases h

theorem legible_newline (level : Nat) : Legible (newline level).toList := by
  rw [newline, String.toList_ofList]
  exact legible_cons.mpr ⟨by decide, legible_replicate _ (by decide)⟩

theorem legible_block {opening closing : String} {items : List String}
    (hopening : Legible opening.toList) (hclosing : Legible closing.toList)
    (hitems : ∀ item ∈ items, Legible item.toList) :
    Legible (block opening closing level items).toList := by
  have hsep : Legible ("," ++ newline (level + 1)).toList :=
    legible_toList_append.mpr ⟨by decide, legible_newline _⟩
  rw [block]
  split
  · exact legible_toList_append.mpr ⟨hopening, hclosing⟩
  · simp only [legible_toList_append]
    exact ⟨⟨⟨⟨hopening, legible_newline _⟩, legible_intercalate hsep hitems⟩, legible_newline _⟩,
      hclosing⟩

mutual

theorem legible_write? {level : Nat} {s : String} :
    {d : Document} → write? level d = some s → Legible s.toList
  | .list items, h => by
      rw [write?] at h
      obtain ⟨written, hwritten, h⟩ := Option.bind_eq_some_iff.mp h
      cases h
      exact legible_block (by decide) (by decide) (legible_writeItems? hwritten)
  | .mapping entries, h => by
      rw [write?] at h
      obtain ⟨written, hwritten, h⟩ := Option.bind_eq_some_iff.mp h
      cases h
      exact legible_block (by decide) (by decide) (legible_writeEntries? hwritten)
  | .null, h | .bool _, h | .int _, h | .float _, h | .text _, h | .date _, h =>
      legible_scalarToken? (by simpa only [write?] using h)

theorem legible_writeItems? {level : Nat} {written : List String} :
    {items : List Document} → writeItems? level items = some written →
      ∀ item ∈ written, Legible item.toList
  | [], h => by
      cases h
      exact fun _ hitem => by cases hitem
  | d :: rest, h => by
      rw [writeItems?] at h
      obtain ⟨first, hfirst, h⟩ := Option.bind_eq_some_iff.mp h
      obtain ⟨others, hothers, h⟩ := Option.bind_eq_some_iff.mp h
      cases h
      exact List.forall_mem_cons.mpr ⟨legible_write? hfirst, legible_writeItems? hothers⟩

theorem legible_writeEntries? {level : Nat} {written : List String} :
    {entries : List (Document × Document)} → writeEntries? level entries = some written →
      ∀ entry ∈ written, Legible entry.toList
  | [], h => by
      cases h
      exact fun _ hentry => by cases hentry
  | (k, v) :: rest, h => by
      rw [writeEntries?] at h
      obtain ⟨key, -, h⟩ := Option.bind_eq_some_iff.mp h
      obtain ⟨value, hvalue, h⟩ := Option.bind_eq_some_iff.mp h
      obtain ⟨others, hothers, h⟩ := Option.bind_eq_some_iff.mp h
      cases h
      refine List.forall_mem_cons.mpr ⟨?_, legible_writeEntries? hothers⟩
      simp only [legible_toList_append]
      exact ⟨⟨legible_textToken key, by decide⟩, legible_write? hvalue⟩

end

end Document.Json

namespace Yaml

variable {w : Writer} {f : Writer.Folding} {c : Char} {cs : List Char}

/-! ## What a text holds -/

namespace Analysis

theorem isLegible_of_not_special (h : isSpecial c = false) : IsLegible c := by
  rw [isSpecial, Bool.not_eq_false', Bool.or_eq_true, Bool.and_eq_true, beq_iff_eq,
    decide_eq_true_eq, decide_eq_true_eq] at h
  exact h

theorem special_scan {a : Analysis} {before : Char} :
    (scan a before cs).special = (a.special || cs.any isSpecial) := by
  induction cs generalizing a before with
  | nil => simp [scan]
  | cons c rest ih => rw [scan, ih, List.any_cons, Bool.or_assoc]

theorem special_of (cs : List Char) : (of cs).special = cs.any isSpecial := by
  cases cs with
  | nil => rfl
  | cons c rest => rw [of, special_scan, List.any_cons]

theorem legible_of_special (h : (of cs).special = false) : Legible cs := by
  rw [special_of, List.any_eq_false] at h
  exact fun c hc => isLegible_of_not_special (Bool.eq_false_iff.mpr (h c hc))

theorem legible_of_allowsPlain (h : (of cs).allowsPlain = true) : Legible cs := by
  refine legible_of_special ?_
  simp only [allowsPlain, Bool.not_eq_true', Bool.or_eq_false_iff] at h
  exact h.1.1.2

theorem legible_of_allowsSingle (h : (of cs).allowsSingle = true) : Legible cs := by
  refine legible_of_special ?_
  simp only [allowsSingle, Bool.not_eq_true', Bool.or_eq_false_iff] at h
  exact h.2

end Analysis

/-! ## Steps of the writer -/

namespace Writer

/-- What was written is legible. -/
def Wrote (w : Writer) : Prop := Legible w.written

theorem Wrote.put (h : w.Wrote) (hcs : Legible cs) : (w.put cs).Wrote :=
  legible_append.mpr ⟨legible_reverse.mpr hcs, h⟩

theorem Wrote.newline (h : w.Wrote) : w.newline.Wrote := legible_cons.mpr ⟨by decide, h⟩

theorem Wrote.toMargin (h : w.Wrote) (indent : Nat) : (w.toMargin indent).Wrote := by
  have hmargin : ∀ {w : Writer} (n : Nat), w.Wrote →
      Wrote { w.put (List.replicate n ' ') with atGap := true } :=
    fun n hw => hw.put (legible_replicate n (by decide))
  rw [Writer.toMargin]
  dsimp only
  split_ifs
  · exact hmargin _ h.newline
  · exact h.newline
  · exact hmargin _ h
  · exact h

theorem Wrote.indicator (h : w.Wrote) (hcs : Legible cs) (needsGap keepsMargin : Bool) :
    (w.indicator cs needsGap keepsMargin).Wrote := by
  have hspaced : Legible (if w.atGap || !needsGap then cs else ' ' :: cs) := by
    split
    · exact hcs
    · exact legible_cons.mpr ⟨by decide, hcs⟩
  exact h.put hspaced

theorem Wrote.inText (h : w.Wrote) : w.inText.Wrote := h

theorem legible_of_mem_runs (h : Legible cs) {run : List Char} (hrun : run ∈ runs cs) :
    Legible run := by
  refine h.of_subset fun c hc => ?_
  rw [← List.flatten_splitBy _ cs]
  exact List.mem_flatten.mpr ⟨run, hrun, hc⟩

theorem Wrote.plain (h : w.Wrote) (hcs : Legible cs) : (w.plain f cs).Wrote := by
  have hfold : ∀ (rows : List (List Char)) (w : Writer), w.Wrote → (∀ run ∈ rows, Legible run) →
      (rows.foldl (fun w run => if run == [' '] && width < w.column && f.allowed then
        (w.toMargin f.indent).inText else w.put run) w).Wrote := by
    intro rows
    induction rows with
    | nil => exact fun _ hw _ => hw
    | cons run rest ih =>
        intro w hw hrows
        obtain ⟨hrun, hrest⟩ := List.forall_mem_cons.mp hrows
        refine ih _ ?_ hrest
        dsimp only
        split
        · exact (hw.toMargin _).inText
        · exact hw.put hrun
  rw [Writer.plain]
  refine hfold _ _ (Wrote.inText ?_) (fun _ => legible_of_mem_runs hcs)
  split
  · exact h
  · exact h.put (by decide)

theorem Wrote.singleRun (h : w.Wrote) {run : List Char} (hrun : Legible run) (isInner : Bool) :
    (w.singleRun f isInner run).Wrote := by
  unfold Writer.singleRun
  split
  · split
    · exact h.toMargin _
    · exact h.put hrun
  · refine Wrote.toMargin ?_ _
    have hlines : ∀ (cs : List Char) (w : Writer), w.Wrote →
        (cs.foldl (fun w _ => w.newline) w).Wrote := by
      intro cs
      induction cs with
      | nil => exact fun _ hw => hw
      | cons c rest ih => exact fun _ hw => ih _ hw.newline
    exact hlines _ _ h.newline
  · exact h.put (legible_append.mpr ⟨hrun, hrun⟩)
  · exact h.put hrun

theorem Wrote.singleRuns {isFirst : Bool} {rows : List (List Char)} (h : w.Wrote)
    (hrows : ∀ run ∈ rows, Legible run) : (Writer.singleRuns f isFirst rows w).Wrote := by
  induction rows generalizing isFirst w with
  | nil => exact h
  | cons run rest ih =>
      obtain ⟨hrun, hrest⟩ := List.forall_mem_cons.mp hrows
      exact ih (h.singleRun hrun _) hrest

theorem Wrote.single (h : w.Wrote) (hcs : Legible cs) : (w.single f cs).Wrote :=
  ((h.indicator (by decide) _ _).singleRuns fun _ => legible_of_mem_runs hcs).indicator
    (by decide) _ _

/-! ## Double quotes -/

theorem isLegible_of_escapeLetter? {letter : Char} (h : escapeLetter? c = some letter) :
    IsLegible letter := by
  rw [escapeLetter?] at h
  split at h
  iterate 15
    next => exact Option.some.inj h ▸ (by decide)
  next => cases h

theorem legible_escape (c : Char) : Legible (escape c) := by
  have hslash : IsLegible '\\' := by decide
  rw [escape]
  split
  next hletter => simp [hslash, isLegible_of_escapeLetter? hletter]
  next =>
    split
    · exact legible_cons.mpr ⟨hslash, legible_cons.mpr ⟨by decide, legible_upper_hex _ _⟩⟩
    split
    · exact legible_cons.mpr ⟨hslash, legible_cons.mpr ⟨by decide, legible_upper_hex _ _⟩⟩
    · exact legible_cons.mpr ⟨hslash, legible_cons.mpr ⟨by decide, legible_upper_hex _ _⟩⟩

theorem isLegible_of_not_escaped (h : ¬ isEscaped c = true) : IsLegible c := by
  simp only [isEscaped, Bool.or_eq_true, Bool.not_eq_true', not_or, Bool.not_eq_false,
    Bool.and_eq_true, decide_eq_true_eq] at h
  exact Or.inr h.2

theorem Wrote.breakLine (h : w.Wrote) (next : Option Char) : (w.breakLine f next).Wrote := by
  have hslash : Legible ['\\'] := by decide
  have hbroken := ((h.put hslash).toMargin f.indent).inText
  rw [Writer.breakLine]
  split
  · exact hbroken.put hslash
  · exact hbroken

theorem Wrote.doubleBody {isFirst : Bool} {held : List Char} (h : w.Wrote) (hheld : Legible held) :
    (Writer.doubleBody f isFirst held cs w).Wrote := by
  induction cs generalizing isFirst held w with
  | nil => exact h.put (legible_reverse.mpr hheld)
  | cons c rest ih =>
      have hput := h.put (legible_reverse.mpr hheld)
      rw [Writer.doubleBody]
      dsimp only
      split
      · refine ih ?_ legible_nil
        split
        · exact (hput.put (legible_escape c)).breakLine _
        · exact hput.put (legible_escape c)
      next hshown =>
        have hc := isLegible_of_not_escaped hshown
        split
        · exact ih (hput.breakLine _) (legible_cons.mpr ⟨hc, legible_nil⟩)
        · exact ih h (legible_cons.mpr ⟨hc, hheld⟩)

theorem Wrote.double (h : w.Wrote) (cs : List Char) : (w.double f cs).Wrote :=
  ((h.indicator (by decide) _ _).doubleBody legible_nil).indicator (by decide) _ _

end Writer

/-! ## Documents -/

open Writer (Wrote)

theorem wrote_writeScalar (h : w.Wrote) (f : Writer.Folding) (s : ScalarForm) :
    (writeScalar w f s).Wrote := by
  rw [writeScalar]
  split
  next hplain => exact h.plain (Analysis.legible_of_allowsPlain (Bool.and_eq_true_iff.mp hplain).2)
  split
  next hsingle =>
    exact h.single (Analysis.legible_of_allowsSingle (Bool.and_eq_true_iff.mp hsingle).1)
  · exact h.double _

theorem wrote_writeLeaf (h : w.Wrote) (indent : Option Nat) (mayFold : Bool) (d : Document) :
    (writeLeaf w indent mayFold d).Wrote := by
  unfold writeLeaf
  split
  · exact (h.indicator (by decide) _ _).put (by decide)
  · exact (h.indicator (by decide) _ _).put (by decide)
  · exact wrote_writeScalar h _ _

theorem wrote_writeKey (h : w.Wrote) (indent : Nat) (key : Document) :
    (writeKey w indent key).Wrote := by
  have hmargin := h.toMargin indent
  rw [writeKey]
  dsimp only
  split
  · exact (wrote_writeLeaf hmargin _ _ _).indicator (by decide) _ _
  · have hmark : Legible ['?'] := by decide
    have hkey := wrote_writeLeaf (hmargin.indicator hmark true true) (some indent) true key
    exact (hkey.toMargin indent).indicator (by decide) _ _

mutual

theorem wrote_writeNode (indent : Option Nat) (inMapping : Bool) {w : Writer} (h : w.Wrote) :
    (d : Document) → (writeNode indent inMapping w d).Wrote
  | .list (x :: xs) => by
      rw [writeNode]
      exact wrote_writeItems _ h (x :: xs)
  | .mapping (e :: es) => by
      rw [writeNode]
      exact wrote_writeEntries _ h (e :: es)
  | .list [] | .mapping [] | .null | .bool _ | .int _ | .float _ | .text _ | .date _ => by
      simpa only [writeNode] using wrote_writeLeaf h _ _ _

theorem wrote_writeItems (indent : Nat) {w : Writer} (h : w.Wrote) :
    (items : List Document) → (writeItems indent w items).Wrote
  | [] => h
  | d :: rest => by
      rw [writeItems]
      have hmark : Legible ['-'] := by decide
      have hitem := (h.toMargin indent).indicator hmark true true
      exact wrote_writeItems indent (wrote_writeNode (some indent) false hitem d) rest

theorem wrote_writeEntries (indent : Nat) {w : Writer} (h : w.Wrote) :
    (entries : List (Document × Document)) → (writeEntries indent w entries).Wrote
  | [] => h
  | (k, v) :: rest => by
      rw [writeEntries]
      exact wrote_writeEntries indent
        (wrote_writeNode (some indent) true (wrote_writeKey h indent k) v) rest

end

theorem legible_write (d : Document) : Legible (write d).toList := by
  have hstart : ({} : Writer).Wrote := legible_nil
  have hnode := (wrote_writeNode none false hstart d).toMargin 0
  rw [write, String.toList_ofList, legible_reverse]
  split
  · exact (hnode.indicator (by decide) _ _).toMargin 0
  · exact hnode

end Yaml

namespace Document

/-- A document is written in line feeds and the characters from the space to the tilde, whatever
the format and whatever characters the document holds. -/
theorem legible_serialize {d : Document} {format : Format} {s : String}
    (h : d.serialize format = .ok s) : Legible s.toList := by
  cases format with
  | json =>
      rw [serialize] at h
      split at h
      next hwrite =>
        cases h
        exact Json.legible_write? hwrite
      · cases h
  | yaml =>
      rw [serialize] at h
      split at h
      · cases h
      · cases h
        exact Yaml.legible_write d

end Document

end StubTree
