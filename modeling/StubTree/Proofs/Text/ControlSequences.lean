import Mathlib.Data.List.TakeWhile
import StubTree.Proofs.Text.Legible

/-! # Control sequences of a terminal

No character is of two of the kinds that follow each other in a control sequence, and none of
them is an escape. So what stands at the front of a text decides whether a control sequence
stands there and where it ends, no two of them overlap, and stripping takes out exactly those
that stand in the text. What stood before and behind one is joined then. A control sequence is
left where one was broken, that is where others stood between its characters, and nowhere else.
-/

namespace StubTree.Text

namespace Ansi

variable {cs rest s s' back front kept piece : List Char} {c : Char}

/-! ## One control sequence -/

/-- Escape, bracket, parameters, intermediates and one final character. -/
def IsSequence (cs : List Char) : Prop :=
  ∃ parameters intermediates final,
    cs = '\x1b' :: '[' :: (parameters ++ intermediates ++ [final]) ∧
      (∀ c ∈ parameters, isParameter c = true) ∧
      (∀ c ∈ intermediates, isIntermediate c = true) ∧ isFinal final = true

theorem isParameter_iff : isParameter c = true ↔ 0x30 ≤ c.toNat ∧ c.toNat ≤ 0x3F := by
  simp [isParameter, Char.le_def, UInt32.le_iff_toNat_le]

theorem isIntermediate_iff : isIntermediate c = true ↔ 0x20 ≤ c.toNat ∧ c.toNat ≤ 0x2F := by
  simp [isIntermediate, Char.le_def, UInt32.le_iff_toNat_le]

theorem isFinal_iff : isFinal c = true ↔ 0x40 ≤ c.toNat ∧ c.toNat ≤ 0x7E := by
  simp [isFinal, Char.le_def, UInt32.le_iff_toNat_le]

theorem afterSequence?_of_isSequence (h : IsSequence s) (rest : List Char) :
    afterSequence? (s ++ rest) = some rest := by
  obtain ⟨parameters, intermediates, final, rfl, hparameters, hintermediates, hfinal⟩ := h
  -- What stops the parameters is an intermediate or the final character.
  have hend : (intermediates ++ final :: rest).dropWhile isParameter
      = intermediates ++ final :: rest := by
    cases intermediates with
    | nil =>
        rw [List.nil_append, List.dropWhile_cons_of_neg]
        rw [isFinal_iff] at hfinal
        rw [isParameter_iff]
        omega
    | cons first others =>
        have hfirst := isIntermediate_iff.mp (hintermediates first List.mem_cons_self)
        rw [List.cons_append, List.dropWhile_cons_of_neg]
        rw [isParameter_iff]
        omega
  have hfinal' : (final :: rest).dropWhile isIntermediate = final :: rest := by
    rw [List.dropWhile_cons_of_neg]
    rw [isFinal_iff] at hfinal
    rw [isIntermediate_iff]
    omega
  have hbody : ((parameters ++ intermediates ++ [final] ++ rest).dropWhile isParameter).dropWhile
      isIntermediate = final :: rest := by
    rw [List.append_assoc, List.append_assoc, List.singleton_append,
      List.dropWhile_append_of_pos hparameters, hend,
      List.dropWhile_append_of_pos hintermediates, hfinal']
  simp only [List.cons_append, afterSequence?, hbody, hfinal, if_true]

theorem exists_of_afterSequence? (h : afterSequence? cs = some rest) :
    ∃ s, IsSequence s ∧ cs = s ++ rest := by
  unfold afterSequence? at h
  split at h
  · next body =>
    split at h
    · next final behind heq =>
      split at h
      · next hfinal =>
        cases h
        have hbody : body = body.takeWhile isParameter
            ++ (body.dropWhile isParameter).takeWhile isIntermediate ++ [final] ++ rest := by
          rw [List.append_assoc _ [final], List.singleton_append, ← heq, List.append_assoc,
            List.takeWhile_append_dropWhile, List.takeWhile_append_dropWhile]
        exact ⟨'\x1b' :: '[' :: (body.takeWhile isParameter
            ++ (body.dropWhile isParameter).takeWhile isIntermediate ++ [final]),
          ⟨_, _, final, rfl, fun c hc => List.mem_takeWhile_imp hc,
            fun c hc => List.mem_takeWhile_imp hc, hfinal⟩,
          congrArg ('\x1b' :: '[' :: ·) hbody⟩
      · contradiction
    · contradiction
  · contradiction

/-- What the front of a text decides: whether a control sequence stands there, and where it
ends. -/
theorem afterSequence?_eq_some_iff :
    afterSequence? cs = some rest ↔ ∃ s, IsSequence s ∧ cs = s ++ rest := by
  constructor
  · exact exists_of_afterSequence?
  · rintro ⟨s, hs, rfl⟩
    exact afterSequence?_of_isSequence hs rest

/-- Only the first character of a control sequence stands below the space. -/
theorem IsSequence.exists_tail (h : IsSequence s) :
    ∃ tail, s = '\x1b' :: tail ∧ tail ≠ [] ∧ ∀ c ∈ tail, ' ' ≤ c := by
  obtain ⟨parameters, intermediates, final, rfl, hparameters, hintermediates, hfinal⟩ := h
  refine ⟨_, rfl, List.cons_ne_nil _ _, fun c hc => ?_⟩
  simp only [List.mem_cons, List.mem_append, List.not_mem_nil, or_false] at hc
  rw [Char.le_def, UInt32.le_iff_toNat_le]
  change 0x20 ≤ c.toNat
  rcases hc with rfl | (hc | hc) | rfl
  · decide
  · have := isParameter_iff.mp (hparameters c hc)
    omega
  · exact (isIntermediate_iff.mp (hintermediates c hc)).1
  · have := isFinal_iff.mp hfinal
    omega

/-- Two texts that begin with a control sequence begin with the same one if they are the same. -/
theorem IsSequence.append_inj (h : IsSequence s) (h' : IsSequence s')
    (heq : s ++ cs = s' ++ rest) : s = s' ∧ cs = rest := by
  have hafter : afterSequence? (s ++ cs) = some cs := afterSequence?_of_isSequence h cs
  rw [heq, afterSequence?_of_isSequence h' rest] at hafter
  obtain rfl := Option.some.inj hafter
  exact ⟨List.append_cancel_right heq, rfl⟩

/-- A control sequence does not go on behind a character below the space. -/
theorem afterSequence?_append (h : front ≠ []) (hc : c < ' ') (rest : List Char) :
    afterSequence? (front ++ c :: rest) = (afterSequence? front).map (· ++ c :: rest) := by
  cases hfront : afterSequence? front with
  | some behind =>
      obtain ⟨s, hs, rfl⟩ := exists_of_afterSequence? hfront
      rw [List.append_assoc, afterSequence?_of_isSequence hs, Option.map_some]
  | none =>
      rw [Option.map_none, Option.eq_none_iff_forall_ne_some]
      intro behind hbehind
      obtain ⟨s, hs, heq⟩ := exists_of_afterSequence? hbehind
      rcases List.append_eq_append_iff.mp heq with ⟨gap, rfl, hgap⟩ | ⟨gap, rfl, -⟩
      · cases gap with
        | nil =>
            rw [List.append_nil] at hs
            have hself := afterSequence?_of_isSequence hs []
            rw [List.append_nil, hfront] at hself
            cases hself
        | cons first others =>
            -- The control sequence would reach the character, which is not its first one.
            obtain ⟨rfl, -⟩ := List.cons.inj hgap
            obtain ⟨tail, htail, -, hinner⟩ := hs.exists_tail
            cases front with
            | nil => exact h rfl
            | cons head others' =>
                obtain ⟨-, rfl⟩ := List.cons.inj htail
                exact absurd hc (Char.not_lt.mpr (hinner c (by simp)))
      · rw [afterSequence?_of_isSequence hs gap] at hfront
        cases hfront

/-! ## Stripping -/

@[simp] theorem strip_nil : strip [] = [] := by
  simp [strip, afterSequence?]

theorem strip_sequence (h : IsSequence s) (cs : List Char) : strip (s ++ cs) = strip cs := by
  have hafter := afterSequence?_of_isSequence h cs
  rw [strip]
  split
  next hsome => rw [Option.some.inj (hsome.symm.trans hafter)]
  next hnone =>
    rw [hafter] at hnone
    cases hnone

theorem strip_cons (h : afterSequence? (c :: cs) = none) : strip (c :: cs) = c :: strip cs := by
  rw [strip]
  split
  next hsome =>
    rw [h] at hsome
    cases hsome
  next => rfl

theorem strip_cons_of_ne (h : c ≠ '\x1b') (cs : List Char) : strip (c :: cs) = c :: strip cs :=
  strip_cons (afterSequence?_of_ne h)

/-- A text is empty, begins with a control sequence, or begins with a character that stays. -/
@[elab_as_elim]
theorem sequence_induction {motive : List Char → Prop} (nil : motive [])
    (sequence : ∀ s cs, IsSequence s → motive cs → motive (s ++ cs))
    (cons : ∀ c cs, afterSequence? (c :: cs) = none → motive cs → motive (c :: cs))
    (cs : List Char) : motive cs := by
  fun_induction strip cs with
  | case1 cs rest h ih =>
      obtain ⟨s, hs, rfl⟩ := exists_of_afterSequence? h
      exact sequence s rest hs ih
  | case2 => exact nil
  | case3 c rest h ih => exact cons c rest h ih

/-- Stripping works by itself on both sides of a place where a control sequence can only begin. -/
theorem strip_append_control (hc : c < ' ') (cs rest : List Char) :
    strip (cs ++ c :: rest) = strip cs ++ strip (c :: rest) := by
  induction cs using sequence_induction with
  | nil => simp
  | sequence s cs hs ih => rw [List.append_assoc, strip_sequence hs, ih, strip_sequence hs]
  | cons first cs h ih =>
      have hkept : afterSequence? (first :: (cs ++ c :: rest)) = none := by
        rw [← List.cons_append, afterSequence?_append (List.cons_ne_nil _ _) hc, h]
        rfl
      rw [List.cons_append, strip_cons hkept, ih, strip_cons h, List.cons_append]

theorem strip_append_sequence (h : IsSequence s) (cs rest : List Char) :
    strip (cs ++ (s ++ rest)) = strip cs ++ strip rest := by
  obtain ⟨tail, rfl, -⟩ := h.exists_tail
  rw [List.cons_append, strip_append_control (by decide), ← List.cons_append, strip_sequence h]

/-- Where every escape begins a control sequence, what follows is stripped by itself. -/
theorem strip_append (h : '\x1b' ∉ strip cs) (rest : List Char) :
    strip (cs ++ rest) = strip cs ++ strip rest := by
  induction cs using sequence_induction with
  | nil => simp
  | sequence s cs hs ih =>
      rw [strip_sequence hs] at h
      rw [List.append_assoc, strip_sequence hs, strip_sequence hs, ih h]
  | cons c cs hkept ih =>
      rw [strip_cons hkept, List.mem_cons, not_or] at h
      rw [List.cons_append, strip_cons_of_ne (Ne.symm h.1), strip_cons hkept, ih h.2,
        List.cons_append]

/-! ## Texts that hold a control sequence -/

/-- A control sequence stands somewhere in the text. -/
def Holds (cs : List Char) : Prop := ∃ s, IsSequence s ∧ s <:+: cs

@[simp] theorem not_holds_nil : ¬ Holds [] := by
  rintro ⟨s, hs, hwithin⟩
  obtain ⟨tail, rfl, -⟩ := hs.exists_tail
  simp at hwithin

theorem holds_cons : Holds (c :: cs) ↔ (afterSequence? (c :: cs)).isSome = true ∨ Holds cs := by
  rw [Option.isSome_iff_exists]
  constructor
  · rintro ⟨s, hs, hwithin⟩
    rcases List.infix_cons_iff.mp hwithin with ⟨rest, hrest⟩ | hwithin
    · exact Or.inl ⟨rest, afterSequence?_eq_some_iff.mpr ⟨s, hs, hrest.symm⟩⟩
    · exact Or.inr ⟨s, hs, hwithin⟩
  · rintro (⟨rest, hrest⟩ | ⟨s, hs, hwithin⟩)
    · obtain ⟨s, hs, heq⟩ := exists_of_afterSequence? hrest
      exact ⟨s, hs, heq ▸ List.infix_append_left⟩
    · exact ⟨s, hs, List.infix_cons hwithin⟩

instance decidableHolds : DecidablePred Holds
  | [] => isFalse not_holds_nil
  | _ :: cs =>
    have := decidableHolds cs
    decidable_of_iff _ holds_cons.symm

theorem Holds.escape_mem (h : Holds cs) : '\x1b' ∈ cs := by
  obtain ⟨s, hs, hwithin⟩ := h
  obtain ⟨tail, rfl, -⟩ := hs.exists_tail
  exact hwithin.subset List.mem_cons_self

/-- No control sequence stands on both sides of a place where one can only begin. -/
theorem holds_append_control (hc : c < ' ') (cs rest : List Char) :
    Holds (cs ++ c :: rest) ↔ Holds cs ∨ Holds (c :: rest) := by
  induction cs with
  | nil => simp
  | cons first cs ih =>
      rw [List.cons_append, holds_cons, ih, @holds_cons cs first, ← List.cons_append,
        afterSequence?_append (List.cons_ne_nil _ _) hc, Option.isSome_map, or_assoc]

theorem strip_sublist (cs : List Char) : (strip cs).Sublist cs := by
  induction cs using sequence_induction with
  | nil => simp
  | sequence s cs hs ih =>
      rw [strip_sequence hs]
      exact ih.trans (List.sublist_append_right s cs)
  | cons c cs h ih =>
      rw [strip_cons h]
      exact ih.cons_cons c

/-- Stripping leaves just those texts as they are that hold no control sequence. -/
theorem strip_eq_self_iff : strip cs = cs ↔ ¬ Holds cs := by
  induction cs using sequence_induction with
  | nil => simp
  | sequence s cs hs ih =>
      refine iff_of_false ?_ (not_not.mpr ⟨s, hs, List.infix_append_left⟩)
      rw [strip_sequence hs]
      intro heq
      obtain ⟨tail, rfl, -⟩ := hs.exists_tail
      have hlength := (strip_sublist cs).length_le
      rw [heq, List.length_append, List.length_cons] at hlength
      omega
  | cons c cs h ih =>
      rw [strip_cons h, holds_cons, h, List.cons_inj_right, ih]
      simp

/-! ## Where a text is cut -/

/-- A text in pieces: what stands before the first cut, and for every cut what is cut out there
with the piece behind it. -/
structure Cut where
  first : List Char
  others : List (List Char × List Char)

namespace Cut

/-- The text with everything in it. -/
def whole (cut : Cut) : List Char := cut.first ++ cut.others.flatMap fun p => p.1 ++ p.2

/-- The pieces joined. -/
def joined (cut : Cut) : List Char := cut.first ++ cut.others.flatMap (·.2)

/-- The text is cut at all its control sequences: these are cut out, and no piece holds another
one. -/
structure AtSequences (cut : Cut) (cs : List Char) : Prop where
  whole_eq : cut.whole = cs
  isSequence : ∀ p ∈ cut.others, IsSequence p.1
  first_free : ¬ Holds cut.first
  other_free : ∀ p ∈ cut.others, ¬ Holds p.2

/-- However a text is cut at its control sequences, the pieces are what stripping leaves. -/
theorem AtSequences.joined_eq {cut : Cut} (h : cut.AtSequences cs) : cut.joined = strip cs := by
  obtain ⟨first, others⟩ := cut
  obtain ⟨rfl, hsequences, hfirst, hothers⟩ := h
  dsimp only [whole, joined] at *
  induction others generalizing first with
  | nil =>
      simp only [List.flatMap_nil, List.append_nil]
      exact (strip_eq_self_iff.mpr hfirst).symm
  | cons p others ih =>
      obtain ⟨hp, hsequences⟩ := List.forall_mem_cons.mp hsequences
      obtain ⟨hpiece, hothers⟩ := List.forall_mem_cons.mp hothers
      simp only [List.flatMap_cons, List.append_assoc]
      rw [strip_append_sequence hp, strip_eq_self_iff.mpr hfirst, ih p.2 hsequences hpiece hothers]

/-- Every text can be cut so. -/
theorem exists_atSequences (cs : List Char) : ∃ cut : Cut, cut.AtSequences cs := by
  induction cs using sequence_induction with
  | nil => exact ⟨⟨[], []⟩, rfl, by simp, not_holds_nil, by simp⟩
  | sequence s cs hs ih =>
      obtain ⟨⟨first, others⟩, rfl, hsequences, hfirst, hothers⟩ := ih
      exact ⟨⟨[], (s, first) :: others⟩, by simp [whole],
        List.forall_mem_cons.mpr ⟨hs, hsequences⟩, not_holds_nil,
        List.forall_mem_cons.mpr ⟨hfirst, hothers⟩⟩
  | cons c cs h ih =>
      obtain ⟨⟨first, others⟩, rfl, hsequences, hfirst, hothers⟩ := ih
      refine ⟨⟨c :: first, others⟩, rfl, hsequences, fun hholds => ?_, hothers⟩
      rcases holds_cons.mp hholds with hsome | hholds
      · -- A control sequence at the front of the piece would be one at the front of the text.
        obtain ⟨behind, hbehind⟩ := Option.isSome_iff_exists.mp hsome
        obtain ⟨s, hs, heq⟩ := exists_of_afterSequence? hbehind
        rw [whole, ← List.cons_append, heq, List.append_assoc, afterSequence?_of_isSequence hs]
          at h
        cases h
      · exact hfirst hholds

end Cut

/-! ## Broken control sequences -/

/-- The second text is the first with control sequences put before and behind its characters. -/
inductive Threaded : List Char → List Char → Prop
  | nil : Threaded [] []
  | keep {kept cs : List Char} (c : Char) : Threaded kept cs → Threaded (c :: kept) (c :: cs)
  | put {s kept cs : List Char} : IsSequence s → Threaded kept cs → Threaded kept (s ++ cs)

/-- A control sequence in parts, with others between the parts. -/
def IsBroken (cs : List Char) : Prop :=
  ∃ front back s rest, IsSequence (front ++ back) ∧ front ≠ [] ∧ back ≠ [] ∧
    IsSequence s ∧ Threaded back rest ∧ cs = front ++ (s ++ rest)

/-- A broken control sequence stands somewhere in the text. -/
def HoldsBroken (cs : List Char) : Prop := ∃ broken, IsBroken broken ∧ broken <:+: cs

/-- The front of what is left stands at the front of the text, with what was taken out of it. -/
theorem exists_threaded (h : strip cs = kept ++ back) :
    ∃ text, text <+: cs ∧ Threaded kept text := by
  induction cs using sequence_induction generalizing kept with
  | nil =>
      rw [strip_nil] at h
      obtain ⟨rfl, -⟩ := List.append_eq_nil_iff.mp h.symm
      exact ⟨[], List.nil_prefix, .nil⟩
  | sequence s cs hs ih =>
      rw [strip_sequence hs] at h
      obtain ⟨text, hprefix, htext⟩ := ih h
      exact ⟨s ++ text, (List.prefix_append_right_inj s).mpr hprefix, .put hs htext⟩
  | cons c cs hkept ih =>
      cases kept with
      | nil => exact ⟨[], List.nil_prefix, .nil⟩
      | cons head others =>
          rw [strip_cons hkept, List.cons_append] at h
          obtain ⟨rfl, hothers⟩ := List.cons.inj h
          obtain ⟨text, hprefix, htext⟩ := ih hothers
          exact ⟨c :: text, (List.prefix_cons_inj c).mpr hprefix, .keep c htext⟩

/-- The front of what is left is the front of the text as well, unless a control sequence was
taken out before its end. -/
theorem prefix_or_exists_threaded (h : strip cs = kept ++ back) :
    kept <+: cs ∨ ∃ front tail s rest, kept = front ++ tail ∧ tail ≠ [] ∧ IsSequence s ∧
      Threaded tail rest ∧ front ++ (s ++ rest) <+: cs := by
  induction cs using sequence_induction generalizing kept with
  | nil =>
      rw [strip_nil] at h
      obtain ⟨rfl, -⟩ := List.append_eq_nil_iff.mp h.symm
      exact Or.inl List.nil_prefix
  | sequence s cs hs ih =>
      by_cases hnil : kept = []
      · subst hnil
        exact Or.inl List.nil_prefix
      · rw [strip_sequence hs] at h
        obtain ⟨rest, hprefix, hrest⟩ := exists_threaded h
        exact Or.inr ⟨[], kept, s, rest, rfl, hnil, hs, hrest,
          (List.prefix_append_right_inj s).mpr hprefix⟩
  | cons c cs hkept ih =>
      cases kept with
      | nil => exact Or.inl List.nil_prefix
      | cons head others =>
          rw [strip_cons hkept, List.cons_append] at h
          obtain ⟨rfl, hothers⟩ := List.cons.inj h
          rcases ih hothers with hprefix | ⟨front, tail, s, rest, rfl, htail, hs, hrest, hprefix⟩
          · exact Or.inl ((List.prefix_cons_inj c).mpr hprefix)
          · exact Or.inr ⟨c :: front, tail, s, rest, rfl, htail, hs, hrest,
              (List.prefix_cons_inj c).mpr hprefix⟩

/-- A control sequence at the front of what is left was broken in the text. -/
theorem holdsBroken_of_strip_eq (hs : IsSequence s) (h : strip cs = s ++ rest) :
    HoldsBroken cs := by
  induction cs using sequence_induction with
  | nil =>
      obtain ⟨tail, rfl, -⟩ := hs.exists_tail
      simp at h
  | sequence s' cs hs' ih =>
      rw [strip_sequence hs'] at h
      obtain ⟨broken, hbroken, hwithin⟩ := ih h
      exact ⟨broken, hbroken, List.infix_append_of_infix_right hwithin⟩
  | cons c cs hkept ih =>
      obtain ⟨tail, rfl, -⟩ := hs.exists_tail
      rw [strip_cons hkept, List.cons_append] at h
      obtain ⟨rfl, hothers⟩ := List.cons.inj h
      rcases prefix_or_exists_threaded hothers with ⟨behind, rfl⟩ |
        ⟨front, back, s', rest', rfl, hback, hs', hrest', hprefix⟩
      · -- Unbroken, it would have been taken out itself.
        rw [← List.cons_append, afterSequence?_of_isSequence hs] at hkept
        cases hkept
      · exact ⟨'\x1b' :: front ++ (s' ++ rest'), ⟨'\x1b' :: front, back, s', rest', hs,
          List.cons_ne_nil _ _, hback, hs', hrest', rfl⟩,
          ((List.prefix_cons_inj _).mpr hprefix).isInfix⟩

theorem strip_of_threaded (h : Threaded kept cs) (hescape : '\x1b' ∉ kept) (rest : List Char) :
    strip (cs ++ rest) = kept ++ strip rest := by
  induction h with
  | nil => rfl
  | keep c _ ih =>
      rw [List.mem_cons, not_or] at hescape
      rw [List.cons_append, strip_cons_of_ne (Ne.symm hescape.1), ih hescape.2, List.cons_append]
  | put hs _ ih => rw [List.append_assoc, strip_sequence hs, ih hescape]

/-- Stripping joins the parts of a control sequence that was broken. -/
theorem holds_strip_of_isBroken {broken : List Char} (h : IsBroken broken) (cs rest : List Char) :
    Holds (strip (cs ++ broken ++ rest)) := by
  obtain ⟨front, back, s, text, hwhole, hfront, hback, hs, htext, rfl⟩ := h
  cases front with
  | nil => exact absurd rfl hfront
  | cons head front =>
  obtain ⟨tail, htail, -, hinner⟩ := hwhole.exists_tail
  rw [List.cons_append] at htail
  obtain ⟨rfl, rfl⟩ := List.cons.inj htail
  have hescape : '\x1b' ∉ front ++ back := fun hmem => absurd (hinner _ hmem) (by decide)
  rw [List.mem_append, not_or] at hescape
  -- The first part alone is no control sequence, and holds none.
  have hfree : strip ('\x1b' :: front) = '\x1b' :: front := by
    rw [strip_eq_self_iff, holds_cons]
    rintro (hsome | hholds)
    · obtain ⟨behind, hbehind⟩ := Option.isSome_iff_exists.mp hsome
      obtain ⟨s', hs', heq⟩ := exists_of_afterSequence? hbehind
      have hsame : ('\x1b' :: front ++ back) ++ [] = s' ++ (behind ++ back) := by
        rw [List.append_nil, ← List.append_assoc, ← heq]
      exact hback (List.append_eq_nil_iff.mp (hwhole.append_inj hs' hsame).2.symm).2
    · exact hescape.1 hholds.escape_mem
  refine ⟨'\x1b' :: front ++ back, hwhole, strip cs, strip rest, ?_⟩
  calc strip cs ++ ('\x1b' :: front ++ back) ++ strip rest
      = strip cs ++ (strip ('\x1b' :: front) ++ strip (text ++ rest)) := by
        rw [strip_of_threaded htext hescape.2, hfree]
        simp only [List.append_assoc]
    _ = strip (cs ++ ('\x1b' :: front ++ (s ++ text)) ++ rest) := by
        rw [← strip_append_sequence hs, List.cons_append, ← strip_append_control (by decide)]
        simp only [List.append_assoc, List.cons_append]

/-- The end of what is left is left of an end of the text. -/
theorem exists_suffix (h : strip cs = front ++ back) : ∃ text, text <:+ cs ∧ strip text = back := by
  induction cs using sequence_induction generalizing front with
  | nil =>
      rw [strip_nil] at h
      exact ⟨[], List.nil_suffix, by simp [(List.append_eq_nil_iff.mp h.symm).2]⟩
  | sequence s cs hs ih =>
      rw [strip_sequence hs] at h
      obtain ⟨text, hsuffix, htext⟩ := ih h
      exact ⟨text, hsuffix.trans (List.suffix_append s cs), htext⟩
  | cons c cs hkept ih =>
      cases front with
      | nil => exact ⟨c :: cs, List.suffix_rfl, h⟩
      | cons head front =>
          rw [strip_cons hkept] at h
          obtain ⟨text, hsuffix, htext⟩ := ih (List.cons.inj h).2
          exact ⟨text, hsuffix.trans (List.suffix_cons c cs), htext⟩

/-- What is left of a text holds a control sequence exactly if the text holds a broken one. -/
theorem holds_strip_iff : Holds (strip cs) ↔ HoldsBroken cs := by
  constructor
  · rintro ⟨s, hs, before, behind, heq⟩
    rw [List.append_assoc] at heq
    obtain ⟨text, hsuffix, htext⟩ := exists_suffix heq.symm
    obtain ⟨broken, hbroken, hwithin⟩ := holdsBroken_of_strip_eq hs htext
    exact ⟨broken, hbroken, hwithin.trans hsuffix.isInfix⟩
  · rintro ⟨broken, hbroken, before, behind, rfl⟩
    exact holds_strip_of_isBroken hbroken before behind

/-! ## Styled texts -/

/-- Every escape in the text begins a control sequence. -/
def IsStyled (cs : List Char) : Prop := '\x1b' ∉ strip cs

theorem IsStyled.not_holds (h : IsStyled cs) : ¬ Holds (strip cs) := fun hholds =>
  h hholds.escape_mem

theorem isStyled_of_not_mem (h : '\x1b' ∉ cs) : IsStyled cs := fun hmem =>
  h ((strip_sublist cs).subset hmem)

theorem IsSequence.isStyled (h : IsSequence s) : IsStyled s := by
  rw [IsStyled, ← List.append_nil s, strip_sequence h, strip_nil]
  exact List.not_mem_nil

theorem IsStyled.append (h : IsStyled cs) (h' : IsStyled rest) : IsStyled (cs ++ rest) := by
  rw [IsStyled, strip_append h, List.mem_append, not_or]
  exact ⟨h, h'⟩

end Ansi

open Ansi

theorem isStyled_toList_append {s t : String} (h : IsStyled s.toList) (h' : IsStyled t.toList) :
    IsStyled (s ++ t).toList := by
  rw [String.toList_append]
  exact h.append h'

theorem isStyled_rendition {code : String} (h : code.toList.all isParameter = true) :
    IsStyled (rendition code).toList := by
  have hwhole : IsSequence (rendition code).toList :=
    ⟨code.toList, [], 'm', by simp [rendition], List.all_eq_true.mp h, by simp, by decide⟩
  exact hwhole.isStyled

/-- What is painted is styled, if it holds no escape itself. -/
theorem isStyled_paint {s : String} (style : Style) (h : '\x1b' ∉ s.toList) :
    IsStyled (style.paint s).toList := by
  have hcolour : IsStyled (rendition style.colour.code).toList :=
    isStyled_rendition (by cases style.colour <;> decide)
  have hoption : ∀ (on : Bool) (code : String), code.toList.all isParameter = true →
      IsStyled (if on then rendition code else "").toList := by
    intro on code hcode
    cases on with
    | false => exact isStyled_of_not_mem (by simp)
    | true => exact isStyled_rendition hcode
  exact isStyled_toList_append (isStyled_toList_append (isStyled_toList_append
    (isStyled_toList_append hcolour (hoption style.bold "1" (by decide)))
    (hoption style.underline "4" (by decide))) (isStyled_of_not_mem h))
    (isStyled_rendition (by decide))

theorem isStyled_intercalate {sep : String} {pieces : List String} (hsep : IsStyled sep.toList)
    (hpieces : ∀ piece ∈ pieces, IsStyled piece.toList) :
    IsStyled (sep.intercalate pieces).toList :=
  intercalate_induction (motive := fun s => IsStyled s.toList) (isStyled_of_not_mem (by simp))
    (fun _ _ => isStyled_toList_append) hsep hpieces

end StubTree.Text
