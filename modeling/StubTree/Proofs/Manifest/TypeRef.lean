import StubTree.Manifest.TypeRef
import StubTree.Proofs.Text.Blank

/-! # References as they are read

The references that reading gives, and all the texts that are read as one of them: its name, the
brackets if it has any, and blanks around both. Of these texts one has no blanks, and it is how the
reference is written.
-/

namespace StubTree.TypeRef

open Text (Blanks Trimmed)

variable {ref : TypeRef} {s : String} {cs before : List Char}

theorem beforeBrackets?_eq_some :
    beforeBrackets? cs = some before ↔ cs = before ++ "[]".toList := by
  have hreverse : cs = before ++ "[]".toList ↔ cs.reverse = ']' :: '[' :: before.reverse := by
    rw [← List.reverse_inj, List.reverse_append]
    rfl
  rw [beforeBrackets?, hreverse]
  split
  next rest h =>
    simp [h, ← List.reverse_eq_iff]
  next hnone =>
    constructor
    · intro h
      cases h
    · intro h
      exact absurd h (hnone _)

theorem beforeBrackets?_eq_none : beforeBrackets? cs = none ↔ ¬ "[]".toList <:+ cs := by
  rw [Option.eq_none_iff_forall_ne_some, List.IsSuffix, not_exists]
  exact forall_congr' fun before => not_congr (beforeBrackets?_eq_some.trans eq_comm)

/-- What a reference is that was read. -/
structure Proper (ref : TypeRef) : Prop where
  named : ref.fullName ≠ ""
  trimmed : Trimmed ref.fullName.toList
  unbracketed : ref.isArray = false → ¬ "[]".toList <:+ ref.fullName.toList
  listable : ref.isArray = true → ref.fullName ≠ voidName

/-- A reference with something between its name and its brackets. -/
def spelling (ref : TypeRef) (between : List Char) : List Char :=
  if ref.isArray then ref.fullName.toList ++ between ++ "[]".toList else ref.fullName.toList

/-- A text that spells a reference, with any blanks in front of it, before its brackets and behind
it. -/
def IsSpelledBy (ref : TypeRef) (s : String) : Prop :=
  ∃ before between after, Blanks before ∧ Blanks between ∧ Blanks after ∧
    s.toList = before ++ ref.spelling between ++ after

theorem toList_text (ref : TypeRef) : ref.text.toList = ref.spelling [] := by
  rw [text, spelling]
  split <;> simp

theorem isSpelledBy_text (ref : TypeRef) : ref.IsSpelledBy ref.text :=
  ⟨[], [], [], Text.blanks_nil, Text.blanks_nil, Text.blanks_nil, by simp [toList_text]⟩

/-- Nothing but blanks between a name and its brackets leaves both ends as they are. -/
theorem Proper.trimmed_spelling (h : ref.Proper) (between : List Char) :
    Trimmed (ref.spelling between) := by
  rw [spelling]
  split
  next =>
    refine ⟨?_, by simp [Text.isBlank]⟩
    have hname : ref.fullName.toList ≠ [] := by simpa using h.named
    obtain ⟨c, rest, hcons⟩ := List.exists_cons_of_ne_nil hname
    have hhead := h.trimmed.head
    rw [hcons] at hhead ⊢
    exact hhead
  next => exact h.trimmed

/-! ## Reading -/

/-- What reading takes from a text, without the texts of its faults. -/
theorem read_eq_ok :
    read s = .ok ref ↔ ref.fullName ≠ "" ∧
      if ref.isArray then
        ref.fullName ≠ voidName ∧ ∃ before, Text.trim s.toList = before ++ "[]".toList ∧
          Text.trim before = ref.fullName.toList
      else
        Text.trim s.toList = ref.fullName.toList ∧ ¬ "[]".toList <:+ ref.fullName.toList := by
  rw [read]
  split
  next hblank =>
    refine iff_of_false (by simp) ?_
    rintro ⟨hnamed, h⟩
    rw [hblank] at h
    split at h
    · obtain ⟨-, before, hnil, -⟩ := h
      simp at hnil
    · exact hnamed (String.toList_inj.mp h.1.symm)
  next hne =>
    split
    next hplain =>
      rw [beforeBrackets?_eq_none] at hplain
      constructor
      · rintro ⟨⟩
        exact ⟨by simpa using hne, by simpa using hplain⟩
      · rintro ⟨-, h⟩
        obtain ⟨fullName, isArray⟩ := ref
        cases isArray with
        | true =>
            obtain ⟨-, before, htrim, -⟩ := h
            exact absurd ⟨before, htrim.symm⟩ hplain
        | false => simp [h.1]
    next before hlisted =>
      rw [beforeBrackets?_eq_some] at hlisted
      dsimp only
      constructor
      · intro h
        split at h
        next => cases h
        next hgood =>
          cases h
          rw [Bool.or_eq_true, beq_iff_eq, beq_iff_eq, not_or] at hgood
          exact ⟨hgood.1, hgood.2, before, hlisted, String.toList_ofList.symm⟩
      · rintro ⟨hnamed, h⟩
        obtain ⟨fullName, isArray⟩ := ref
        cases isArray with
        | true =>
            obtain ⟨hlistable, other, htrim, hinner⟩ := h
            rw [hlisted] at htrim
            rw [List.append_cancel_right htrim, hinner, String.ofList_toList, if_neg]
            simpa using ⟨hnamed, hlistable⟩
        | false =>
            obtain ⟨htrim, hunbracketed⟩ := h
            exact absurd ⟨before, hlisted.symm.trans htrim⟩ hunbracketed

theorem read_eq_ok_iff : read s = .ok ref ↔ ref.Proper ∧ ref.IsSpelledBy s := by
  rw [read_eq_ok]
  constructor
  · rintro ⟨hnamed, h⟩
    split at h
    next harray =>
      obtain ⟨hlistable, inner, houter, hinner⟩ := h
      obtain ⟨-, before, after, hbefore, hafter, hs⟩ := Text.trim_eq_iff.mp houter
      obtain ⟨htrimmed, lead, between, hlead, hbetween, rfl⟩ := Text.trim_eq_iff.mp hinner
      refine ⟨⟨hnamed, htrimmed, by simp [harray], fun _ => hlistable⟩, before ++ lead, between,
        after, hbefore.append hlead, hbetween, hafter, ?_⟩
      rw [hs, spelling, if_pos harray]
      simp
    next hsingle =>
      obtain ⟨htrim, hunbracketed⟩ := h
      obtain ⟨htrimmed, before, after, hbefore, hafter, hs⟩ := Text.trim_eq_iff.mp htrim
      refine ⟨⟨hnamed, htrimmed, fun _ => hunbracketed, fun harray => absurd harray hsingle⟩,
        before, [], after, hbefore, Text.blanks_nil, hafter, ?_⟩
      rw [hs, spelling, if_neg hsingle]
  · rintro ⟨hproper, before, between, after, hbefore, hbetween, hafter, hs⟩
    have htrim : Text.trim s.toList = ref.spelling between :=
      Text.trim_eq_iff.mpr ⟨hproper.trimmed_spelling between, before, after, hbefore, hafter, hs⟩
    refine ⟨hproper.named, ?_⟩
    rw [spelling] at htrim
    split at htrim
    next harray =>
      rw [if_pos harray]
      refine ⟨hproper.listable harray, _, htrim, ?_⟩
      exact Text.trim_eq_iff.mpr
        ⟨hproper.trimmed, [], between, Text.blanks_nil, hbetween, by simp⟩
    next hsingle =>
      rw [if_neg hsingle]
      exact ⟨htrim, hproper.unbracketed (Bool.eq_false_iff.mpr hsingle)⟩

/-! ## Writing -/

theorem Proper.isArray_iff (h : ref.Proper) :
    ref.isArray = true ↔ "[]".toList <:+ ref.text.toList := by
  rw [toList_text, spelling]
  split
  next harray => exact iff_of_true harray (List.suffix_append _ _)
  next hsingle => exact iff_of_false hsingle (h.unbracketed (Bool.eq_false_iff.mpr hsingle))

theorem Proper.isVoid_iff (h : ref.Proper) : ref.isVoid = true ↔ ref.text = voidName := by
  rw [isVoid, beq_iff_eq, text]
  split
  next harray =>
    refine iff_of_false (h.listable harray) fun heq => ?_
    -- A text that ends in brackets is not that of nothing.
    have hsuffix : "[]".toList <:+ voidName.toList := by
      rw [← heq, String.toList_append]
      exact List.suffix_append _ _
    revert hsuffix
    decide
  next => rfl

/-- What is read can be written and read again. It is read from just the texts that spell it, and
how it is written shows whether it is a list and whether it is nothing. -/
theorem read_canonical (h : read s = .ok ref) :
    read ref.text = .ok ref ∧
    ref.fullName ≠ "" ∧ Trimmed ref.fullName.toList ∧
    (ref.isArray = true ↔ "[]".toList <:+ ref.text.toList) ∧
    (ref.isVoid = true ↔ ref.text = "void") ∧
    ∀ t, read t = .ok ref ↔ ref.IsSpelledBy t := by
  obtain ⟨hproper, -⟩ := read_eq_ok_iff.mp h
  have hread : ∀ t, read t = .ok ref ↔ ref.IsSpelledBy t :=
    fun t => read_eq_ok_iff.trans (and_iff_right hproper)
  exact ⟨(hread _).mpr ref.isSpelledBy_text, hproper.named, hproper.trimmed, hproper.isArray_iff,
    hproper.isVoid_iff, hread⟩

/-- Brackets of a name are part of it, and lists of such a name are no lists of nothing. -/
theorem read_canonical_nested :
    read "\u3000void[]\t[]\u00a0" = .ok ⟨"void[]", true⟩ ∧
    read (text ⟨"void[]", true⟩) = .ok ⟨"void[]", true⟩ ∧
    isVoid ⟨"void[]", true⟩ = false := by
  have hread : read "\u3000void[]\t[]\u00a0" = .ok ⟨"void[]", true⟩ := by rfl
  obtain ⟨hagain, -, -, -, hvoid, -⟩ := read_canonical hread
  exact ⟨hread, hagain, Bool.eq_false_iff.mpr fun h => absurd (hvoid.mp h) (by decide)⟩

end StubTree.TypeRef
