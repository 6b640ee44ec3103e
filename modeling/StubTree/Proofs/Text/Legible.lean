import Mathlib.Data.List.Basic
import StubTree.Proofs.Number.Digits
import StubTree.Text.Ansi
import StubTree.Text.Quoted

/-! # Legible texts

A text of line feeds and the characters from the space to the tilde. Every number is written so,
and no control sequence of a terminal is: taking these out leaves a legible text as it is.
-/

namespace StubTree

namespace Text

variable {c : Char} {cs cs' : List Char}

/-- A line feed or a character that stands for itself on every terminal. -/
def IsLegible (c : Char) : Prop := c = '\n' ∨ (' ' ≤ c ∧ c ≤ '~')

instance : DecidablePred IsLegible := fun c =>
  inferInstanceAs (Decidable (c = '\n' ∨ (' ' ≤ c ∧ c ≤ '~')))

/-- Characters that are legible all of them. -/
def Legible (cs : List Char) : Prop := ∀ c ∈ cs, IsLegible c

instance : DecidablePred Legible := fun cs => List.decidableBAll IsLegible cs

@[simp] theorem legible_nil : Legible [] := fun _ h => by cases h

@[simp] theorem legible_cons : Legible (c :: cs) ↔ IsLegible c ∧ Legible cs := List.forall_mem_cons

@[simp] theorem legible_append : Legible (cs ++ cs') ↔ Legible cs ∧ Legible cs' :=
  List.forall_mem_append

@[simp] theorem legible_reverse : Legible cs.reverse ↔ Legible cs := by
  simp only [Legible, List.mem_reverse]

theorem legible_replicate (n : Nat) (h : IsLegible c) : Legible (List.replicate n c) :=
  fun _ hc => List.eq_of_mem_replicate hc ▸ h

theorem Legible.of_subset (h : Legible cs) (hsubset : cs' ⊆ cs) : Legible cs' :=
  fun _ hc => h _ (hsubset hc)

theorem legible_flatMap {f : Char → List Char} (h : ∀ c, Legible (f c)) (cs : List Char) :
    Legible (cs.flatMap f) := by
  intro c hc
  obtain ⟨c', -, hc'⟩ := List.mem_flatMap.mp hc
  exact h c' c hc'

theorem legible_toList_append {s t : String} :
    Legible (s ++ t).toList ↔ Legible s.toList ∧ Legible t.toList := by
  rw [String.toList_append, legible_append]

/-- What holds of the pieces and of what joins them holds of the whole, if it is kept by
appending. -/
theorem intercalate_induction {motive : String → Prop} {sep : String} {pieces : List String}
    (empty : motive "") (append : ∀ s t, motive s → motive t → motive (s ++ t)) (hsep : motive sep)
    (hpieces : ∀ piece ∈ pieces, motive piece) : motive (sep.intercalate pieces) := by
  induction pieces with
  | nil => exact empty
  | cons first rest ih =>
      obtain ⟨hfirst, hrest⟩ := List.forall_mem_cons.mp hpieces
      cases rest with
      | nil =>
          rw [String.intercalate_singleton]
          exact hfirst
      | cons second rest =>
          rw [String.intercalate_cons_cons]
          exact append _ _ (append _ _ hfirst hsep) (ih hrest)

theorem legible_intercalate {sep : String} {pieces : List String} (hsep : Legible sep.toList)
    (hpieces : ∀ piece ∈ pieces, Legible piece.toList) :
    Legible (sep.intercalate pieces).toList :=
  intercalate_induction (motive := fun s => Legible s.toList) legible_nil
    (fun _ _ hs ht => legible_toList_append.mpr ⟨hs, ht⟩) hsep hpieces

/-! ## Control sequences -/

theorem Legible.escape_not_mem (h : Legible cs) : '\x1b' ∉ cs := fun hmem =>
  absurd (h _ hmem) (by decide)

theorem Ansi.afterSequence?_of_ne (h : c ≠ '\x1b') : afterSequence? (c :: cs) = none := by
  rw [afterSequence?]
  rintro _ ⟨⟩
  exact h rfl

theorem Ansi.strip_of_not_mem (h : '\x1b' ∉ cs) : strip cs = cs := by
  induction cs with
  | nil => simp [strip, afterSequence?]
  | cons c rest ih =>
      rw [List.mem_cons, not_or] at h
      have hnone : afterSequence? (c :: rest) = none := afterSequence?_of_ne (Ne.symm h.1)
      rw [strip]
      split
      next hsome =>
        rw [hnone] at hsome
        cases hsome
      next =>
        dsimp only
        rw [ih h.2]

/-- A legible text has no styling to take out. -/
theorem plain_of_legible {s : String} (h : Legible s.toList) : plain s = s := by
  rw [plain, Ansi.strip_of_not_mem h.escape_not_mem, String.ofList_toList]

/-! ## Digits -/

theorem isLegible_digitChar (n : Nat) : IsLegible n.digitChar ∧ IsLegible n.digitChar.toUpper := by
  by_cases h : n < 16
  · revert n
    decide
  · have hstar : n.digitChar = '*' := by
      unfold Nat.digitChar
      simp only [show ∀ k < 16, n ≠ k by omega, Nat.reduceLT, if_false]
    rw [hstar]
    decide

theorem exists_digitChar_of_mem_toDigits {base n : Nat} (h : c ∈ Nat.toDigits base n) :
    ∃ k : Nat, c = k.digitChar := by
  have hcore : ∀ (fuel n : Nat) (ds : List Char), (∀ c ∈ ds, ∃ k : Nat, c = k.digitChar) →
      ∀ c ∈ Nat.toDigitsCore base fuel n ds, ∃ k : Nat, c = k.digitChar := by
    intro fuel
    induction fuel with
    | zero => exact fun _ _ hds => hds
    | succ fuel ih =>
        intro n ds hds
        have hmore : ∀ c ∈ (n % base).digitChar :: ds, ∃ k : Nat, c = k.digitChar :=
          List.forall_mem_cons.mpr ⟨⟨_, rfl⟩, hds⟩
        rw [Nat.toDigitsCore]
        split
        · exact hmore
        · exact ih _ _ hmore
  exact hcore _ _ _ (fun _ h => by cases h) c h

theorem legible_toDigits (base n : Nat) : Legible (Nat.toDigits base n) := by
  intro c hc
  obtain ⟨k, rfl⟩ := exists_digitChar_of_mem_toDigits hc
  exact (isLegible_digitChar k).1

theorem legible_hex (width n : Nat) : Legible (hex width n) :=
  legible_append.mpr ⟨legible_replicate _ (by decide), legible_toDigits 16 n⟩

theorem legible_upper_hex (width n : Nat) : Legible ((hex width n).map Char.toUpper) := by
  intro c hc
  obtain ⟨d, hd, rfl⟩ := List.mem_map.mp hc
  rcases List.mem_append.mp hd with hzero | hdigit
  · rw [List.eq_of_mem_replicate hzero]
    decide
  · obtain ⟨k, rfl⟩ := exists_digitChar_of_mem_toDigits hdigit
    exact (isLegible_digitChar k).2

end Text

namespace Number

open Text

theorem legible_digitsOf (n : Nat) : Legible (digitsOf n) := legible_toDigits 10 n

theorem legible_intText (i : Int) : Legible (intText i).toList := by
  rw [intText, String.toList_ofList]
  refine legible_append.mpr ⟨?_, legible_digitsOf _⟩
  split <;> decide

theorem IsNumeral.isLegible {c : Char} (h : IsNumeral c) : IsLegible c := by
  rcases h with hdigit | hmark
  · obtain ⟨hlow, hhigh⟩ := bounds_of_isDigit hdigit
    exact .inr ⟨Char.le_trans (by decide) hlow, Char.le_trans hhigh (by decide)⟩
  · have hmarks : Legible ['.', 'e', '+', '-'] := by decide
    exact hmarks c hmark

theorem Binary64.legible_print (digits : Nat → Decimal) (layout : Layout) (x : Binary64) :
    Legible (x.print digits layout).toList := by
  cases x with
  | finite negative units =>
      exact fun c hc => (isNumeral_print_finite digits layout negative units c hc).isLegible
  | infinite negative =>
      have hboth : Legible "-inf".toList ∧ Legible "inf".toList := by decide
      cases negative
      · exact hboth.2
      · exact hboth.1
  | nan =>
      have hnan : Legible "nan".toList := by decide
      exact hnan

theorem Binary64.legible_text (x : Binary64) : Legible x.text.toList := x.legible_print _ _

theorem Binary64.legible_brief (x : Binary64) : Legible x.brief.toList := x.legible_print _ _

theorem legible_natText (n : Nat) : Legible (natText n).toList := by
  rw [natText, String.toList_ofList]
  exact legible_digitsOf n

end Number

end StubTree
