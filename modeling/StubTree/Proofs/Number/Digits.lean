import Mathlib.Data.List.TakeWhile
import StubTree.Number.Decimal

/-! # Digits

The digits of a number, the zeros that may stand before or behind them, and the few other
characters that a number is written with.
-/

namespace StubTree.Number

variable {c : Char} {cs ds : List Char}

theorem bounds_of_isDigit (h : c.isDigit = true) : '0' ≤ c ∧ c ≤ '9' := by
  simpa [Char.isDigit, Char.le_def] using h

/-- Nothing but ASCII digits. -/
def IsDigits (cs : List Char) : Prop := ∀ c ∈ cs, c.isDigit = true

@[simp] theorem isDigits_append : IsDigits (cs ++ ds) ↔ IsDigits cs ∧ IsDigits ds :=
  List.forall_mem_append

theorem isDigits_zeros (n : Nat) : IsDigits (List.replicate n '0') := by
  intro c hc
  rw [List.eq_of_mem_replicate hc]
  decide

theorem isDigits_digitsOf (n : Nat) : IsDigits (digitsOf n) := fun _ hc =>
  Nat.isDigit_of_mem_toDigits (by decide) (by decide) hc

theorem IsDigits.beq_eq_false (h : IsDigits cs) {d : Char} (hd : d.isDigit = false) :
    ∀ c ∈ cs, (c == d) = false := by
  intro c hc
  rw [beq_eq_false_iff_ne]
  rintro rfl
  simp [h c hc] at hd

theorem ofDigitChars_digitsOf (n : Nat) : Nat.ofDigitChars 10 (digitsOf n) 0 = n :=
  Nat.ofDigitChars_ten_toDigits

theorem digitsOf_ne_nil (n : Nat) : digitsOf n ≠ [] := Nat.toDigits_ne_nil

theorem isDigits_padded (width n : Nat) : IsDigits (padded width n).toList := by
  rw [padded, String.toList_ofList]
  exact isDigits_append.mpr ⟨isDigits_zeros _, isDigits_digitsOf n⟩

theorem ofDigitChars_zeros_append (n : Nat) (cs : List Char) :
    Nat.ofDigitChars 10 (List.replicate n '0' ++ cs) 0 = Nat.ofDigitChars 10 cs 0 := by
  rw [Nat.ofDigitChars_append, Nat.ofDigitChars_replicate_zero, Nat.mul_zero]

/-! ## Zeros at the end -/

theorem dropTrailingZeros_ne_nil (ds : List Char) : dropTrailingZeros ds ≠ [] := by
  unfold dropTrailingZeros
  split
  · simp
  · assumption

/-- Only zeros are left off, and one stays if there is nothing else. -/
theorem exists_zeros (h : ds ≠ []) : ∃ k, ds = dropTrailingZeros ds ++ List.replicate k '0' := by
  have hzeros : ∀ c ∈ ds.reverse.takeWhile (· == '0'), c = '0' := by
    intro c hc
    simpa using List.mem_takeWhile_imp hc
  obtain ⟨k, hsplit⟩ : ∃ k, ds =
      (ds.reverse.dropWhile (· == '0')).reverse ++ List.replicate k '0' := by
    refine ⟨(ds.reverse.takeWhile (· == '0')).length, ?_⟩
    calc ds = (ds.reverse.takeWhile (· == '0') ++ ds.reverse.dropWhile (· == '0')).reverse := by
          rw [List.takeWhile_append_dropWhile, List.reverse_reverse]
      _ = _ := by
          rw [List.reverse_append, congrArg List.reverse (List.eq_replicate_of_mem hzeros),
            List.reverse_replicate]
  unfold dropTrailingZeros
  split
  next hnil =>
    -- All the digits are zeros, so the one that is kept was among them.
    rw [hnil, List.nil_append] at hsplit
    cases k with
    | zero => exact absurd hsplit h
    | succ k => exact ⟨k, hsplit⟩
  next => exact ⟨k, hsplit⟩

/-- The digits of a decimal that are set out. -/
def Decimal.kept (d : Decimal) : List Char := dropTrailingZeros (digitsOf d.digits)

namespace Decimal

theorem kept_ne_nil (d : Decimal) : d.kept ≠ [] := dropTrailingZeros_ne_nil _

/-- Only zeros behind them are left off. -/
theorem exists_digitsOf_eq (d : Decimal) :
    ∃ k, digitsOf d.digits = d.kept ++ List.replicate k '0' :=
  exists_zeros (digitsOf_ne_nil d.digits)

theorem isDigits_kept (d : Decimal) : IsDigits d.kept := by
  obtain ⟨k, hk⟩ := d.exists_digitsOf_eq
  have h := isDigits_digitsOf d.digits
  rw [hk, isDigits_append] at h
  exact h.1

end Decimal

/-! ## The characters of a number -/

/-- A digit, a point, or what an exponent is marked with. -/
def IsNumeral (c : Char) : Prop := c.isDigit = true ∨ c ∈ ['.', 'e', '+', '-']

instance : DecidablePred IsNumeral := fun c =>
  inferInstanceAs (Decidable (c.isDigit = true ∨ c ∈ ['.', 'e', '+', '-']))

theorem IsDigits.numeral (h : IsDigits cs) : ∀ c ∈ cs, IsNumeral c := fun c hc => .inl (h c hc)

theorem isNumeral_exponentMark (e : Int) : ∀ c ∈ exponentMark e, IsNumeral c := by
  rw [exponentMark, List.forall_mem_cons, List.forall_mem_cons]
  refine ⟨.inr (by decide), .inr ?_, (isDigits_padded 2 e.natAbs).numeral⟩
  split <;> decide

/-- Every character that a decimal is set out with is one of a number's. -/
theorem isNumeral_print (layout : Layout) (d : Decimal) : ∀ c ∈ layout.print d, IsNumeral c := by
  have hkept := d.isDigits_kept.numeral
  have hzeros (n : Nat) := (isDigits_zeros n).numeral
  have hpoint : IsNumeral '.' := .inr (by decide)
  rw [Layout.print, ← Decimal.kept]
  dsimp only
  split
  · split
    · simpa only [List.forall_mem_append, List.forall_mem_cons] using
        ⟨⟨.inl (by decide), hpoint, hzeros _⟩, hkept⟩
    · split
      · have htail : ∀ c ∈ if layout.pointZero then ['.', '0'] else [], IsNumeral c := by
          split
          · exact List.forall_mem_cons.mpr ⟨hpoint, hzeros 1⟩
          · simp
        simpa only [List.forall_mem_append] using ⟨⟨hkept, hzeros _⟩, htail⟩
      · simp only [List.forall_mem_append, List.forall_mem_cons]
        exact ⟨fun c hc => hkept c (List.mem_of_mem_take hc), hpoint,
          fun c hc => hkept c (List.mem_of_mem_drop hc)⟩
  · split
    next heq =>
      rw [heq, List.forall_mem_singleton] at hkept
      exact List.forall_mem_cons.mpr ⟨hkept, isNumeral_exponentMark d.exponent⟩
    next heq =>
      rw [heq, List.forall_mem_cons] at hkept
      simp only [List.forall_mem_append, List.forall_mem_cons]
      exact ⟨⟨hkept.1, hpoint, hkept.2⟩, isNumeral_exponentMark d.exponent⟩
    next => simp

theorem isNumeral_print_finite (digits : Nat → Decimal) (layout : Layout) (negative : Bool)
    (units : Nat) :
    ∀ c ∈ ((Binary64.finite negative units).print digits layout).toList, IsNumeral c := by
  rw [Binary64.print, String.toList_ofList, List.forall_mem_append]
  have hsign : IsNumeral '-' := .inr (by decide)
  refine ⟨?_, isNumeral_print layout _⟩
  cases negative with
  | false => exact List.forall_mem_nil _
  | true => exact List.forall_mem_singleton.mpr hsign

end StubTree.Number
