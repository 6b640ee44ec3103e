import Mathlib.Algebra.Order.Field.Rat
import Mathlib.Tactic.Ring
import StubTree.Number.Reading
import StubTree.Proofs.Number.Digits

/-! # Decimal text read back

However the digits of a decimal are set out, with a point, with zeros on either side or with an
exponent, and whichever zeros are left off at their end, what is read there is exactly the value
of the decimal.
-/

namespace StubTree.Number

variable {c : Char} {cs ds rest : List Char} {n : Nat}

/-! ## Runs of digits -/

theorem digitRun?_eq (h : IsDigits cs) : digitRun? cs = some cs := by
  fun_induction digitRun? cs with
  | case1 => rfl
  | case2 => rfl
  | case3 c hc => exact absurd (h c (by simp)) hc
  | case4 c d rest hc ih => exact absurd (h '_' (by simp)) (by decide)
  | case5 c d rest hc => exact absurd (h '_' (by simp)) (by decide)
  | case6 c rest _ _ hc ih => rw [ih fun d hd => h d (List.mem_cons_of_mem c hd), Option.map_some]
  | case7 c rest _ _ hc => exact absurd (h c (by simp)) hc

theorem digitValue?_eq (h : c.isDigit = true) : digitValue? 10 c = some (c.toNat - '0'.toNat) := by
  obtain ⟨hlow, hhigh⟩ := bounds_of_isDigit h
  have hvalue : c.toNat - '0'.toNat < 10 := by
    have : c.toNat ≤ '9'.toNat := hhigh
    have : '9'.toNat - '0'.toNat < 10 := by decide
    omega
  simpa [digitValue?, hlow, hhigh] using hvalue

theorem foldl_digitValue? (h : IsDigits cs) (n : Nat) :
    cs.foldl (fun acc c => do return (← acc) * 10 + (← digitValue? 10 c)) (some n) =
      some (Nat.ofDigitChars 10 cs n) := by
  induction cs generalizing n with
  | nil => rw [List.foldl_nil, Nat.ofDigitChars_nil]
  | cons c cs ih =>
      obtain ⟨hc, hcs⟩ := List.forall_mem_cons.mp h
      rw [List.foldl_cons, Nat.ofDigitChars_cons, digitValue?_eq hc, ← ih hcs, Nat.mul_comm 10]
      rfl

theorem readDigits?_eq (hne : cs ≠ []) (h : IsDigits cs) :
    readDigits? 10 cs = some (Nat.ofDigitChars 10 cs 0) := by
  rw [readDigits?, if_neg (by simpa using hne)]
  exact foldl_digitValue? h 0

/-! ## Separating characters -/

theorem cutAt_of_forall {p : Char → Bool} (h : ∀ c ∈ cs, p c = false) :
    cutAt p cs = (cs, none) := by
  have hdrop : cs.dropWhile (!p ·) = [] := by
    rw [List.dropWhile_eq_nil_iff]
    intro c hc
    rw [h c hc]
    rfl
  rw [cutAt, hdrop]

theorem cutAt_append {p : Char → Bool} (h : ∀ c ∈ cs, p c = false) (hc : p c = true) :
    cutAt p (cs ++ c :: rest) = (cs, some rest) := by
  have hcs : ∀ c ∈ cs, (!p c) = true := fun c hc => by rw [h c hc]; rfl
  have hdrop : (cs ++ c :: rest).dropWhile (!p ·) = c :: rest := by
    rw [List.dropWhile_append_of_pos hcs, List.dropWhile_cons_of_neg (by simp [hc])]
  have htake : (cs ++ c :: rest).takeWhile (!p ·) = cs := by
    rw [List.takeWhile_append_of_pos hcs, List.takeWhile_cons_of_neg (by simp [hc]),
      List.append_nil]
  rw [cutAt, hdrop]
  simp only [htake]

/-! ## Exact values -/

/-- The number that unsigned decimal text spells. -/
def exactValue? (cs : List Char) : Option ℚ :=
  (scientific? cs).map fun (digits, exponent) => digits * 10 ^ exponent

/-- Nothing in the text sets an exponent off. -/
def Unmarked (cs : List Char) : Prop := ∀ c ∈ cs, (c == 'e' || c == 'E') = false

theorem IsDigits.unmarked (h : IsDigits cs) : Unmarked cs := by
  intro c hc
  rw [h.beq_eq_false (by decide) c hc, h.beq_eq_false (by decide) c hc, Bool.or_false]

theorem unmarked_point (hcs : IsDigits cs) (hds : IsDigits ds) : Unmarked (cs ++ '.' :: ds) := by
  intro c hc
  simp only [List.mem_append, List.mem_cons] at hc
  rcases hc with hc | rfl | hc
  · exact hcs.unmarked c hc
  · decide
  · exact hds.unmarked c hc

theorem exactValue?_digits (h : IsDigits cs) (hne : cs ≠ []) :
    exactValue? cs = some ((Nat.ofDigitChars 10 cs 0 : Nat) : ℚ) := by
  simp [exactValue?, scientific?, cutAt_of_forall h.unmarked,
    cutAt_of_forall (h.beq_eq_false (d := '.') (by decide)), digitRun?_eq h, digitRun?,
    readDigits?_eq hne h, readExponent?]

theorem exactValue?_point (hcs : IsDigits cs) (hds : IsDigits ds) (hne : cs ≠ []) :
    exactValue? (cs ++ '.' :: ds) =
      some ((Nat.ofDigitChars 10 (cs ++ ds) 0 : Nat) * (10 : ℚ) ^ (-ds.length : Int)) := by
  have hdigits := readDigits?_eq (List.append_ne_nil_of_left_ne_nil hne ds)
    (isDigits_append.mpr ⟨hcs, hds⟩)
  simp [exactValue?, scientific?, cutAt_of_forall (unmarked_point hcs hds),
    cutAt_append (hcs.beq_eq_false (d := '.') (by decide)) (beq_self_eq_true '.'),
    digitRun?_eq hcs, digitRun?_eq hds, hdigits, readExponent?]

theorem mul_pow_zpow_sub (x : ℚ) (n : Nat) (e : Int) : x * 10 ^ n * 10 ^ (e - n) = x * 10 ^ e := by
  rw [mul_assoc, ← zpow_natCast, ← zpow_add₀ (by norm_num), add_sub_cancel]

theorem readExponent?_mark (e : Int) : readExponent? (exponentMark e).tail = some e := by
  have hread : readDigits? 10 (padded 2 e.natAbs).toList = some e.natAbs := by
    rw [readDigits?_eq (by simp [padded, digitsOf_ne_nil]) (isDigits_padded 2 e.natAbs), padded,
      String.toList_ofList, ofDigitChars_zeros_append, ofDigitChars_digitsOf]
  have hrun := digitRun?_eq (isDigits_padded 2 e.natAbs)
  by_cases he : e < 0
  · have hvalue : -(e.natAbs : Int) = e := by omega
    simp only [exponentMark, if_pos he, List.tail_cons, readExponent?, splitSign,
      Option.bind_eq_bind, hrun, Option.bind_some, hread, if_true, hvalue]
    rfl
  · have hvalue : (e.natAbs : Int) = e := by omega
    simp only [exponentMark, if_neg he, List.tail_cons, readExponent?, splitSign,
      Option.bind_eq_bind, hrun, Option.bind_some, hread, Bool.false_eq_true, if_false, hvalue]
    rfl

/-- An exponent scales what stands before it. -/
theorem exactValue?_append_mark (h : Unmarked cs) (e : Int) :
    exactValue? (cs ++ exponentMark e) = (exactValue? cs).map (· * 10 ^ e) := by
  have hcut : cutAt (fun c => c == 'e' || c == 'E') (cs ++ exponentMark e) =
      (cs, some (exponentMark e).tail) := cutAt_append h (by decide)
  have hmark := readExponent?_mark e
  have hpow (n : Nat) : (10 : ℚ) ^ (e - n) = 10 ^ (0 - (n : Int)) * 10 ^ e := by
    rw [← zpow_add₀ (by norm_num), zero_sub, neg_add_eq_sub]
  have hzero : readExponent? none = some 0 := rfl
  rw [exactValue?, exactValue?, scientific?, scientific?, hcut, cutAt_of_forall h]
  simp [hmark, hzero, hpow, Option.map_bind, mul_assoc]

/-! ## Set out and read back -/

/-- What a decimal stands for: its first digit is the one of 10^`exponent`. -/
def Decimal.value (d : Decimal) : ℚ :=
  d.digits * 10 ^ (d.exponent + 1 - (digitsOf d.digits).length)

theorem ofDigitChars_append_zeros (cs : List Char) (n : Nat) :
    Nat.ofDigitChars 10 (cs ++ List.replicate n '0') 0 = Nat.ofDigitChars 10 cs 0 * 10 ^ n := by
  rw [Nat.ofDigitChars_append, Nat.ofDigitChars_replicate_zero, Nat.mul_comm]

namespace Decimal

/-- The zeros that are left off count in no other way. -/
theorem value_eq (d : Decimal) :
    d.value =
      (Nat.ofDigitChars 10 d.kept 0 : Nat) * (10 : ℚ) ^ (d.exponent + 1 - d.kept.length) := by
  obtain ⟨k, hk⟩ := d.exists_digitsOf_eq
  have hdigits : d.digits = Nat.ofDigitChars 10 d.kept 0 * 10 ^ k := by
    rw [← ofDigitChars_append_zeros, ← hk, ofDigitChars_digitsOf]
  have hlength : (digitsOf d.digits).length = d.kept.length + k := by
    rw [hk, List.length_append, List.length_replicate]
  rw [value, hlength, hdigits, Nat.cast_mul, Nat.cast_pow, Nat.cast_add, ← sub_sub]
  exact mul_pow_zpow_sub _ k _

end Decimal

theorem exactValue?_zeros_front (h : IsDigits ds) (n : Nat) :
    exactValue? ('0' :: '.' :: List.replicate n '0' ++ ds) =
      some ((Nat.ofDigitChars 10 ds 0 : Nat) * (10 : ℚ) ^ (-n - ds.length : Int)) := by
  have hpoint := exactValue?_point (isDigits_zeros 1)
    (isDigits_append.mpr ⟨isDigits_zeros n, h⟩) (by simp)
  rw [← List.append_assoc, List.replicate_append_replicate, ofDigitChars_zeros_append,
    List.length_append, List.length_replicate, Nat.cast_add, neg_add'] at hpoint
  exact hpoint

theorem exactValue?_zeros_behind (h : IsDigits ds) (hne : ds ≠ []) (n : Nat) (pointZero : Bool) :
    exactValue? (ds ++ List.replicate n '0' ++ if pointZero then ['.', '0'] else []) =
      some ((Nat.ofDigitChars 10 ds 0 : Nat) * (10 : ℚ) ^ n) := by
  have hzeros := isDigits_append.mpr ⟨h, isDigits_zeros n⟩
  cases pointZero with
  | false =>
      have hwhole := exactValue?_digits hzeros (by simp [hne])
      rw [ofDigitChars_append_zeros, Nat.cast_mul, Nat.cast_pow] at hwhole
      rw [if_neg (by simp), List.append_nil]
      exact hwhole
  | true =>
      have hpoint := exactValue?_point hzeros (isDigits_zeros 1) (by simp [hne])
      rw [ofDigitChars_append_zeros, ofDigitChars_append_zeros, List.length_replicate] at hpoint
      simpa using hpoint

theorem exactValue?_point_inside (h : IsDigits ds) (hn : 0 < n) (hlength : n ≤ ds.length) :
    exactValue? (ds.take n ++ '.' :: ds.drop n) =
      some ((Nat.ofDigitChars 10 ds 0 : Nat) * (10 : ℚ) ^ (n - ds.length : Int)) := by
  have htake : IsDigits (ds.take n) := fun c hc => h c (List.mem_of_mem_take hc)
  have hdrop : IsDigits (ds.drop n) := fun c hc => h c (List.mem_of_mem_drop hc)
  have hne : ds.take n ≠ [] := List.length_pos_iff.mp (by rw [List.length_take]; omega)
  rw [exactValue?_point htake hdrop hne, List.take_append_drop, List.length_drop,
    Nat.cast_sub hlength, neg_sub]

/-- However a decimal is set out, the text spells its value. -/
theorem exactValue?_print (layout : Layout) (d : Decimal) :
    exactValue? (layout.print d) = some d.value := by
  have hkept := d.isDigits_kept
  have hne := d.kept_ne_nil
  rw [d.value_eq, Layout.print, ← Decimal.kept]
  generalize d.kept = ds at hkept hne
  generalize d.exponent = e
  have hlength := List.length_pos_iff.mpr hne
  dsimp only
  split
  next =>
    split
    next hnegative =>
      rw [exactValue?_zeros_front hkept]
      congr 3
      omega
    next hnonneg =>
      split
      next hshort =>
        rw [exactValue?_zeros_behind hkept hne, ← zpow_natCast]
        congr 3
        omega
      next hlong =>
        rw [exactValue?_point_inside hkept (by omega) (by omega)]
        congr 3
        omega
  next =>
    obtain ⟨c, cs, rfl⟩ := List.exists_cons_of_ne_nil hne
    obtain ⟨hhead, htail⟩ := List.forall_mem_cons.mp hkept
    cases cs with
    | nil =>
      dsimp only
      rw [← List.singleton_append, exactValue?_append_mark hkept.unmarked,
        exactValue?_digits hkept hne]
      simp
    | cons d cs =>
      have hpoint := exactValue?_point_inside hkept Nat.one_pos hlength
      have hsplit : (c :: d :: cs).take 1 ++ '.' :: (c :: d :: cs).drop 1 = [c] ++ '.' :: d :: cs :=
        rfl
      rw [hsplit] at hpoint
      have hmarked := exactValue?_append_mark
        (unmarked_point (List.forall_mem_singleton.mpr hhead) htail) e
      rw [hpoint, Option.map_some, mul_assoc, ← zpow_add₀ (by norm_num), Nat.cast_one,
        sub_add_eq_add_sub, add_comm 1 e] at hmarked
      exact hmarked

/-! ## Signs -/

theorem splitSign_digit (h : c.isDigit = true) : splitSign (c :: cs) = (false, c :: cs) := by
  unfold splitSign
  split
  next heq =>
    obtain rfl := (List.cons.inj heq).1
    cases h
  next heq =>
    obtain rfl := (List.cons.inj heq).1
    cases h
  next => rfl

/-- A digit stands first, so no sign is read there. -/
theorem splitSign_print (layout : Layout) (d : Decimal) :
    splitSign (layout.print d) = (false, layout.print d) := by
  have hkept := d.isDigits_kept
  have hne := d.kept_ne_nil
  rw [Layout.print, ← Decimal.kept]
  generalize d.kept = ds at hkept hne
  obtain ⟨c, cs, rfl⟩ := List.exists_cons_of_ne_nil hne
  have hc := hkept c List.mem_cons_self
  dsimp only
  split
  · split
    · rfl
    · split
      · exact splitSign_digit hc
      · exact splitSign_digit hc
  · cases cs with
    | nil => exact splitSign_digit hc
    | cons => exact splitSign_digit hc

/-- The number that decimal text with a sign or without one spells. -/
def signedValue? (cs : List Char) : Option ℚ :=
  let (negative, body) := splitSign cs
  (exactValue? body).map fun value => if negative then -value else value

/-- What the digits that are chosen for a number of units stand for; nothing is shown as zero. -/
def shownValue (digits : Nat → Decimal) (units : Nat) : ℚ :=
  (if units == 0 then ⟨0, 0⟩ else digits units).value

@[simp] theorem shownValue_zero (digits : Nat → Decimal) : shownValue digits 0 = 0 := by
  simp [shownValue, Decimal.value]

theorem shownValue_of_pos {units : Nat} (digits : Nat → Decimal) (h : 0 < units) :
    shownValue digits units = (digits units).value := by
  simp [shownValue, h.ne']

/-- The text of a finite number spells its sign and what its digits stand for. -/
theorem signedValue?_print (digits : Nat → Decimal) (layout : Layout) (negative : Bool)
    (units : Nat) :
    signedValue? ((Binary64.finite negative units).print digits layout).toList =
      some (if negative then -shownValue digits units else shownValue digits units) := by
  rw [Binary64.print, String.toList_ofList, signedValue?, shownValue]
  cases negative with
  | false => simp [splitSign_print, exactValue?_print]
  | true => simp [splitSign, exactValue?_print]

end StubTree.Number
