import StubTree.Proofs.Number.Rounding
import StubTree.Proofs.Outcome
import StubTree.Report.Elapsed

/-! # Elapsed time, read back

What the text of a time shows is read back from its characters: hours and minutes, if they are
there, and seconds. Hours and minutes are those of the exact time. Seconds are rounded after the
minutes are split off, so that less than half a hundredth before a full minute sixty of them are
shown, and nowhere else.
-/

namespace StubTree.Elapsed

open Number

variable {units divisor : Nat} {mark : Char} {rest : List Char} {q : ℚ}

/-! ## Whole hours and minutes -/

/-- Where double precision has every whole number, division is exact. -/
theorem wholeTimes_eq (hpos : 0 < divisor)
    (h : units / (divisor * Binary64.one) * divisor < 2 ^ 53) :
    wholeTimes units divisor = units / (divisor * Binary64.one) := by
  have hone := Binary64.one_pos
  have hexact : units - units % (divisor * Binary64.one) =
      units / (divisor * Binary64.one) * divisor * Binary64.one * 1 := by
    rw [Nat.mul_one, Nat.mul_assoc, ← Nat.mul_comm (divisor * Binary64.one)]
    exact Nat.sub_eq_of_eq_add (Nat.div_add_mod units _).symm
  rw [wholeTimes, hexact]
  generalize units / (divisor * Binary64.one) = k at h
  have hquotient : k * divisor * Binary64.one = k * Binary64.one * divisor :=
    Nat.mul_right_comm _ _ _
  have hless : k < 2 ^ 53 := lt_of_le_of_lt (Nat.le_mul_of_pos_right k hpos) h
  rw [Binary64.roundUnits_mul Nat.one_pos h, hquotient, Binary64.roundUnits_mul hpos hless]
  generalize Binary64.one = one at hone ⊢
  rw [Nat.mul_div_cancel k hone, Nat.sub_self, Nat.mul_zero, if_neg (Nat.not_lt_zero one)]

/-! ## Reading the text -/

/-- What the text of a time shows. -/
structure Shown where
  hours : Option Nat
  minutes : Option Nat
  seconds : ℚ
  deriving DecidableEq

/-- A whole number before a mark and a blank, if the mark is there, and what follows. -/
def field? (mark : Char) (cs : List Char) : Option (Option Nat × List Char) :=
  match cutAt (· == mark) cs with
  | (_, none) => some (none, cs)
  | (digits, some (' ' :: rest)) => (readDigits? 10 digits).map fun n => (some n, rest)
  | _ => none

/-- A number with nothing but the mark of seconds behind it. -/
def seconds? (cs : List Char) : Option ℚ :=
  match cutAt (· == 's') cs with
  | (number, some []) => signedValue? number
  | _ => none

def Shown.read? (cs : List Char) : Option Shown := do
  let (hours, rest) ← field? 'h' cs
  let (minutes, rest) ← field? 'm' rest
  let seconds ← seconds? rest
  return ⟨hours, minutes, seconds⟩

/-- A whole number with its mark, if there is one. -/
def fieldText (mark : Char) : Option Nat → List Char
  | none => []
  | some n => digitsOf n ++ [mark, ' ']

theorem field?_fieldText (hmark : mark.isDigit = false) (hrest : mark ∉ rest) (n : Option Nat) :
    field? mark (fieldText mark n ++ rest) = some (n, rest) := by
  cases n with
  | none =>
    have habsent : ∀ c ∈ rest, (c == mark) = false := fun c hc =>
      beq_eq_false_iff_ne.mpr fun heq => hrest (heq ▸ hc)
    rw [fieldText, List.nil_append, field?, cutAt_of_forall habsent]
  | some n =>
    have hcut : cutAt (· == mark) (digitsOf n ++ mark :: ' ' :: rest) =
        (digitsOf n, some (' ' :: rest)) :=
      cutAt_append ((isDigits_digitsOf n).beq_eq_false hmark) (beq_self_eq_true mark)
    have hread : readDigits? 10 (digitsOf n) = some n := by
      rw [readDigits?_eq (digitsOf_ne_nil n) (isDigits_digitsOf n), ofDigitChars_digitsOf]
    rw [fieldText, List.append_assoc]
    simp [field?, hcut, hread]

theorem seconds?_eq (negative : Bool) (units : Nat) :
    seconds? ((Binary64.finite negative units).brief ++ "s").toList =
      some (if negative then -briefValue units else briefValue units) := by
  have hnumeral := isNumeral_print_finite (Decimal.rounded 4) ⟨4, false⟩ negative units
  have hcut : cutAt (· == 's') ((Binary64.finite negative units).brief.toList ++ ['s']) =
      ((Binary64.finite negative units).brief.toList, some []) := by
    refine cutAt_append (fun c hc => beq_eq_false_iff_ne.mpr ?_) (beq_self_eq_true 's')
    rintro rfl
    exact absurd (hnumeral _ hc) (by decide)
  rw [String.toList_append, seconds?, show "s".toList = ['s'] from rfl, hcut]
  exact signedValue?_print _ _ _ _

theorem not_mem_seconds (hnumeral : ¬ IsNumeral mark) (hs : mark ≠ 's') (negative : Bool)
    (units : Nat) : mark ∉ ((Binary64.finite negative units).brief ++ "s").toList := by
  rw [String.toList_append, List.mem_append, not_or]
  exact ⟨fun h => hnumeral (isNumeral_print_finite _ _ negative units mark h), by simpa using hs⟩

theorem hour_not_mem_minutes (n : Option Nat) : 'h' ∉ fieldText 'm' n := by
  cases n with
  | none => exact List.not_mem_nil
  | some n =>
    rw [fieldText, List.mem_append, not_or]
    exact ⟨fun h => absurd (isDigits_digitsOf n _ h) (by decide), by decide⟩

/-- The text of hours, minutes and seconds shows them. -/
theorem Shown.read?_eq (hours minutes : Option Nat) (negative : Bool) (units : Nat) :
    read? (fieldText 'h' hours ++ (fieldText 'm' minutes ++
      ((Binary64.finite negative units).brief ++ "s").toList)) =
      some ⟨hours, minutes, if negative then -briefValue units else briefValue units⟩ := by
  have hhour : 'h' ∉ fieldText 'm' minutes ++
      ((Binary64.finite negative units).brief ++ "s").toList := by
    rw [List.mem_append, not_or]
    exact ⟨hour_not_mem_minutes minutes, not_mem_seconds (by decide) (by decide) negative units⟩
  have hminute : 'm' ∉ ((Binary64.finite negative units).brief ++ "s").toList :=
    not_mem_seconds (by decide) (by decide) negative units
  rw [read?, field?_fieldText (by decide) hhour]
  simp only [Option.bind_eq_bind, Option.bind_some, field?_fieldText (by decide) hminute,
    seconds?_eq]
  rfl

/-! ## The text of a time -/

def hours? (units : Nat) : Option Nat :=
  if units < 3600 * Binary64.one then none else some (wholeTimes units 3600)

def minutes? (units : Nat) : Option Nat :=
  if units < 60 * Binary64.one then none else some (units / (60 * Binary64.one) % 60)

/-- Less than an hour has its whole minutes exactly. -/
theorem wholeTimes_minutes (h : units < 3600 * Binary64.one) :
    wholeTimes units 60 = units / (60 * Binary64.one) := by
  have hless : units / (60 * Binary64.one) < 60 := by
    rw [Nat.div_lt_iff_lt_mul (Nat.mul_pos (by decide) Binary64.one_pos)]
    omega
  exact wholeTimes_eq (by decide) (by omega)

theorem wholeTimes_minutes_of_hour (units : Nat) :
    wholeTimes (units % (3600 * Binary64.one)) 60 = units / (60 * Binary64.one) % 60 := by
  have hpos : 0 < 3600 * Binary64.one := Nat.mul_pos (by decide) Binary64.one_pos
  have hhour : 3600 * Binary64.one = 60 * Binary64.one * 60 := by ring
  rw [wholeTimes_minutes (Nat.mod_lt units hpos), hhour, Nat.mod_mul_right_div_self]

theorem toList_unitsText (units : Nat) :
    (unitsText units).toList = fieldText 'h' (hours? units) ++ (fieldText 'm' (minutes? units) ++
      (secondsText (units % (60 * Binary64.one))).toList) := by
  have hpos := Binary64.one_pos
  rw [unitsText, hours?, minutes?]
  split
  next hminute =>
    rw [if_pos (by omega), Nat.mod_eq_of_lt hminute, fieldText, fieldText, List.nil_append,
      List.nil_append]
  next hminute =>
    split
    next hhour =>
      have hless : units / (60 * Binary64.one) < 60 := by
        rw [Nat.div_lt_iff_lt_mul (Nat.mul_pos (by decide) hpos)]
        omega
      rw [wholeTimes_minutes hhour, Nat.mod_eq_of_lt hless]
      simp [fieldText, natText]
    next hhour =>
      rw [wholeTimes_minutes_of_hour]
      simp [fieldText, natText]

/-! ## Seconds -/

theorem briefValue_lt_of_lt_ten (h : units < 10 * Binary64.one) :
    briefValue units < 60 ∧ (units : ℚ) / Binary64.one < 59.995 := by
  have hnear := abs_le.mp (abs_briefValue_sub_le units)
  have hten : (units : ℚ) / Binary64.one < 10 := by
    rw [div_lt_iff₀ Binary64.cast_one_pos]
    exact_mod_cast h
  exact ⟨by linarith [hnear.2], hten.trans (by norm_num)⟩

/-- Below a minute, sixty seconds are shown where at most half a hundredth is missing to them. -/
theorem briefValue_lt_sixty_iff (h : units < 60 * Binary64.one) :
    briefValue units < 60 ↔ (units : ℚ) / Binary64.one < 59.995 := by
  by_cases hten : units < 10 * Binary64.one
  · obtain ⟨hbrief, hvalue⟩ := briefValue_lt_of_lt_ten hten
    exact iff_of_true hbrief hvalue
  · rw [briefValue_eq (not_lt.mp hten) (by omega), div_lt_iff₀ (by norm_num),
      div_lt_iff₀ Binary64.cast_one_pos]
    have hpos := Binary64.one_pos
    generalize Binary64.one = one at hpos ⊢
    have hhundredths : ((divNearest (units * 100) one : Nat) : ℚ) < 60 * 100 ↔
        divNearest (units * 100) one < 6000 := by
      norm_num
    rw [hhundredths, divNearest_lt_iff hpos (by decide), ← Nat.cast_lt (α := ℚ)]
    push_cast
    constructor <;> intro hlt <;> norm_num at hlt ⊢ <;> linarith

theorem briefValue_le_sixty (h : units < 60 * Binary64.one) : briefValue units ≤ 60 := by
  by_cases hten : units < 10 * Binary64.one
  · exact (briefValue_lt_of_lt_ten hten).1.le
  · rw [briefValue_eq (not_lt.mp hten) (by omega), div_le_iff₀ (by norm_num)]
    have hnear := abs_divNearest_sub_le Binary64.one_pos (units * 100)
    have hmost : ((units * 100 : Nat) : ℚ) / Binary64.one ≤ 6000 := by
      rw [div_le_iff₀ Binary64.cast_one_pos]
      exact_mod_cast (by omega : units * 100 ≤ 6000 * Binary64.one)
    have hle : divNearest (units * 100) Binary64.one ≤ 6000 := le_of_abs_sub_le_half hnear hmost
    have hcast : ((divNearest (units * 100) Binary64.one : Nat) : ℚ) ≤ 6000 := by exact_mod_cast hle
    linarith

/-! ## What is shown -/

/-- What a number of seconds has beyond its whole minutes. -/
def beyondMinutes (q : ℚ) : ℚ := q - 60 * ⌊q / 60⌋

/-- What the text of `q` seconds tells. Hours and minutes stand there from the first full one on
and are those of the exact time, hours as long as every whole number of seconds is a number of
double precision; minutes are always below sixty. Seconds are those beyond the minutes to four
digits. They are at most sixty, and sixty only where no more than half a hundredth is missing. -/
structure Shown.Tells (shown : Shown) (q : ℚ) : Prop where
  hours_isSome : shown.hours.isSome ↔ 3600 ≤ q
  hours_eq : q < 2 ^ 53 → ∀ n ∈ shown.hours, (n : Int) = ⌊q / 3600⌋
  minutes_isSome : shown.minutes.isSome ↔ 60 ≤ q
  minutes_eq : ∀ n ∈ shown.minutes, (n : Int) = ⌊q / 60⌋ % 60
  minutes_lt : ∀ n ∈ shown.minutes, n < 60
  seconds_near : |shown.seconds - beyondMinutes q| ≤ beyondMinutes q / 2000
  seconds_le : shown.seconds ≤ 60
  seconds_lt_iff : shown.seconds < 60 ↔ beyondMinutes q < 59.995

theorem floor_units_div (units n : Nat) :
    ⌊(units : ℚ) / Binary64.one / n⌋ = (units / (n * Binary64.one) : Nat) := by
  rw [div_div, ← Nat.cast_mul, Rat.floor_natCast_div_natCast, Nat.mul_comm]
  rfl

theorem beyondMinutes_eq (units : Nat) :
    beyondMinutes (units / Binary64.one) = (units % (60 * Binary64.one) : Nat) / Binary64.one := by
  have hfloor := floor_units_div units 60
  have hsplit := Nat.div_add_mod units (60 * Binary64.one)
  rw [Nat.cast_ofNat] at hfloor
  rw [beyondMinutes, hfloor, div_sub' Binary64.cast_one_pos.ne']
  generalize units / (60 * Binary64.one) = minutes at hsplit ⊢
  generalize units % (60 * Binary64.one) = rest at hsplit ⊢
  rw [← hsplit]
  congr 1
  push_cast
  ring

theorem le_units_div_iff (units n : Nat) :
    (n : ℚ) ≤ units / Binary64.one ↔ ¬ units < n * Binary64.one := by
  rw [le_div_iff₀ Binary64.cast_one_pos, not_lt, ← Nat.cast_mul, Nat.cast_le]

theorem eq_of_mem_hours? {n : Nat} (h : n ∈ hours? units) (hless : units < 2 ^ 53 * Binary64.one) :
    n = units / (3600 * Binary64.one) := by
  rw [hours?, Option.mem_def] at h
  split at h
  · cases h
  · have hexact : units / (3600 * Binary64.one) * 3600 < 2 ^ 53 := by
      rw [← Nat.mul_lt_mul_right Binary64.one_pos, Nat.mul_assoc]
      exact lt_of_le_of_lt (Nat.div_mul_le_self _ _) hless
    rw [← Option.some.inj h, wholeTimes_eq (by decide) hexact]

theorem eq_of_mem_minutes? {n : Nat} (h : n ∈ minutes? units) :
    n = units / (60 * Binary64.one) % 60 := by
  rw [minutes?, Option.mem_def] at h
  split at h
  · cases h
  · exact (Option.some.inj h).symm

/-- The time of a number of units is told so. -/
theorem tells_units (units : Nat) :
    Shown.Tells ⟨hours? units, minutes? units, briefValue (units % (60 * Binary64.one))⟩
      (units / Binary64.one) := by
  have hpos : 0 < 60 * Binary64.one := Nat.mul_pos (by decide) Binary64.one_pos
  have hrest := Nat.mod_lt units hpos
  have hhour := le_units_div_iff units 3600
  have hminute := le_units_div_iff units 60
  have hhours := floor_units_div units 3600
  have hminutes := floor_units_div units 60
  rw [Nat.cast_ofNat] at hhour hminute hhours hminutes
  constructor
  case hours_isSome =>
    rw [hhour, hours?]
    split
    next hless => exact iff_of_false Bool.false_ne_true (not_not.mpr hless)
    next hless => exact iff_of_true rfl hless
  case hours_eq =>
    intro hless n hn
    dsimp only at hn
    rw [div_lt_iff₀ Binary64.cast_one_pos] at hless
    have hn := eq_of_mem_hours? hn (by exact_mod_cast hless)
    rw [hn, hhours]
  case minutes_isSome =>
    rw [hminute, minutes?]
    split
    next hless => exact iff_of_false Bool.false_ne_true (not_not.mpr hless)
    next hless => exact iff_of_true rfl hless
  case minutes_eq =>
    intro n hn
    dsimp only at hn
    have hn := eq_of_mem_minutes? hn
    rw [hn, hminutes, Int.natCast_mod, Nat.cast_ofNat]
  case minutes_lt =>
    intro n hn
    dsimp only at hn
    have hn := eq_of_mem_minutes? hn
    omega
  case seconds_near =>
    rw [beyondMinutes_eq]
    exact abs_briefValue_sub_le _
  case seconds_le => exact briefValue_le_sixty hrest
  case seconds_lt_iff =>
    rw [beyondMinutes_eq]
    exact briefValue_lt_sixty_iff hrest

/-- Every time that ends and is not negative has a text, and what is read there tells it. -/
theorem text_shown {x : Binary64} (hx : x.value? = some q) (hq : 0 ≤ q) :
    ∃ (s : String) (shown : Shown), text x = .ok s ∧ Shown.read? s.toList = some shown ∧
      shown.Tells q := by
  cases x with
  | infinite _ => cases hx
  | nan => cases hx
  | finite negative units =>
    rw [Binary64.value?_finite, Option.some_inj] at hx
    cases negative with
    | false =>
      rw [if_neg Bool.false_ne_true] at hx
      refine ⟨unitsText units, _, rfl, ?_, hx ▸ tells_units units⟩
      rw [toList_unitsText]
      exact Shown.read?_eq _ _ false _
    | true =>
      rw [if_pos rfl] at hx
      -- The only time with a sign that is not below zero is zero itself.
      have hzero : units = 0 := by
        by_contra hne
        have : (0 : ℚ) < units / Binary64.one :=
          div_pos (Nat.cast_pos.mpr (Nat.pos_of_ne_zero hne)) Binary64.cast_one_pos
        linarith
      have htells := tells_units 0
      have hone := Binary64.one_pos
      rw [hours?, if_pos (by omega), minutes?, if_pos (by omega), Nat.zero_mod, briefValue,
        shownValue_zero, Nat.cast_zero, zero_div] at htells
      have hread := Shown.read?_eq none none true units
      rw [fieldText, fieldText, List.nil_append, List.nil_append] at hread
      refine ⟨_, _, rfl, hread, ?_⟩
      rw [← hx, hzero, if_pos rfl, briefValue, shownValue_zero, Nat.cast_zero, zero_div, neg_zero]
      exact htells

/-- An hour, two minutes and five and a half seconds. -/
theorem text_shown_hour :
    (Binary64.ofRatio false 7451 2).value? = some (7451 / 2) ∧ (0 : ℚ) ≤ 7451 / 2 ∧
    text (Binary64.ofRatio false 7451 2) = .ok "1h 2m 5.5s" ∧
    Shown.read? "1h 2m 5.5s".toList = some ⟨some 1, some 2, 11 / 2⟩ ∧
    Shown.Tells ⟨some 1, some 2, 11 / 2⟩ (7451 / 2) := by
  have hvalue : (Binary64.ofRatio false 7451 2).value? = some (7451 / 2) := by decide +kernel
  have hpos : (0 : ℚ) ≤ 7451 / 2 := by norm_num
  have htext : text (Binary64.ofRatio false 7451 2) = .ok "1h 2m 5.5s" :=
    eq_ok_of_toOption (by decide +kernel)
  have hread : Shown.read? "1h 2m 5.5s".toList = some ⟨some 1, some 2, 11 / 2⟩ := by
    decide +kernel
  obtain ⟨s, shown, hs, hshown, htells⟩ := text_shown hvalue hpos
  obtain rfl := Except.ok.inj (htext.symm.trans hs)
  obtain rfl := Option.some.inj (hread.symm.trans hshown)
  exact ⟨hvalue, hpos, htext, hread, htells⟩

/-- A ten thousandth of a second before a full minute sixty seconds are shown, and the minute or
the hour is not. -/
theorem text_sixty_seconds :
    (∀ n ∈ [599999, 1199999, 71999999], ∃ q,
      (Binary64.ofRatio false n 10000).value? = some q ∧ 0 ≤ q) ∧
    text (Binary64.ofRatio false 599999 10000) = .ok "60s" ∧
    Shown.read? "60s".toList = some ⟨none, none, 60⟩ ∧
    text (Binary64.ofRatio false 1199999 10000) = .ok "1m 60s" ∧
    Shown.read? "1m 60s".toList = some ⟨none, some 1, 60⟩ ∧
    text (Binary64.ofRatio false 71999999 10000) = .ok "1h 59m 60s" ∧
    Shown.read? "1h 59m 60s".toList = some ⟨some 1, some 59, 60⟩ := by
  refine ⟨fun n hn => ?_, eq_ok_of_toOption (by decide +kernel), by decide +kernel,
    eq_ok_of_toOption (by decide +kernel), by decide +kernel,
    eq_ok_of_toOption (by decide +kernel), by decide +kernel⟩
  have hfinite : ∀ n ∈ [599999, 1199999, 71999999],
      ((Binary64.ofRatio false n 10000).value?.any (0 ≤ ·)) = true := by decide +kernel
  obtain ⟨q, hq, hpos⟩ := (Option.any_eq_true _ _).mp (hfinite n hn)
  exact ⟨q, hq, of_decide_eq_true hpos⟩

end StubTree.Elapsed
