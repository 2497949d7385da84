import Telemetry.Proofs.Json.Numeral

/-!
# Numbers assembled again

A number that was written is read as a significand and a power of ten, each rounded on its own, and
their product or quotient rounded once more. No number that was written is out of range for its
reader, and a number comes back unchanged when its significand and its power of ten are exact, since
then the one rounding that is left is that of its shortest decimal.
-/

namespace Telemetry.Number.Magnitude64

open Shortest

/-- Every number with 53 binary digits is the number of units of a magnitude. -/
theorem exists_units (significand shift : Nat) (hlt : significand < 2 ^ 53) (hshift : shift ≤ 2045) :
    ∃ m : Magnitude64, m.units = significand * 2 ^ shift := by
  induction shift generalizing significand with
  | zero => exact ⟨⟨significand, 0, hlt, by omega, .inl rfl⟩, rfl⟩
  | succ shift ih =>
    by_cases hle : 2 ^ 52 ≤ significand
    · exact ⟨⟨significand, shift + 1, hlt, hshift, .inr hle⟩, rfl⟩
    · obtain ⟨m, hm⟩ := ih (2 * significand) (by omega) (by omega)
      refine ⟨m, hm.trans ?_⟩
      rw [Nat.pow_succ]
      ring

theorem units_lt_limit (m : Magnitude64) : (m.units : ℚ) < limit := by
  rw [← div_one (m.units : ℚ), ← Nat.cast_one, ← isSome_round?_iff Nat.one_pos, round?_units]
  rfl

/-- A quotient by a number that is not below one is in range. -/
theorem isSome_div? (m : Magnitude64) {power : Magnitude64} (hle : unitsPerOne ≤ power.units) :
    (m.div? power).isSome = true := by
  have hone : (0 : ℚ) < unitsPerOne := unitsPerOne_pos
  have hcast : (unitsPerOne : ℚ) ≤ power.units := by exact_mod_cast hle
  have hpower : (0 : ℚ) < power.units := hone.trans_le hcast
  refine (isSome_round?_iff (by exact_mod_cast hpower)).2 (lt_of_le_of_lt ?_ m.units_lt_limit)
  rw [Nat.cast_mul, div_le_iff₀ hpower]
  exact mul_le_mul_of_nonneg_left hcast (Nat.cast_nonneg _)

theorem ofNat?_isSome {n : Nat} (h : n ≤ Json.Numeral.significandMax) : (ofNat? n).isSome = true := by
  have hbound : Json.Numeral.significandMax * unitsPerOne ≤ topStep := by decide +kernel
  have htop := step_le_topStep (Nat.zero_le 2045)
  have hle : n * unitsPerOne ≤ topStep := (Nat.mul_le_mul_right _ h).trans hbound
  refine isSome_round?_of_lt Nat.one_pos ?_
  rw [Nat.mul_one]
  omega

theorem ofDecimal?_natCast {digits n : Nat} (hpos : digits ≠ 0) (hle : n ≤ 400) :
    ofDecimal? digits n = Magnitude.round? (digits * 10 ^ n * unitsPerOne) 1 := by
  unfold ofDecimal? decimalUnits unitsPerOne
  generalize 1074 = bits
  rw [if_neg hpos, if_neg (by omega), if_neg (by omega), if_pos (by omega), Int.toNat_natCast]
  rfl

theorem gridStep_lt_limit {n : Nat} (hle : n ≤ Json.Numeral.greatestPower) :
    gridStep n < limit := by
  have hscale : (0 : ℚ) < gridScale 308 := by exact_mod_cast gridScale_pos 308
  have hlt : gridDen 308 + 2 * topStep * gridScale 308 < 2 ^ 55 * topStep * gridScale 308 := by
    decide +kernel
  rw [← Nat.cast_lt (α := ℚ)] at hlt
  push_cast at hlt
  have hcast : 4 * gridStep 308 < (2 ^ 55 - 2) * topStep := by
    rw [← gridDen_div, div_lt_iff₀ hscale]
    linarith
  have hmono : gridStep n ≤ gridStep 308 := gridStep_mono (by exact_mod_cast hle)
  unfold limit
  linarith

/-- The powers of ten by which the reader scales are in range and not below one. -/
theorem ofDecimal?_power {n : Nat} (hle : n ≤ Json.Numeral.greatestPower) :
    ∃ power, ofDecimal? 1 n = some power ∧ unitsPerOne ≤ power.units := by
  have heq := ofDecimal?_natCast Nat.one_ne_zero (hle.trans (by decide))
  have hlimit : (((1 * 10 ^ n * unitsPerOne : Nat) : ℚ) / (1 : Nat)) < limit := by
    refine lt_of_eq_of_lt ?_ (gridStep_lt_limit hle)
    rw [gridStep, zpow_natCast]
    push_cast
    ring
  obtain ⟨power, hpower⟩ := Option.isSome_iff_exists.1 ((isSome_round?_iff Nat.one_pos).2 hlimit)
  obtain ⟨one, hone⟩ := exists_units (2 ^ 52) 1022 (by decide) (by decide)
  have hunits : one.units = unitsPerOne := hone.trans (by decide +kernel)
  have hself := round?_units one
  rw [hunits] at hself
  refine ⟨power, heq.trans hpower, ?_⟩
  rw [← hunits]
  refine round?_mono Nat.one_pos (Nat.le_mul_of_pos_left _ ?_) hself hpower
  exact Nat.mul_pos Nat.one_pos (Nat.pow_pos (by decide))

theorem mul?_eq_some_iff {x y m : Magnitude64} :
    x.mul? y = some m ↔ (interval m).Holds (x.units * y.units / unitsPerOne) := by
  have hone : 0 < unitsPerOne := by exact_mod_cast unitsPerOne_pos
  rw [mul?, round?_eq_some_iff hone, Nat.cast_mul]

theorem div?_eq_some_iff {x y m : Magnitude64} (hpos : 0 < y.units) :
    x.div? y = some m ↔ (interval m).Holds (x.units * unitsPerOne / y.units) := by
  rw [div?, round?_eq_some_iff hpos, Nat.cast_mul]

theorem ofNat?_exact {n : Nat} (hlt : n < 2 ^ 53) :
    ∃ m, ofNat? n = some m ∧ m.units = n * unitsPerOne := by
  obtain ⟨m, hm⟩ := exists_units _ 1074 hlt (by decide)
  have hunits : m.units = n * unitsPerOne := by
    unfold unitsPerOne
    generalize 1074 = bits at hm ⊢
    exact hm
  refine ⟨m, ?_, hunits⟩
  rw [ofNat?, ← hunits, round?_units]

theorem ofDecimal?_exact {n : Nat} (hle : n ≤ 22) :
    ∃ m, ofDecimal? 1 n = some m ∧ m.units = 10 ^ n * unitsPerOne := by
  have hodd : 5 ^ n < 2 ^ 53 :=
    Nat.lt_of_le_of_lt (Nat.pow_le_pow_right (by decide) hle) (by decide)
  obtain ⟨m, hm⟩ := exists_units _ (n + 1074) hodd (by omega)
  have hunits : m.units = 10 ^ n * unitsPerOne := by
    unfold unitsPerOne
    generalize 1074 = bits at hm ⊢
    rw [hm, Nat.pow_add, ← Nat.mul_assoc, ← Nat.mul_pow]
    rfl
  refine ⟨m, ?_, hunits⟩
  rw [ofDecimal?_natCast Nat.one_ne_zero (by omega), Nat.one_mul, ← hunits, round?_units]

end Telemetry.Number.Magnitude64

namespace Telemetry.Json.Numeral

open Telemetry.Number

theorem scale?_isSome {steps : Nat} {m : Magnitude64} {exponent : Int} (hneg : exponent < 0)
    (hsteps : exponent.natAbs ≤ greatestPower * steps) : (scale? steps m exponent).isSome = true := by
  induction steps generalizing m exponent with
  | zero => omega
  | succ steps ih =>
    rw [scale?]
    split
    · obtain ⟨power, hpower, hle⟩ := Magnitude64.ofDecimal?_power ‹_›
      rw [hpower, Option.bind_some, if_neg (by omega)]
      exact m.isSome_div? hle
    · rename_i hlarge
      split
      · rfl
      · obtain ⟨power, hpower, hle⟩ := Magnitude64.ofDecimal?_power (Nat.le_refl greatestPower)
        obtain ⟨smaller, hsmaller⟩ := Option.isSome_iff_exists.1 (m.isSome_div? hle)
        rw [if_neg (by omega), hpower, Option.bind_some, hsmaller, Option.bind_some]
        unfold greatestPower at *
        exact ih (by omega) (by omega)

/-- The magnitude of a decimal as the reader assembles it, if it is in range. -/
def assembled? (decimal : Decimal) : Option Magnitude64 :=
  (Magnitude64.ofNat? decimal.digits).bind fun m => scale? 8 m decimal.exponent

-- Stated of the function itself: applied to arguments, checking it would evaluate the magnitude.
theorem assemble_def : assemble = fun negative significand exponent =>
    match (Magnitude64.ofNat? significand).bind fun m => scale? 8 m exponent with
    | some m => .ok (.finite negative m)
    | none => .error .outOfRange := by
  delta assemble
  rfl

theorem assemble_eq {negative : Bool} {decimal : Decimal} {m : Magnitude64}
    (h : assembled? decimal = some m) :
    assemble negative decimal.digits decimal.exponent = .ok (.finite negative m) := by
  unfold assembled? at h
  rw [assemble_def]
  dsimp only
  rw [h]

theorem isSome_assembled?_of_neg {decimal : Decimal} (hfits : decimal.digits ≤ significandMax)
    (hneg : decimal.exponent < 0) (hfrom : -400 ≤ decimal.exponent) :
    (assembled? decimal).isSome = true := by
  obtain ⟨m, hm⟩ := Option.isSome_iff_exists.1 (Magnitude64.ofNat?_isSome hfits)
  rw [assembled?, hm, Option.bind_some]
  exact scale?_isSome hneg (by unfold greatestPower; omega)

/-- Whether `digits * 10 ^ n` is in range for the reader. -/
def inRange (digits n : Nat) : Bool := (assembled? ⟨digits, n⟩).isSome

theorem scale?_eq {steps : Nat} {m power : Magnitude64} (exponent : Int)
    (hle : exponent.natAbs ≤ greatestPower)
    (hpower : Magnitude64.ofDecimal? 1 exponent.natAbs = some power) :
    scale? (steps + 1) m exponent = if 0 ≤ exponent then m.mul? power else m.div? power := by
  rw [scale?, if_pos hle, hpower, Option.bind_some]

theorem inRange_mono {digits digits' n n' : Nat} (hdigits : digits ≤ digits') (hn : n ≤ n')
    (hle : n' ≤ greatestPower) (hfits : digits' ≤ significandMax) (h : inRange digits' n' = true) :
    inRange digits n = true := by
  obtain ⟨m, hm⟩ := Option.isSome_iff_exists.1 (Magnitude64.ofNat?_isSome (hdigits.trans hfits))
  obtain ⟨m', hm'⟩ := Option.isSome_iff_exists.1 (Magnitude64.ofNat?_isSome hfits)
  obtain ⟨power, hpower, -⟩ := Magnitude64.ofDecimal?_power (hn.trans hle)
  obtain ⟨power', hpower', -⟩ := Magnitude64.ofDecimal?_power hle
  have hmono : m.units ≤ m'.units :=
    Magnitude64.round?_mono Nat.one_pos (Nat.mul_le_mul_right _ hdigits) hm hm'
  have hmono' : power.units ≤ power'.units := by
    have hwide : n' ≤ 400 := hle.trans (by decide)
    rw [Magnitude64.ofDecimal?_natCast Nat.one_ne_zero (hn.trans hwide)] at hpower
    rw [Magnitude64.ofDecimal?_natCast Nat.one_ne_zero hwide] at hpower'
    refine Magnitude64.round?_mono Nat.one_pos (Nat.mul_le_mul_right _ ?_) hpower hpower'
    exact Nat.mul_le_mul_left 1 (Nat.pow_le_pow_right (by decide) hn)
  unfold inRange assembled? at h ⊢
  dsimp only at h ⊢
  rw [hm', Option.bind_some, scale?_eq n' hle hpower', if_pos (Int.natCast_nonneg n')]
    at h
  rw [hm, Option.bind_some, scale?_eq n (hn.trans hle) hpower,
    if_pos (Int.natCast_nonneg n)]
  have hone : 0 < Magnitude64.unitsPerOne := by exact_mod_cast unitsPerOne_pos
  refine (Magnitude64.isSome_round?_iff hone).2
    (lt_of_le_of_lt ?_ ((Magnitude64.isSome_round?_iff hone).1 h))
  refine div_le_div_of_nonneg_right ?_ unitsPerOne_pos.le
  exact_mod_cast Nat.mul_le_mul hmono hmono'

/-- A bound on the significand of a decimal with an exponent that is not negative, for all but the
largest magnitude. -/
def mostDigits (n : Nat) : Nat :=
  min significandMax ((2 ^ 55 - 6) * Magnitude64.topStep / Shortest.gridDen n)

/-- Below these powers of ten no significand leaves the range. -/
def safePower : Nat := 288

theorem inRange_mostDigits : ∀ k < 21, inRange (mostDigits (safePower + k)) (safePower + k) = true := by
  decide +kernel

def largest : Magnitude64 := ⟨2 ^ 53 - 1, 2045, by decide⟩

theorem shortest_largest : largest.shortest .even = ⟨17976931348623157, 292⟩ := by decide +kernel

theorem eq_largest_or_high_le (m : Magnitude64) :
    m = largest ∨ (Shortest.interval m).high ≤ (2 ^ 55 - 6) * Magnitude64.topStep := by
  have hstep := Magnitude64.step_le_topStep m.shift_le
  have hlt := m.significand_lt
  rw [Shortest.high_eq]
  by_cases hsignificand : m.significand = 2 ^ 53 - 1
  · by_cases hshift : m.shift = 2045
    · obtain ⟨significand, shift, canonical⟩ := m
      dsimp only at hsignificand hshift
      subst hsignificand hshift
      exact .inl rfl
    · right
      have hhalf := Magnitude64.step_le_of_lt 1 (Nat.lt_of_le_of_ne m.shift_le hshift)
      rw [Nat.mul_one, Nat.mul_one] at hhalf
      change 2 * 2 ^ m.shift ≤ Magnitude64.topStep at hhalf
      rw [hsignificand]
      omega
  · right
    have hle : m.significand * 2 ^ m.shift ≤ (2 ^ 53 - 2) * 2 ^ m.shift :=
      Nat.mul_le_mul_right _ (by omega)
    omega

theorem gridDen_natCast (n : Nat) :
    (Shortest.gridDen n : ℚ) = 4 * Shortest.gridStep n := by
  have hscale : Shortest.gridScale n = 1 := if_neg (by omega)
  have hdiv := Shortest.gridDen_div n
  rwa [hscale, Nat.cast_one, div_one] at hdiv

theorem le_mostDigits {m : Magnitude64} (hpos : m.significand ≠ 0) {n : Nat}
    (hexponent : (m.shortest .even).exponent = n)
    (hhigh : (Shortest.interval m).high ≤ (2 ^ 55 - 6) * Magnitude64.topStep) :
    (m.shortest .even).digits ≤ mostDigits n := by
  refine Nat.le_min.2 ⟨digits_shortest_fit .even m, ?_⟩
  -- The decimal lies in the interval, which bounds its digits on this grid.
  have hdecimal := (Magnitude64.shortest_spec .even hpos).1.bounds.2
  change 4 * (_ * Shortest.gridStep (m.shortest .even).exponent) ≤ _ at hdecimal
  rw [hexponent] at hdecimal
  have hden : (0 : ℚ) < Shortest.gridDen n := by
    rw [gridDen_natCast]
    exact mul_pos four_pos (Shortest.gridStep_pos n)
  have hle : (m.shortest .even).digits * Shortest.gridDen n ≤ (Shortest.interval m).high := by
    rw [← Nat.cast_le (α := ℚ), Nat.cast_mul, gridDen_natCast]
    linarith
  exact (Nat.le_div_iff_mul_le (by exact_mod_cast hden)).2 (hle.trans hhigh)

/-- No significand of a written number is too large for its power of ten. -/
theorem inRange_shortest {m : Magnitude64} (hpos : m.significand ≠ 0) {n : Nat}
    (hexponent : (m.shortest .even).exponent = n) : inRange (m.shortest .even).digits n = true := by
  rcases eq_largest_or_high_le m with rfl | hhigh
  · rw [shortest_largest] at hexponent ⊢
    obtain rfl : 292 = n := Int.ofNat_inj.1 hexponent
    decide +kernel
  · have hlt := Magnitude64.exponent_shortest_lt .even hpos
    rw [hexponent] at hlt
    unfold Shortest.highest at hlt
    have hmost : mostDigits safePower = significandMax := by decide +kernel
    by_cases hsafe : n ≤ safePower
    · have htable := inRange_mostDigits 0 (by decide)
      rw [Nat.add_zero, hmost] at htable
      exact inRange_mono (digits_shortest_fit .even m) hsafe (by decide) (Nat.le_refl _) htable
    · unfold safePower at hsafe
      have htable := inRange_mostDigits (n - 288) (by omega)
      have hsum : safePower + (n - 288) = n := by
        unfold safePower
        omega
      rw [hsum] at htable
      exact inRange_mono (le_mostDigits hpos hexponent hhigh) (Nat.le_refl n)
        (by unfold greatestPower; omega) (Nat.min_le_left _ _) htable

theorem written_cases (m : Magnitude64) :
    (written m).exponent = -1 ∧ (written m).digits ≤ significandMax ∨
      m.significand ≠ 0 ∧ written m = m.shortest .even := by
  unfold written
  split
  · exact .inl ⟨rfl, Nat.zero_le _⟩
  · split
    · rename_i hplain
      exact .inl ⟨rfl, padded_le (by omega)⟩
    · exact .inr ⟨‹_›, rfl⟩

theorem isSome_assembled?_written (m : Magnitude64) : (assembled? (written m)).isSome = true := by
  rcases written_cases m with ⟨hexponent, hfits⟩ | ⟨hpos, hwritten⟩
  · exact isSome_assembled?_of_neg hfits (by omega) (by omega)
  · rw [hwritten]
    have hfinest := (Magnitude64.shortest_spec .even hpos).2.1
    unfold Shortest.finest at hfinest
    by_cases hneg : (m.shortest .even).exponent < 0
    · exact isSome_assembled?_of_neg (digits_shortest_fit .even m) hneg (by omega)
    · obtain ⟨n, hn⟩ := Int.eq_ofNat_of_zero_le (Int.not_lt.1 hneg)
      have hrange := inRange_shortest hpos hn
      rw [inRange, ← hn] at hrange
      exact hrange

/-- The magnitude that the reader makes of the text of a magnitude. -/
def reread (m : Magnitude64) : Magnitude64 :=
  (assembled? (written m)).get (isSome_assembled?_written m)

theorem assembled?_written (m : Magnitude64) : assembled? (written m) = some (reread m) := by
  rw [reread, Option.some_get]

theorem units_padded (n zeros : Nat) :
    Decimal.units ⟨n * 10 ^ (zeros + 1), -1⟩ = Decimal.units ⟨n, zeros⟩ := by
  unfold Decimal.units
  generalize Magnitude64.unitsPerOne = one
  rw [zpow_natCast, zpow_neg_one, pow_succ]
  push_cast
  field_simp

theorem holds_written (m : Magnitude64) : (Shortest.interval m).Holds (written m).units := by
  by_cases hzero : m.significand = 0
  · have hself := (Magnitude64.round?_eq_some_iff Nat.one_pos).1 (Magnitude64.round?_units m)
    have hunits : ((m.units : ℚ) / (1 : Nat)) = Decimal.units ⟨0, -1⟩ := by
      rw [Magnitude.units, hzero, Nat.zero_mul, Decimal.units, Nat.cast_zero, zero_div, zero_mul]
    rw [written, if_pos hzero, ← hunits]
    exact hself
  · have hholds := (Magnitude64.shortest_spec .even hzero).1
    rw [written, if_neg hzero]
    generalize m.shortest .even = decimal at *
    obtain ⟨n, exponent⟩ := decimal
    dsimp only at *
    split
    · rename_i hplain
      obtain ⟨zeros, rfl⟩ := Int.eq_ofNat_of_zero_le hplain.1
      rwa [Int.toNat_natCast, units_padded]
    · exact hholds

/-- A magnitude whose power of ten takes one step is read back exactly when the rounded significand,
scaled by the rounded power, lies in its interval. -/
theorem reread_eq_iff {m digits power : Magnitude64}
    (hexponent : (written m).exponent.natAbs ≤ greatestPower)
    (hdigits : Magnitude64.ofNat? (written m).digits = some digits)
    (hpower : Magnitude64.ofDecimal? 1 (written m).exponent.natAbs = some power) :
    reread m = m ↔ (Shortest.interval m).Holds (if 0 ≤ (written m).exponent
      then digits.units * power.units / Magnitude64.unitsPerOne
      else digits.units * Magnitude64.unitsPerOne / power.units) := by
  have hpos : 0 < power.units := by
    obtain ⟨power', hpower', hle⟩ := Magnitude64.ofDecimal?_power hexponent
    cases hpower.symm.trans hpower'
    have hone : 0 < Magnitude64.unitsPerOne := by exact_mod_cast unitsPerOne_pos
    exact hone.trans_le hle
  have hread := assembled?_written m
  rw [assembled?, hdigits, Option.bind_some, scale?_eq _ hexponent hpower] at hread
  rw [← Option.some_inj, ← hread]
  split
  · exact Magnitude64.mul?_eq_some_iff
  · exact Magnitude64.div?_eq_some_iff hpos

/-- A magnitude whose significand and power of ten are exact is read back unchanged. -/
theorem reread_eq_self {m : Magnitude64} (hdigits : (written m).digits < 2 ^ 53)
    (hexponent : (written m).exponent.natAbs ≤ 22) : reread m = m := by
  obtain ⟨digits, hs, hsunits⟩ := Magnitude64.ofNat?_exact hdigits
  obtain ⟨power, hp, hpunits⟩ := Magnitude64.ofDecimal?_exact hexponent
  rw [reread_eq_iff (hexponent.trans (by decide)) hs hp, hsunits, hpunits]
  have hone := unitsPerOne_pos
  -- The significand and the power cancel to the decimal that was written.
  have hvalue : (if 0 ≤ (written m).exponent
      then (((written m).digits * Magnitude64.unitsPerOne : Nat) : ℚ)
        * (10 ^ (written m).exponent.natAbs * Magnitude64.unitsPerOne : Nat) / Magnitude64.unitsPerOne
      else ((written m).digits * Magnitude64.unitsPerOne : Nat) * Magnitude64.unitsPerOne
        / (10 ^ (written m).exponent.natAbs * Magnitude64.unitsPerOne : Nat))
      = (written m).units := by
    generalize written m = decimal
    obtain ⟨n, exponent⟩ := decimal
    dsimp only [Decimal.units]
    split
    · rename_i hpos
      obtain ⟨k, rfl⟩ := Int.eq_ofNat_of_zero_le hpos
      rw [Int.natAbs_natCast, zpow_natCast]
      push_cast
      field_simp
    · obtain ⟨k, hk⟩ := Int.eq_ofNat_of_zero_le (show 0 ≤ -exponent by omega)
      obtain rfl : exponent = -k := by omega
      rw [Int.natAbs_neg, Int.natAbs_natCast, zpow_neg, zpow_natCast]
      push_cast
      field_simp
  rw [hvalue]
  exact holds_written m

end Telemetry.Json.Numeral
