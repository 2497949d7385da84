import Telemetry.Number.Shortest
import Mathlib.Algebra.Order.Field.Rat
import Mathlib.Tactic.FieldSimp
import Mathlib.Tactic.Linarith
import Mathlib.Tactic.Positivity
import Mathlib.Tactic.Ring

/-!
# Correct rounding

The interval of a magnitude holds exactly the quotients that are rounded to it, and a quotient is
rounded to a magnitude exactly when it stays below the point half a step above the largest one. The
rest of the theory of numbers knows rounding only through these two facts.
-/

namespace Telemetry.Number

theorem roundHalfEven_bounds (num : Nat) {den : Nat} (hden : 0 < den) :
    2 * num ≤ 2 * (roundHalfEven num den * den) + den ∧
      2 * (roundHalfEven num den * den) ≤ 2 * num + den ∧
      (roundHalfEven num den % 2 = 1 → 2 * num ≠ 2 * (roundHalfEven num den * den) + den ∧
        2 * (roundHalfEven num den * den) ≠ 2 * num + den) := by
  have hdiv : num / den * den + num % den = num := Nat.div_add_mod' num den
  have hmod : num % den < den := Nat.mod_lt num hden
  unfold roundHalfEven
  generalize num / den = quotient at *
  generalize num % den = remainder at *
  have hnext : (quotient + 1) * den = quotient * den + den := Nat.succ_mul quotient den
  dsimp only
  split
  · omega
  · split
    · omega
    · split <;> omega

/-- The bounds of a rounded quotient determine it. -/
theorem roundHalfEven_eq {num den r : Nat} (hden : 0 < den) (hhigh : 2 * num ≤ 2 * (r * den) + den)
    (hlow : 2 * (r * den) ≤ 2 * num + den)
    (hodd : r % 2 = 1 → 2 * num ≠ 2 * (r * den) + den ∧ 2 * (r * den) ≠ 2 * num + den) :
    roundHalfEven num den = r := by
  obtain ⟨hhigh', hlow', hodd'⟩ := roundHalfEven_bounds num hden
  generalize roundHalfEven num den = r' at *
  have hsucc (a : Nat) : (a + 1) * den = a * den + den := Nat.succ_mul a den
  -- Two numbers that both round the quotient are at most one apart, and then both must be even.
  have hle {a b : Nat} (hb : 2 * (b * den) ≤ 2 * num + den) (ha : 2 * num ≤ 2 * (a * den) + den) :
      b ≤ a + 1 := by
    by_contra hlt
    have hstep : (a + 1 + 1) * den ≤ b * den := Nat.mul_le_mul_right den (by omega)
    rw [hsucc, hsucc] at hstep
    omega
  rcases Nat.lt_trichotomy r' r with hlt | heq | hlt
  · obtain rfl : r = r' + 1 := by
      have := hle hlow hhigh'
      omega
    rw [hsucc] at hlow hodd
    omega
  · exact heq
  · obtain rfl : r' = r + 1 := by
      have := hle hlow' hhigh
      omega
    rw [hsucc] at hlow' hodd'
    omega

theorem roundHalfEven_mono {num num' den : Nat} (hden : 0 < den) (hle : num ≤ num') :
    roundHalfEven num den ≤ roundHalfEven num' den := by
  have h := roundHalfEven_bounds num hden
  have h' := roundHalfEven_bounds num' hden
  generalize roundHalfEven num den = r at *
  generalize roundHalfEven num' den = r' at *
  by_contra hlt
  have hstep : (r' + 1) * den ≤ r * den := Nat.mul_le_mul_right den (by omega)
  rw [Nat.succ_mul] at hstep
  by_cases hnext : r = r' + 1
  · omega
  · have hfar : (r' + 1 + 1) * den ≤ r * den := Nat.mul_le_mul_right den (by omega)
    rw [Nat.succ_mul, Nat.succ_mul] at hfar
    omega

namespace Shortest

/-- The distance from the centre of an interval to its lower end, in quarters of a step. -/
def reach (m : Magnitude64) : Nat := if m.significand = 2 ^ 52 ∧ 0 < m.shift then 1 else 2

theorem reach_cases (m : Magnitude64) :
    reach m = 2 ∨ reach m = 1 ∧ m.significand = 2 ^ 52 ∧ m.shift ≠ 0 := by
  unfold reach
  split
  · rename_i hleast
    exact .inr ⟨rfl, hleast.1, by omega⟩
  · exact .inl rfl

theorem low_eq (m : Magnitude64) :
    (interval m).low = 4 * (m.significand * 2 ^ m.shift) - reach m * 2 ^ m.shift := by
  change 4 * (m.significand * 2 ^ m.shift) - (if m.significand = 2 ^ 52 ∧ 0 < m.shift then
    2 ^ m.shift else 2 * 2 ^ m.shift) = _
  unfold reach
  split <;> simp

theorem high_eq (m : Magnitude64) :
    (interval m).high = 4 * (m.significand * 2 ^ m.shift) + 2 * 2 ^ m.shift := rfl

/-- A point lies in the interval when it is no farther away than the ends, which belong to the
interval unless the significand is odd. -/
theorem contains_iff (m : Magnitude64) {scale den point : Nat} (hscale : 0 < scale) :
    (interval m).contains scale den point = true ↔
      4 * (m.significand * (2 ^ m.shift * scale)) ≤ point * den + reach m * (2 ^ m.shift * scale) ∧
        point * den ≤ 4 * (m.significand * (2 ^ m.shift * scale)) + 2 * (2 ^ m.shift * scale) ∧
        (m.significand % 2 = 1 →
          4 * (m.significand * (2 ^ m.shift * scale))
              ≠ point * den + reach m * (2 ^ m.shift * scale) ∧
            point * den ≠ 4 * (m.significand * (2 ^ m.shift * scale)) + 2 * (2 ^ m.shift * scale)) := by
  have hclosed : (interval m).closed = decide (m.significand % 2 = 0) := rfl
  have hstep : 0 < 2 ^ m.shift * scale := Nat.mul_pos (Nat.two_pow_pos _) hscale
  have hlow : (interval m).low * scale
      = 4 * (m.significand * (2 ^ m.shift * scale)) - reach m * (2 ^ m.shift * scale) := by
    rw [low_eq, Nat.sub_mul]
    ring_nf
  have hhigh : (interval m).high * scale
      = 4 * (m.significand * (2 ^ m.shift * scale)) + 2 * (2 ^ m.shift * scale) := by
    rw [high_eq]
    ring
  have hreach := reach_cases m
  unfold Interval.contains
  rw [hclosed, hlow, hhigh]
  generalize 2 ^ m.shift * scale = step at *
  by_cases heven : m.significand % 2 = 0
  · simp only [heven, decide_true, if_true, Bool.and_eq_true, decide_eq_true_eq]
    omega
  · have hodd : m.significand % 2 = 1 := by omega
    have hone : step ≤ m.significand * step := Nat.le_mul_of_pos_left step (by omega)
    have hreach : reach m = 2 := by omega
    simp only [hodd, hreach, Nat.one_ne_zero, decide_false, Bool.false_eq_true, if_false,
      Bool.and_eq_true, decide_eq_true_eq, true_implies]
    omega

/-- A rational number of units lies in the interval. -/
def Interval.Holds (i : Interval) (q : ℚ) : Prop :=
  if i.closed then i.low ≤ 4 * q ∧ 4 * q ≤ i.high else i.low < 4 * q ∧ 4 * q < i.high

theorem Interval.contains_iff_holds (i : Interval) {scale den point : Nat} (hscale : 0 < scale) :
    i.contains scale den point = true ↔ i.Holds ((point * den : Nat) / (4 * scale : Nat)) := by
  have hpos : (0 : ℚ) < scale := by exact_mod_cast hscale
  have hquotient : 4 * (((point * den : Nat) : ℚ) / (4 * scale : Nat)) = (point * den : Nat) / scale := by
    push_cast
    field_simp
  unfold contains Holds
  rw [hquotient, le_div_iff₀ hpos, lt_div_iff₀ hpos, div_le_iff₀ hpos, div_lt_iff₀ hpos]
  split
  · simp only [Bool.and_eq_true, decide_eq_true_eq]
    norm_cast
  · simp only [Bool.and_eq_true, decide_eq_true_eq]
    norm_cast

end Shortest

namespace Magnitude64

open Shortest

theorem significand_lt (m : Magnitude64) : m.significand < 2 ^ 53 := m.canonical.1

theorem shift_le (m : Magnitude64) : m.shift ≤ 2045 := m.canonical.2.1

theorem le_significand (m : Magnitude64) (hshift : m.shift ≠ 0) : 2 ^ 52 ≤ m.significand :=
  m.canonical.2.2.resolve_left hshift

/-- The shift of a rounded quotient is zero below `2 ^ 53` units, and otherwise it leaves 53 binary
digits. -/
theorem shift_eq_iff {num den shift : Nat} (hden : 0 < den) :
    (num / den).log2 + 1 - 53 = shift ↔
      num < 2 ^ 53 * (2 ^ shift * den) ∧ (shift ≠ 0 → 2 ^ 52 * (2 ^ shift * den) ≤ num) := by
  have hbelow : num < 2 ^ 53 * (2 ^ shift * den) ↔ num / den < 2 ^ (53 + shift) := by
    rw [Nat.div_lt_iff_lt_mul hden, Nat.pow_add, Nat.mul_assoc]
  have habove : 2 ^ 52 * (2 ^ shift * den) ≤ num ↔ 2 ^ (52 + shift) ≤ num / den := by
    rw [Nat.le_div_iff_mul_le hden, Nat.pow_add, Nat.mul_assoc]
  rw [hbelow, habove]
  generalize num / den = quotient
  by_cases hzero : quotient = 0
  · subst hzero
    have hpos : 0 < 2 ^ (52 + shift) := Nat.two_pow_pos _
    have hpos' : 0 < 2 ^ (53 + shift) := Nat.two_pow_pos _
    have hlog : Nat.log2 0 = 0 := by decide
    rw [hlog]
    omega
  · rw [← Nat.log2_lt hzero, ← Nat.le_log2 hzero]
    omega

theorem ofParts?_eq_some_iff {significand shift : Nat} {m : Magnitude64} :
    Magnitude.ofParts? significand shift = some m ↔
      m.significand = significand ∧ m.shift = shift := by
  unfold Magnitude.ofParts?
  constructor
  · intro h
    split at h
    · cases h
      exact ⟨rfl, rfl⟩
    · cases h
  · rintro ⟨rfl, rfl⟩
    rw [dif_pos m.canonical]

theorem round?_eq {num den shift significand : Nat} (hden : 0 < den)
    (hshift : num < 2 ^ 53 * (2 ^ shift * den) ∧ (shift ≠ 0 → 2 ^ 52 * (2 ^ shift * den) ≤ num))
    (hsignificand : roundHalfEven num (2 ^ shift * den) = significand) :
    (Magnitude.round? num den : Option Magnitude64) =
      if significand = 2 ^ 53 then Magnitude.ofParts? (2 ^ 52) (shift + 1)
      else Magnitude.ofParts? significand shift := by
  have hlog := (shift_eq_iff hden).2 hshift
  subst hlog
  subst hsignificand
  rw [Nat.mul_comm]
  rfl

theorem contains_of_round? {num den : Nat} (hden : 0 < den) {m : Magnitude64}
    (h : Magnitude.round? num den = some m) : (interval m).contains den 4 num = true := by
  obtain ⟨shift, hlog⟩ : ∃ shift, (num / den).log2 + 1 - 53 = shift := ⟨_, rfl⟩
  have hshift := (shift_eq_iff hden).1 hlog
  have hstep : 0 < 2 ^ shift * den := Nat.mul_pos (Nat.two_pow_pos _) hden
  rw [round?_eq hden hshift rfl] at h
  have hbounds := roundHalfEven_bounds num hstep
  generalize roundHalfEven num (2 ^ shift * den) = significand at *
  rw [contains_iff m hden]
  split at h
  -- The significand overflows, and the magnitude is the least one with the next shift.
  · rename_i hcarry
    obtain ⟨hs, hk⟩ := ofParts?_eq_some_iff.1 h
    have hnext : 2 ^ (shift + 1) * den = 2 * (2 ^ shift * den) := by ring
    rw [reach, if_pos ⟨hs, by omega⟩, hs, hk, hnext]
    rw [hcarry] at hbounds
    omega
  · obtain ⟨hs, hk⟩ := ofParts?_eq_some_iff.1 h
    have hreach := reach_cases m
    rw [hs, hk] at hreach ⊢
    generalize 2 ^ shift * den = step at *
    rcases hreach with hreach | ⟨hreach, hleast, hpos⟩
    · rw [hreach]
      omega
    · have hfrom := hshift.2 hpos
      subst hleast
      rw [hreach]
      omega

theorem round?_of_contains {num den : Nat} (hden : 0 < den) {m : Magnitude64}
    (h : (interval m).contains den 4 num = true) : Magnitude.round? num den = some m := by
  rw [contains_iff m hden] at h
  have hlt : m.significand * (2 ^ m.shift * den) + 2 ^ m.shift * den
      ≤ 2 ^ 53 * (2 ^ m.shift * den) := by
    rw [← Nat.succ_mul]
    exact Nat.mul_le_mul_right _ m.significand_lt
  have hreach := reach_cases m
  have hstep : 0 < 2 ^ m.shift * den := Nat.mul_pos (Nat.two_pow_pos _) hden
  by_cases hfrom : m.shift ≠ 0 → 2 ^ 52 * (2 ^ m.shift * den) ≤ num
  · have hsignificand : roundHalfEven num (2 ^ m.shift * den) = m.significand := by
      rcases hreach with hreach | ⟨hreach, hleast, _⟩ <;> rw [hreach] at h <;>
        apply roundHalfEven_eq hstep <;> omega
    rw [round?_eq hden ⟨by omega, hfrom⟩ hsignificand, if_neg (Nat.ne_of_lt m.significand_lt)]
    exact ofParts?_eq_some_iff.2 ⟨rfl, rfl⟩
  -- A quotient just below a power of two belongs to the power by carry.
  · obtain ⟨hpos, hbelow⟩ := Classical.not_imp.1 hfrom
    obtain ⟨shift, hshift⟩ : ∃ shift, m.shift = shift + 1 := Nat.exists_eq_succ_of_ne_zero hpos
    have hnext : 2 ^ m.shift * den = 2 * (2 ^ shift * den) := by
      rw [hshift]
      ring
    have hleast : m.significand = 2 ^ 52 := by
      have hle : reach m * (2 ^ m.shift * den) ≤ 2 * (2 ^ m.shift * den) :=
        Nat.mul_le_mul_right _ (by omega)
      by_contra hne
      have hgt : (2 ^ 52 + 1) * (2 ^ m.shift * den) ≤ m.significand * (2 ^ m.shift * den) :=
        Nat.mul_le_mul_right _ (by have := m.le_significand hpos; omega)
      omega
    have hone : reach m = 1 := by rw [reach, if_pos ⟨hleast, by omega⟩]
    rw [hone, hleast, hnext] at h
    rw [hnext] at hbelow
    have hsignificand : roundHalfEven num (2 ^ shift * den) = 2 ^ 53 := by
      apply roundHalfEven_eq (by omega) <;> omega
    rw [round?_eq hden ⟨by omega, fun _ => by omega⟩ hsignificand, if_pos rfl]
    exact ofParts?_eq_some_iff.2 ⟨hleast, hshift⟩

/-- A quotient is rounded to a magnitude exactly when it lies in its interval. -/
theorem round?_eq_some_iff {num den : Nat} (hden : 0 < den) {m : Magnitude64} :
    Magnitude.round? num den = some m ↔ (interval m).Holds ((num : ℚ) / den) := by
  have hpos : (den : ℚ) ≠ 0 := by exact_mod_cast hden.ne'
  have hquotient : (((num * 4 : Nat) : ℚ) / (4 * den : Nat)) = num / den := by
    push_cast
    field_simp
  rw [← hquotient, ← Interval.contains_iff_holds _ hden]
  exact ⟨contains_of_round? hden, round?_of_contains hden⟩

theorem round?_units (m : Magnitude64) : Magnitude.round? m.units 1 = some m := by
  apply round?_of_contains Nat.one_pos
  have hstep : 0 < 2 ^ m.shift * 1 := Nat.mul_pos (Nat.two_pow_pos _) Nat.one_pos
  have hunits : m.units = m.significand * (2 ^ m.shift * 1) := by rw [Nat.mul_one]; rfl
  have hreach : 0 < reach m * (2 ^ m.shift * 1) :=
    Nat.mul_pos (by have := reach_cases m; omega) hstep
  rw [contains_iff m Nat.one_pos, hunits]
  omega

theorem step_le_of_lt {low high : Nat} (den : Nat) (hlt : low < high) :
    2 * (2 ^ low * den) ≤ 2 ^ high * den := by
  rw [← Nat.mul_assoc, Nat.mul_comm 2, ← Nat.pow_succ]
  exact Nat.mul_le_mul_right den (Nat.pow_le_pow_right (by decide) hlt)

theorem units_of_round? {num den shift : Nat} {m : Magnitude64} (hden : 0 < den)
    (hshift : num < 2 ^ 53 * (2 ^ shift * den) ∧ (shift ≠ 0 → 2 ^ 52 * (2 ^ shift * den) ≤ num))
    (h : Magnitude.round? num den = some m) :
    m.units = roundHalfEven num (2 ^ shift * den) * 2 ^ shift := by
  rw [round?_eq hden hshift rfl] at h
  split at h
  · rename_i hcarry
    rw [Magnitude.units_ofParts? h, hcarry]
    change 2 ^ 52 * 2 ^ (shift + 1) = 2 ^ 53 * 2 ^ shift
    ring
  · exact Magnitude.units_ofParts? h

theorem round?_mono {num num' den : Nat} {m m' : Magnitude64} (hden : 0 < den) (hle : num ≤ num')
    (h : Magnitude.round? num den = some m) (h' : Magnitude.round? num' den = some m') :
    m.units ≤ m'.units := by
  obtain ⟨shift, hlog⟩ : ∃ shift, (num / den).log2 + 1 - 53 = shift := ⟨_, rfl⟩
  obtain ⟨shift', hlog'⟩ : ∃ shift', (num' / den).log2 + 1 - 53 = shift' := ⟨_, rfl⟩
  have hshift := (shift_eq_iff hden).1 hlog
  have hshift' := (shift_eq_iff hden).1 hlog'
  rw [units_of_round? hden hshift h, units_of_round? hden hshift' h']
  have hstep : 0 < 2 ^ shift * den := Nat.mul_pos (Nat.two_pow_pos _) hden
  have hstep' : 0 < 2 ^ shift' * den := Nat.mul_pos (Nat.two_pow_pos _) hden
  rcases Nat.lt_trichotomy shift shift' with hlt | rfl | hlt
  · have hmost : roundHalfEven num (2 ^ shift * den) ≤ 2 ^ 53 := by
      have hbounds := roundHalfEven_bounds num hstep
      by_contra hgt
      have : (2 ^ 53 + 1) * (2 ^ shift * den) ≤ _ := Nat.mul_le_mul_right _ (Nat.not_le.1 hgt)
      omega
    have hleast : 2 ^ 52 ≤ roundHalfEven num' (2 ^ shift' * den) := by
      have hbounds := roundHalfEven_bounds num' hstep'
      have hfrom := hshift'.2 (by omega)
      by_contra hgt
      have : _ ≤ (2 ^ 52 - 1) * (2 ^ shift' * den) :=
        Nat.mul_le_mul_right _ (Nat.le_sub_one_of_lt (Nat.not_le.1 hgt))
      omega
    have hpow := step_le_of_lt 1 hlt
    calc roundHalfEven num (2 ^ shift * den) * 2 ^ shift
        ≤ 2 ^ 53 * 2 ^ shift := Nat.mul_le_mul_right _ hmost
      _ ≤ 2 ^ 52 * 2 ^ shift' := by omega
      _ ≤ _ := Nat.mul_le_mul_right _ hleast
  · exact Nat.mul_le_mul_right _ (roundHalfEven_mono hstep hle)
  · have hpow := step_le_of_lt den hlt
    have hfrom := hshift.2 (by omega)
    omega

/-- The step of the largest magnitudes. -/
def topStep : Nat := 2 ^ 2045

/-- Half a step above the largest magnitude. -/
def limit : ℚ := (2 ^ 54 - 1) / 2 * topStep

theorem step_le_topStep {shift : Nat} (hle : shift ≤ 2045) : 2 ^ shift ≤ topStep := by
  unfold topStep
  generalize 2045 = top at *
  exact Nat.pow_le_pow_right (by decide) hle

theorem topStep_lt_step {shift : Nat} (hlt : 2045 < shift) : 2 * topStep ≤ 2 ^ shift := by
  unfold topStep
  generalize 2045 = top at *
  have h := step_le_of_lt 1 hlt
  rwa [Nat.mul_one, Nat.mul_one] at h

theorem isSome_round?_of_lt {num den : Nat} (hden : 0 < den)
    (h : 2 * num < (2 ^ 54 - 1) * (topStep * den)) :
    (Magnitude.round? num den : Option Magnitude64).isSome = true := by
  obtain ⟨shift, hlog⟩ : ∃ shift, (num / den).log2 + 1 - 53 = shift := ⟨_, rfl⟩
  have hshift := (shift_eq_iff hden).1 hlog
  have hstep : 0 < 2 ^ shift * den := Nat.mul_pos (Nat.two_pow_pos _) hden
  obtain ⟨hhigh, hlow, _⟩ := roundHalfEven_bounds num hstep
  have hle : shift ≤ 2045 := by
    by_contra hgt
    have hpow : 2 * topStep * den ≤ 2 ^ shift * den :=
      Nat.mul_le_mul_right den (topStep_lt_step (Nat.not_le.1 hgt))
    have hfrom := hshift.2 (by omega)
    rw [Nat.mul_assoc] at hpow
    omega
  rw [round?_eq hden hshift rfl]
  generalize roundHalfEven num (2 ^ shift * den) = significand at *
  have hmost : significand ≤ 2 ^ 53 := by
    by_contra hgt
    have : (2 ^ 53 + 1) * (2 ^ shift * den) ≤ _ := Nat.mul_le_mul_right _ (Nat.not_le.1 hgt)
    omega
  have hleast : shift ≠ 0 → 2 ^ 52 ≤ significand := by
    intro hpos
    have hfrom := hshift.2 hpos
    by_contra hgt
    have : _ ≤ (2 ^ 52 - 1) * (2 ^ shift * den) :=
      Nat.mul_le_mul_right _ (Nat.le_sub_one_of_lt (Nat.not_le.1 hgt))
    omega
  unfold Magnitude.ofParts?
  split
  · rename_i hcarry
    have hbelow : shift ≠ 2045 := by
      rintro rfl
      rw [hcarry] at hlow
      change 2 * (2 ^ 53 * (topStep * den)) ≤ 2 * num + topStep * den at hlow
      omega
    rw [dif_pos ⟨by decide, by omega, .inr (Nat.le_refl _)⟩]
    rfl
  · rw [dif_pos ⟨Nat.lt_of_le_of_ne hmost ‹_›, hle, or_iff_not_imp_left.2 hleast⟩]
    rfl

theorem lt_of_round? {num den : Nat} {m : Magnitude64} (hden : 0 < den)
    (h : Magnitude.round? num den = some m) : 2 * num < (2 ^ 54 - 1) * (topStep * den) := by
  obtain ⟨-, hhigh, hodd⟩ := (contains_iff m hden).1 (contains_of_round? hden h)
  have hstep : 0 < 2 ^ m.shift * den := Nat.mul_pos (Nat.two_pow_pos _) hden
  have htop : 2 ^ m.shift * den ≤ topStep * den := Nat.mul_le_mul_right den (step_le_topStep m.shift_le)
  by_cases hlargest : m.significand = 2 ^ 53 - 1
  · have hopen := Nat.lt_of_le_of_ne hhigh (hodd (by omega)).2
    rw [hlargest] at hopen
    clear hhigh hodd
    omega
  · have hless : m.significand * (2 ^ m.shift * den) ≤ (2 ^ 53 - 2) * (2 ^ m.shift * den) :=
      Nat.mul_le_mul_right _ (by have := m.significand_lt; omega)
    omega

/-- A quotient is rounded to a magnitude exactly when it is less than half a step above the
largest one. -/
theorem isSome_round?_iff {num den : Nat} (hden : 0 < den) :
    (Magnitude.round? num den : Option Magnitude64).isSome = true ↔ (num : ℚ) / den < limit := by
  have hpos : (0 : ℚ) < den := by exact_mod_cast hden
  have hlimit : (num : ℚ) / den < limit ↔ 2 * num < (2 ^ 54 - 1) * (topStep * den) := by
    rw [div_lt_iff₀ hpos, limit, ← Nat.cast_lt (α := ℚ)]
    push_cast
    constructor <;> intro h <;> linarith
  rw [hlimit]
  constructor
  · intro h
    obtain ⟨m, hm⟩ := Option.isSome_iff_exists.1 h
    exact lt_of_round? hden hm
  · exact isSome_round?_of_lt hden

end Magnitude64

end Telemetry.Number
