import Telemetry.Proofs.Number.Rounding

/-!
# Shortest digits

The shortest decimal of a magnitude lies in its interval, so that it is rounded to the magnitude
again, and its digits fit a word. The search always ends on a grid with a point in the interval: the
finest grid it may reach is finer than the interval of every magnitude, and the grid it starts from
is too coarse to have a point there.
-/

namespace Telemetry.Number

open Magnitude64

/-- A decimal in units of the smallest positive magnitude. -/
def Decimal.units (decimal : Decimal) : ℚ :=
  decimal.digits * (10 ^ decimal.exponent * unitsPerOne)

theorem twoPow_pos (n : Nat) : (0 : ℚ) < Nat.pow 2 n := Nat.cast_pos.2 (Nat.two_pow_pos n)

theorem unitsPerOne_pos : (0 : ℚ) < unitsPerOne := by
  unfold unitsPerOne
  generalize 1074 = bits
  exact twoPow_pos bits

theorem unitsPerOne_eq : (unitsPerOne : ℚ) = 2 ^ ((1074 : Nat) : Int) := by
  unfold unitsPerOne
  generalize 1074 = bits
  rw [zpow_natCast, Nat.pow_eq, Nat.cast_pow]
  rfl

/-- The quotient that stands for a decimal is the decimal, unless a guard replaced it. -/
theorem decimalUnits_div (unitBits digits : Nat) {exponent : Int} (hhigh : exponent ≤ 400)
    (hlow : -400 ≤ exponent) :
    0 < (decimalUnits unitBits digits exponent).2 ∧
      ((decimalUnits unitBits digits exponent).1 : ℚ) / (decimalUnits unitBits digits exponent).2
        = digits * (10 ^ exponent * Nat.pow 2 unitBits) := by
  unfold decimalUnits
  split
  · rename_i hzero
    simp [hzero]
  · rw [if_neg (by omega), if_neg (by omega)]
    split
    · rename_i hpos
      obtain ⟨n, rfl⟩ := Int.eq_ofNat_of_zero_le hpos
      refine ⟨Nat.one_pos, ?_⟩
      rw [Int.toNat_natCast, zpow_natCast, Nat.pow_eq]
      push_cast
      ring
    · rename_i hneg
      obtain ⟨n, hn⟩ := Int.eq_ofNat_of_zero_le (show 0 ≤ -exponent by omega)
      obtain rfl : exponent = -n := by omega
      refine ⟨Nat.pow_pos (by decide), ?_⟩
      rw [neg_neg, Int.toNat_natCast, zpow_neg, zpow_natCast, Nat.pow_eq, Nat.pow_eq]
      push_cast
      field_simp

/-- A decimal is rounded to the magnitude whose interval it lies in. -/
theorem ofDecimal?_eq_some_iff {digits : Nat} {exponent : Int} {m : Magnitude64}
    (hhigh : exponent ≤ 400) (hlow : -400 ≤ exponent) :
    ofDecimal? digits exponent = some m ↔
      (Shortest.interval m).Holds (Decimal.units ⟨digits, exponent⟩) := by
  unfold ofDecimal? Decimal.units unitsPerOne
  generalize 1074 = bits
  obtain ⟨hden, hquotient⟩ := decimalUnits_div bits digits hhigh hlow
  rw [← hquotient, ← round?_eq_some_iff hden]

namespace Shortest

/-- The distance of the multiples of a power of ten, in units. -/
def gridStep (exponent : Int) : ℚ := 10 ^ exponent * unitsPerOne

theorem gridStep_pos (exponent : Int) : 0 < gridStep exponent :=
  mul_pos (zpow_pos (by norm_num) exponent) unitsPerOne_pos

theorem gridStep_succ (exponent : Int) : gridStep (exponent + 1) = 10 * gridStep exponent := by
  unfold gridStep
  rw [zpow_add_one₀ (by norm_num)]
  ring

theorem gridStep_mono {low high : Int} (h : low ≤ high) : gridStep low ≤ gridStep high :=
  mul_le_mul_of_nonneg_right (zpow_le_zpow_right₀ (by norm_num) h) unitsPerOne_pos.le

/-- What the bounds of an interval are multiplied by to be compared with the points of a grid. -/
def gridScale (exponent : Int) : Nat :=
  if exponent < 0 then Nat.pow 10 (-exponent).toNat else 1

/-- What the points of a grid are multiplied by to be compared with scaled bounds. -/
def gridDen (exponent : Int) : Nat :=
  4 * unitsPerOne * (if 0 ≤ exponent then Nat.pow 10 exponent.toNat else 1)

theorem gridScale_pos (exponent : Int) : 0 < gridScale exponent := by
  unfold gridScale
  split
  · exact Nat.pow_pos (by decide)
  · exact Nat.one_pos

theorem gridDen_div (exponent : Int) :
    (gridDen exponent : ℚ) / gridScale exponent = 4 * gridStep exponent := by
  unfold gridDen gridScale gridStep
  generalize unitsPerOne = one
  by_cases hneg : exponent < 0
  · obtain ⟨n, hn⟩ := Int.eq_ofNat_of_zero_le (show 0 ≤ -exponent by omega)
    obtain rfl : exponent = -n := by omega
    rw [if_pos hneg, if_neg (by omega), neg_neg, Int.toNat_natCast, zpow_neg, zpow_natCast,
      Nat.pow_eq]
    push_cast
    field_simp
  · obtain ⟨n, rfl⟩ := Int.eq_ofNat_of_zero_le (Int.not_lt.1 hneg)
    rw [if_neg hneg, if_pos (by omega), Int.toNat_natCast, zpow_natCast, Nat.pow_eq]
    push_cast
    ring

theorem contains_grid_iff (i : Interval) (exponent : Int) (point : Nat) :
    i.contains (gridScale exponent) (gridDen exponent) point = true ↔
      i.Holds (point * gridStep exponent) := by
  have hscale : (0 : ℚ) < gridScale exponent := by exact_mod_cast gridScale_pos exponent
  have hdiv := gridDen_div exponent
  rw [div_eq_iff hscale.ne'] at hdiv
  have hpoint : ((point * gridDen exponent : Nat) : ℚ) / (4 * gridScale exponent : Nat)
      = point * gridStep exponent := by
    push_cast
    rw [hdiv]
    field_simp
  rw [Interval.contains_iff_holds i (gridScale_pos exponent), hpoint]

/-- The point below the centre. -/
def gridBelow (i : Interval) (exponent : Int) : Nat :=
  i.centre * gridScale exponent / gridDen exponent

theorem gridBelow_bounds (i : Interval) (exponent : Int) :
    4 * (gridBelow i exponent * gridStep exponent) ≤ i.centre ∧
      (i.centre : ℚ) < 4 * ((gridBelow i exponent + 1 : Nat) * gridStep exponent) := by
  have hscale : (0 : ℚ) < gridScale exponent := by exact_mod_cast gridScale_pos exponent
  have hdiv := gridDen_div exponent
  rw [div_eq_iff hscale.ne'] at hdiv
  have hden : 0 < gridDen exponent := by
    have := mul_pos (mul_pos four_pos (gridStep_pos exponent)) hscale
    rw [← hdiv] at this
    exact_mod_cast this
  have hlow : gridBelow i exponent * gridDen exponent ≤ i.centre * gridScale exponent :=
    Nat.div_mul_le_self _ _
  have hhigh : i.centre * gridScale exponent < (gridBelow i exponent + 1) * gridDen exponent :=
    Nat.lt_mul_of_div_lt (Nat.lt_succ_self _) hden
  rw [← Nat.cast_le (α := ℚ)] at hlow
  rw [← Nat.cast_lt (α := ℚ)] at hhigh
  push_cast at hlow hhigh ⊢
  rw [hdiv] at hlow hhigh
  constructor
  · exact le_of_mul_le_mul_right (by linarith) hscale
  · exact lt_of_mul_lt_mul_right (by linarith) hscale.le

theorem gridPoint?_cases (tie : Tie) (i : Interval) (exponent : Int) :
    (∃ point, gridPoint? tie i exponent = some point ∧
      i.contains (gridScale exponent) (gridDen exponent) point = true) ∨
    gridPoint? tie i exponent = none ∧
      i.contains (gridScale exponent) (gridDen exponent) (gridBelow i exponent) = false ∧
      i.contains (gridScale exponent) (gridDen exponent) (gridBelow i exponent + 1) = false := by
  unfold gridPoint? gridBelow gridScale gridDen
  dsimp only
  generalize (if exponent < 0 then Nat.pow 10 (-exponent).toNat else 1) = scale
  generalize 4 * unitsPerOne * (if 0 ≤ exponent then Nat.pow 10 exponent.toNat else 1) = den
  split
  · rename_i hbelow _
    exact .inl ⟨_, rfl, hbelow⟩
  · rename_i _ habove
    exact .inl ⟨_, rfl, habove⟩
  · rename_i hbelow habove
    exact .inr ⟨rfl, hbelow, habove⟩
  · rename_i hbelow habove
    left
    split
    · exact ⟨_, rfl, hbelow⟩
    · split
      · exact ⟨_, rfl, habove⟩
      · cases tie with
        | up => exact ⟨_, rfl, habove⟩
        | even =>
          refine ⟨_, rfl, ?_⟩
          split
          · exact hbelow
          · exact habove

theorem holds_of_gridPoint? {tie : Tie} {i : Interval} {exponent : Int} {point : Nat}
    (h : gridPoint? tie i exponent = some point) : i.Holds (point * gridStep exponent) := by
  rw [← contains_grid_iff]
  rcases gridPoint?_cases tie i exponent with ⟨point', hpoint, hcontains⟩ | ⟨hnone, -⟩
  · cases h.symm.trans hpoint
    exact hcontains
  · cases h.symm.trans hnone

theorem interval_eq {m : Magnitude64} (hpos : m.significand ≠ 0) :
    ((interval m).low : ℚ) = (4 * m.significand - reach m) * 2 ^ m.shift ∧
      ((interval m).centre : ℚ) = 4 * m.significand * 2 ^ m.shift ∧
      ((interval m).high : ℚ) = (4 * m.significand + 2) * 2 ^ m.shift := by
  have hreach : reach m ≤ 4 * m.significand := by
    have := reach_cases m
    omega
  have hcentre : (interval m).centre = 4 * (m.significand * 2 ^ m.shift) := rfl
  refine ⟨?_, ?_, ?_⟩
  · rw [low_eq, ← Nat.mul_assoc, ← Nat.sub_mul]
    push_cast [Nat.cast_sub hreach]
    ring
  · rw [hcentre]
    push_cast
    ring
  · rw [high_eq]
    push_cast
    ring

/-- A grid without a point in the interval is at least as coarse as the interval is long. -/
theorem length_le_of_gridPoint? {tie : Tie} {m : Magnitude64} {exponent : Int}
    (hpos : m.significand ≠ 0) (h : gridPoint? tie (interval m) exponent = none) :
    ((interval m).high : ℚ) - (interval m).low ≤ 4 * gridStep exponent := by
  obtain ⟨hbelow, habove⟩ := gridBelow_bounds (interval m) exponent
  obtain ⟨hlow, hcentre, hhigh⟩ := interval_eq hpos
  have hstep : (0 : ℚ) < 2 ^ m.shift := by positivity
  have hreach : (0 : ℚ) < reach m := by
    have := reach_cases m
    exact_mod_cast (show 0 < reach m by omega)
  have hlow_lt : ((interval m).low : ℚ) < (interval m).centre := by
    rw [hlow, hcentre]
    exact mul_lt_mul_of_pos_right (by linarith) hstep
  have hlt_high : ((interval m).centre : ℚ) < (interval m).high := by
    rw [hcentre, hhigh]
    exact mul_lt_mul_of_pos_right (by linarith) hstep
  rcases gridPoint?_cases tie (interval m) exponent with ⟨_, hpoint, -⟩ | ⟨-, hout, hout'⟩
  · cases h.symm.trans hpoint
  · rw [← Bool.not_eq_true, contains_grid_iff] at hout hout'
    push_cast at habove hout'
    generalize (gridBelow (interval m) exponent : ℚ) = below at *
    -- The two points next to the centre lie beyond the two ends.
    have hfirst : 4 * (below * gridStep exponent) ≤ (interval m).low := by
      by_contra hlt
      refine hout ?_
      unfold Interval.Holds
      split
      · constructor <;> linarith
      · constructor <;> linarith
    have hlast : (interval m).high ≤ 4 * ((below + 1) * gridStep exponent) := by
      by_contra hlt
      refine hout' ?_
      unfold Interval.Holds
      split
      · constructor <;> linarith
      · constructor <;> linarith
    linarith

/-- A search that starts close enough above a grid with a point ends on a grid with a point, and the
next coarser grid has none unless the search started there. -/
theorem search_spec {tie : Tie} {i : Interval} {floor : Int}
    (hfloor : gridPoint? tie i floor ≠ none) (steps : Nat) (start : Int) (hle : floor ≤ start)
    (hsteps : start - floor < steps) :
    ∃ point exponent, search tie i steps start = ⟨point, exponent⟩ ∧
      gridPoint? tie i exponent = some point ∧ floor ≤ exponent ∧ exponent ≤ start ∧
      (exponent = start ∨ gridPoint? tie i (exponent + 1) = none) := by
  induction steps generalizing start with
  | zero => omega
  | succ steps ih =>
    unfold search
    cases hpoint : gridPoint? tie i start with
    | some point => exact ⟨point, start, rfl, hpoint, hle, Int.le_refl start, .inl rfl⟩
    | none =>
      have hlt : floor ≠ start := by
        rintro rfl
        exact hfloor hpoint
      obtain ⟨point, exponent, hsearch, hfound, hfrom, hto, hcoarser⟩ :=
        ih (start - 1) (by omega) (by omega)
      refine ⟨point, exponent, hsearch, hfound, hfrom, by omega, .inr ?_⟩
      rcases hcoarser with rfl | hnone
      · rw [Int.sub_add_cancel]
        exact hpoint
      · exact hnone

theorem Interval.Holds.bounds {i : Interval} {q : ℚ} (h : i.Holds q) :
    i.low ≤ 4 * q ∧ 4 * q ≤ i.high := by
  unfold Interval.Holds at h
  split at h
  · exact h
  · exact ⟨h.1.le, h.2.le⟩

def finest : Int := -324

theorem gridStep_finest : 4 * gridStep finest < 3 := by
  have hscale : (0 : ℚ) < gridScale finest := by exact_mod_cast gridScale_pos finest
  have hlt : gridDen finest < 3 * gridScale finest := by decide +kernel
  rw [← gridDen_div, div_lt_iff₀ hscale]
  exact_mod_cast hlt

/-- The grid above the largest magnitude. -/
def highest : Int := 309

theorem le_gridStep_highest : ((2 ^ 55 * topStep : Nat) : ℚ) ≤ 4 * gridStep highest := by
  have hscale : (0 : ℚ) < gridScale highest := by exact_mod_cast gridScale_pos highest
  have hle : 2 ^ 55 * topStep * gridScale highest ≤ gridDen highest := by decide +kernel
  rw [← gridDen_div, le_div_iff₀ hscale]
  exact_mod_cast hle

theorem length_interval {m : Magnitude64} (hpos : m.significand ≠ 0) :
    3 * 2 ^ m.shift ≤ ((interval m).high : ℚ) - (interval m).low := by
  obtain ⟨hlow, -, hhigh⟩ := interval_eq hpos
  have hstep : (0 : ℚ) < 2 ^ m.shift := by positivity
  have hreach : (1 : ℚ) ≤ reach m := by
    have := reach_cases m
    exact_mod_cast (show 1 ≤ reach m by omega)
  calc 3 * 2 ^ m.shift ≤ (2 + reach m : ℚ) * 2 ^ m.shift :=
        mul_le_mul_of_nonneg_right (by linarith) hstep.le
    _ = _ := by
        rw [hlow, hhigh]
        ring

theorem low_pos {m : Magnitude64} (hpos : m.significand ≠ 0) : (0 : ℚ) < (interval m).low := by
  obtain ⟨hlow, -, -⟩ := interval_eq hpos
  have hreach : (reach m : ℚ) < 4 * m.significand := by
    have := reach_cases m
    exact_mod_cast (show reach m < 4 * m.significand by omega)
  rw [hlow]
  exact mul_pos (by linarith) (by positivity)

theorem gridPoint?_finest (tie : Tie) {m : Magnitude64} (hpos : m.significand ≠ 0) :
    gridPoint? tie (interval m) finest ≠ none := by
  intro hnone
  have hlength := length_le_of_gridPoint? hpos hnone
  have hstep : (1 : ℚ) ≤ 2 ^ m.shift := one_le_pow₀ (by norm_num)
  have := length_interval hpos
  have := gridStep_finest
  linarith

theorem ten_pow_le_two_pow {j n : Nat} (h : 10 * j ≤ 3 * n) : 10 ^ j ≤ 2 ^ n := by
  rw [← Nat.pow_le_pow_iff_left (show 3 ≠ 0 by decide)]
  calc (10 ^ j) ^ 3 = 1000 ^ j := by rw [← Nat.pow_mul, Nat.mul_comm, Nat.pow_mul]
    _ ≤ 1024 ^ j := Nat.pow_le_pow_left (by decide) j
    _ = 2 ^ (10 * j) := by rw [Nat.pow_mul]
    _ ≤ 2 ^ (3 * n) := Nat.pow_le_pow_right (by decide) h
    _ = (2 ^ n) ^ 3 := by rw [Nat.mul_comm, Nat.pow_mul]

theorem two_pow_le_ten_pow {j n : Nat} (h : n ≤ 3 * j) : 2 ^ n ≤ 10 ^ j :=
  calc 2 ^ n ≤ 2 ^ (3 * j) := Nat.pow_le_pow_right (by decide) h
    _ = 8 ^ j := by rw [Nat.pow_mul]
    _ ≤ 10 ^ j := Nat.pow_le_pow_left (by decide) j

/-- The guess of the coarsest grid lies above a power of two. -/
theorem two_zpow_le (bits : Int) :
    (2 : ℚ) ^ bits ≤ 10 ^ (if 0 ≤ bits then bits * 4 / 10 + 1 else -((-bits) * 3 / 10) + 1) := by
  split
  · rename_i hpos
    obtain ⟨n, rfl⟩ := Int.eq_ofNat_of_zero_le hpos
    have hpow : 2 ^ n ≤ 10 ^ (n * 4 / 10 + 1) := two_pow_le_ten_pow (by omega)
    have hexponent : (n : Int) * 4 / 10 + 1 = (n * 4 / 10 + 1 : Nat) := by omega
    rw [hexponent, zpow_natCast, zpow_natCast]
    exact_mod_cast hpow
  · rename_i hneg
    obtain ⟨n, hn⟩ := Int.eq_ofNat_of_zero_le (show 0 ≤ -bits by omega)
    obtain rfl : bits = -n := by omega
    have hpow : 10 ^ (n * 3 / 10) ≤ 2 ^ n := ten_pow_le_two_pow (by omega)
    have hexponent : -(-(-(n : Int)) * 3 / 10) + 1 = -((n * 3 / 10 : Nat) : Int) + 1 := by omega
    rw [hexponent, zpow_add_one₀ (by norm_num), zpow_neg, zpow_neg, zpow_natCast, zpow_natCast]
    have hcast : (10 : ℚ) ^ (n * 3 / 10) ≤ 2 ^ n := by exact_mod_cast hpow
    have hinv := inv_anti₀ (by positivity) hcast
    have : (0 : ℚ) < (10 ^ (n * 3 / 10))⁻¹ := by positivity
    linarith

theorem high_lt_gridStep_coarsest {m : Magnitude64} (hpos : m.significand ≠ 0) :
    ((interval m).high : ℚ) < 4 * gridStep (coarsest m) := by
  obtain ⟨-, -, hhigh⟩ := interval_eq hpos
  have hunits : (m.units : ℚ) = m.significand * 2 ^ m.shift := by
    rw [Magnitude.units, Nat.pow_eq]
    push_cast
    rfl
  have hone : (1 : ℚ) ≤ m.significand := by exact_mod_cast Nat.one_le_iff_ne_zero.2 hpos
  have hlog : (m.units : ℚ) < 2 ^ (m.units.log2 + 1) := by exact_mod_cast Nat.lt_log2_self
  have hgrid : (2 : ℚ) ^ (m.units.log2 + 2) ≤ gridStep (coarsest m) := by
    have hle := two_zpow_le (m.units.log2 + 2 - (1074 : Nat))
    calc (2 : ℚ) ^ (m.units.log2 + 2)
        = 2 ^ ((m.units.log2 : Int) + 2 - (1074 : Nat)) * unitsPerOne := by
          rw [unitsPerOne_eq, ← zpow_add₀ (by norm_num), Int.sub_add_cancel, ← zpow_natCast]
          rfl
      _ ≤ gridStep (coarsest m) := mul_le_mul_of_nonneg_right hle unitsPerOne_pos.le
  calc ((interval m).high : ℚ) = (4 * m.significand + 2) * 2 ^ m.shift := hhigh
    _ ≤ 6 * m.units := by
        rw [hunits, ← mul_assoc]
        exact mul_le_mul_of_nonneg_right (by linarith) (by positivity)
    _ < 6 * 2 ^ (m.units.log2 + 1) := by linarith
    _ ≤ 4 * 2 ^ (m.units.log2 + 2) := by
        rw [pow_succ _ (m.units.log2 + 1)]
        have : (0 : ℚ) < 2 ^ (m.units.log2 + 1) := by positivity
        linarith
    _ ≤ _ := by linarith

theorem gridPoint?_coarsest (tie : Tie) {m : Magnitude64} (hpos : m.significand ≠ 0) :
    gridPoint? tie (interval m) (coarsest m) = none := by
  cases hpoint : gridPoint? tie (interval m) (coarsest m) with
  | none => rfl
  | some point =>
    exfalso
    obtain ⟨hlow, hhigh⟩ := (holds_of_gridPoint? hpoint).bounds
    have hlt := high_lt_gridStep_coarsest hpos
    have hlow_pos := low_pos hpos
    cases point with
    | zero =>
      push_cast at hlow
      linarith
    | succ point =>
      have hnonneg : 0 ≤ (point : ℚ) * gridStep (coarsest m) :=
        mul_nonneg (Nat.cast_nonneg point) (gridStep_pos _).le
      push_cast at hhigh
      linarith

theorem coarsest_bounds {m : Magnitude64} (hpos : m.significand ≠ 0) :
    finest < coarsest m ∧ coarsest m - finest < 800 := by
  have hunits : m.units ≠ 0 := Nat.mul_ne_zero hpos (Nat.two_pow_pos _).ne'
  have hlog : m.units.log2 < 53 + m.shift := by
    rw [Nat.log2_lt hunits, Nat.pow_add]
    exact Nat.mul_lt_mul_of_pos_right m.significand_lt (Nat.two_pow_pos _)
  have hshift := m.shift_le
  unfold coarsest finest
  dsimp only
  split <;> omega

end Shortest

namespace Magnitude64

open Shortest

/-- The shortest decimal lies in the interval, on a grid none of whose coarser ones has a point
there. -/
theorem shortest_spec (tie : Tie) {m : Magnitude64} (hpos : m.significand ≠ 0) :
    (interval m).Holds (m.shortest tie).units ∧ finest ≤ (m.shortest tie).exponent ∧
      gridPoint? tie (interval m) ((m.shortest tie).exponent + 1) = none := by
  have hbounds := coarsest_bounds hpos
  obtain ⟨point, exponent, hsearch, hpoint, hfrom, -, hcoarser⟩ :=
    search_spec (gridPoint?_finest tie hpos) 800 (coarsest m) (by omega) (by omega)
  rw [shortest, if_neg hpos, hsearch]
  refine ⟨holds_of_gridPoint? hpoint, hfrom, ?_⟩
  rcases hcoarser with rfl | hnone
  · cases hpoint.symm.trans (gridPoint?_coarsest tie hpos)
  · exact hnone

theorem digits_shortest_pos (tie : Tie) {m : Magnitude64} (hpos : m.significand ≠ 0) :
    0 < (m.shortest tie).digits := by
  obtain ⟨hlow, -⟩ := (shortest_spec tie hpos).1.bounds
  have hlow_pos := low_pos hpos
  rw [Nat.pos_iff_ne_zero]
  intro hzero
  rw [Decimal.units, hzero, Nat.cast_zero, zero_mul] at hlow
  linarith

theorem digits_shortest_le (tie : Tie) {m : Magnitude64} (hpos : m.significand ≠ 0) :
    3 * (m.shortest tie).digits ≤ 10 * (4 * m.significand + 2) := by
  obtain ⟨hholds, -, hcoarser⟩ := shortest_spec tie hpos
  obtain ⟨-, hhigh⟩ := hholds.bounds
  obtain ⟨-, -, heq⟩ := interval_eq hpos
  have hlength := (length_interval hpos).trans (length_le_of_gridPoint? hpos hcoarser)
  rw [gridStep_succ] at hlength
  change 4 * (_ * gridStep (m.shortest tie).exponent) ≤ _ at hhigh
  rw [heq] at hhigh
  have hgrid := gridStep_pos (m.shortest tie).exponent
  generalize gridStep (m.shortest tie).exponent = grid at *
  generalize (2 : ℚ) ^ m.shift = step at *
  have hscaled : (4 * m.significand + 2 : ℚ) * (3 * step) ≤ (4 * m.significand + 2) * (40 * grid) :=
    mul_le_mul_of_nonneg_left (by linarith) (by positivity)
  have hle : (3 * (m.shortest tie).digits : ℚ) ≤ 10 * (4 * m.significand + 2) :=
    le_of_mul_le_mul_right (by linarith) hgrid
  exact_mod_cast hle

theorem high_lt (m : Magnitude64) : (interval m).high < 2 ^ 55 * topStep := by
  have hstep := step_le_topStep m.shift_le
  have hpos : 0 < 2 ^ m.shift := Nat.two_pow_pos _
  have hsignificand : m.significand * 2 ^ m.shift ≤ (2 ^ 53 - 1) * 2 ^ m.shift :=
    Nat.mul_le_mul_right _ (by have := m.significand_lt; omega)
  rw [high_eq]
  omega

theorem exponent_shortest_lt (tie : Tie) {m : Magnitude64} (hpos : m.significand ≠ 0) :
    (m.shortest tie).exponent < highest := by
  obtain ⟨-, hhigh⟩ := (shortest_spec tie hpos).1.bounds
  change 4 * (_ * gridStep (m.shortest tie).exponent) ≤ _ at hhigh
  have hdigits : (1 : ℚ) ≤ (m.shortest tie).digits := by
    exact_mod_cast digits_shortest_pos tie hpos
  have hle := mul_le_mul_of_nonneg_right hdigits (gridStep_pos (m.shortest tie).exponent).le
  have hlt : ((interval m).high : ℚ) < (2 ^ 55 * topStep : Nat) := by exact_mod_cast high_lt m
  have htop := le_gridStep_highest
  by_contra hge
  have hmono := gridStep_mono (Int.not_lt.1 hge)
  linarith

/-- The shortest decimal is rounded to the magnitude it was found for. -/
theorem ofDecimal?_shortest (tie : Tie) (m : Magnitude64) :
    ofDecimal? (m.shortest tie).digits (m.shortest tie).exponent = some m := by
  by_cases hzero : m.significand = 0
  · have hunits : m.units = 0 := by rw [Magnitude.units, hzero, Nat.zero_mul]
    have hself := round?_units m
    rw [hunits] at hself
    rw [shortest, if_pos hzero]
    exact hself
  · obtain ⟨hholds, hfinest, -⟩ := shortest_spec tie hzero
    have hhighest := exponent_shortest_lt tie hzero
    unfold finest at hfinest
    unfold highest at hhighest
    exact (ofDecimal?_eq_some_iff (by omega) (by omega)).2 hholds

end Magnitude64

end Telemetry.Number
