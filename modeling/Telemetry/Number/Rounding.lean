/-!
# Rounding to a binary grid

A positive number of a binary floating-point format is `significand * 2 ^ shift`, counted in units
of the smallest positive number of the format, where the significand has at most `precision`
binary digits. Counting in those units keeps every magnitude a natural number, so rounding an exact
quotient is natural-number arithmetic and the result of each operation is decided by the quotient
alone.
-/

namespace Telemetry.Number

/-- The quotient `num / den` rounded to the nearest natural number, a half going to the even one. -/
def roundHalfEven (num den : Nat) : Nat :=
  let quotient := num / den
  let remainder := num % den
  if 2 * remainder < den then quotient
  else if den < 2 * remainder then quotient + 1
  else if quotient % 2 = 0 then quotient else quotient + 1

/-- A canonical magnitude: every number of the format has exactly one such form. -/
structure Magnitude (precision maxShift : Nat) where
  significand : Nat
  shift : Nat
  canonical : significand < Nat.pow 2 precision ∧ shift ≤ maxShift ∧
    (shift = 0 ∨ Nat.pow 2 (precision - 1) ≤ significand)
deriving DecidableEq, Repr

namespace Magnitude

variable {precision maxShift : Nat}

/-- The magnitude counted in units of the smallest positive number of the format. -/
def units (m : Magnitude precision maxShift) : Nat := m.significand * Nat.pow 2 m.shift

def ofParts? (significand shift : Nat) : Option (Magnitude precision maxShift) :=
  if h : significand < Nat.pow 2 precision ∧ shift ≤ maxShift ∧
      (shift = 0 ∨ Nat.pow 2 (precision - 1) ≤ significand) then
    some ⟨significand, shift, h⟩
  else none

/-- The magnitude nearest to `num / den` units, a tie going to the even significand; nothing when
that lies beyond the largest magnitude. -/
def round? (num den : Nat) : Option (Magnitude precision maxShift) :=
  let shift := (num / den).log2 + 1 - precision
  let significand := roundHalfEven num (den * Nat.pow 2 shift)
  if significand = Nat.pow 2 precision then ofParts? (Nat.pow 2 (precision - 1)) (shift + 1)
  else ofParts? significand shift

theorem units_ofParts? {significand shift : Nat} {m : Magnitude precision maxShift}
    (h : ofParts? significand shift = some m) : m.units = significand * Nat.pow 2 shift := by
  unfold ofParts? at h
  split at h
  · cases h; rfl
  · simp at h

end Magnitude

end Telemetry.Number
