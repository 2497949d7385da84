import Telemetry.Number.Rounding

/-!
# Binary64 numbers

The 64-bit binary floating-point numbers, with one value for "not a number". Two finite numbers are
equal exactly when their bits are, so the two zeros differ. The smallest positive number is
`2 ^ (-1074)`, and it is the unit in which magnitudes are counted.
-/

namespace Telemetry.Number

/-- A magnitude with 53 binary digits; the largest finite one is `(2 ^ 53 - 1) * 2 ^ 2045` units. -/
abbrev Magnitude64 := Magnitude 53 2045

/-- A magnitude with 24 binary digits, in units of `2 ^ (-149)`. -/
abbrev Magnitude32 := Magnitude 24 253

inductive Binary64 where
  | nan
  | infinite (negative : Bool)
  | finite (negative : Bool) (magnitude : Magnitude64)
deriving DecidableEq, Repr

/-- `digits * 10 ^ exponent` as a quotient, in units of `2 ^ (-unitBits)`. Outside the guards the
quotient is far beyond the largest magnitude or far below the smallest, and a stand-in keeps the
powers small. -/
def decimalUnits (unitBits : Nat) (digits : Nat) (exponent : Int) : Nat × Nat :=
  if digits = 0 then (0, 1)
  else if 400 < exponent then (Nat.pow 10 400 * Nat.pow 2 unitBits, 1)
  else if exponent < -(400 + (digits.log2 : Int)) then (0, 1)
  else if 0 ≤ exponent then (digits * Nat.pow 10 exponent.toNat * Nat.pow 2 unitBits, 1)
  else (digits * Nat.pow 2 unitBits, Nat.pow 10 (-exponent).toNat)

namespace Magnitude64

def unitsPerOne : Nat := Nat.pow 2 1074

/-- The magnitude nearest to `digits * 10 ^ exponent`. -/
def ofDecimal? (digits : Nat) (exponent : Int) : Option Magnitude64 :=
  let (num, den) := decimalUnits 1074 digits exponent
  Magnitude.round? num den

def ofNat? (n : Nat) : Option Magnitude64 := Magnitude.round? (n * unitsPerOne) 1

/-- The product, rounded; nothing when it is too large. -/
def mul? (x y : Magnitude64) : Option Magnitude64 :=
  Magnitude.round? (x.units * y.units) unitsPerOne

/-- The quotient, rounded; nothing when it is too large. -/
def div? (x y : Magnitude64) : Option Magnitude64 :=
  Magnitude.round? (x.units * unitsPerOne) y.units

def zero : Magnitude64 := ⟨0, 0, by decide⟩

end Magnitude64

namespace Magnitude32

/-- The magnitude nearest to `digits * 10 ^ exponent` in the narrow format. -/
def ofDecimal? (digits : Nat) (exponent : Int) : Option Magnitude32 :=
  let (num, den) := decimalUnits 149 digits exponent
  Magnitude.round? num den

end Magnitude32

namespace Binary64

/-- A signed magnitude; a magnitude beyond the largest is infinite. -/
def signed (negative : Bool) : Option Magnitude64 → Binary64
  | some m => .finite negative m
  | none => .infinite negative

/-- The number nearest to the decimal `± digits * 10 ^ exponent`. -/
def ofDecimal (negative : Bool) (digits : Nat) (exponent : Int) : Binary64 :=
  signed negative (Magnitude64.ofDecimal? digits exponent)

/-- The number nearest to the decimal among the numbers with 24 binary digits, widened without
change. -/
def ofNarrowDecimal (negative : Bool) (digits : Nat) (exponent : Int) : Binary64 :=
  match Magnitude32.ofDecimal? digits exponent with
  | some m => signed negative (Magnitude.round? (m.units * Nat.pow 2 (1074 - 149)) 1)
  | none => .infinite negative

def ofInt (n : Int) : Binary64 := signed (n < 0) (Magnitude64.ofNat? n.natAbs)

def ofNat (n : Nat) : Binary64 := ofInt n

def zero : Binary64 := .finite false Magnitude64.zero

/-- Neither infinite nor "not a number". -/
def isFinite : Binary64 → Bool
  | .finite _ _ => true
  | _ => false

end Binary64

end Telemetry.Number
