import Telemetry.Number.Shortest

/-!
# Layout of decimal numbers

How the shortest digits of a number are written: where positional notation ends and scientific
notation begins, and whether an integral value keeps a fraction. Each output format of the program
fixes one such layout beside its own printer.
-/

namespace Telemetry.Number

structure Layout where
  /-- Digits of a number halfway between two decimals of the same length. -/
  tie : Tie
  /-- Positional notation is used when the number of digits before the point, possibly negative,
  is above the first bound and at most the second; without bounds it is always used. -/
  positional : Option (Int × Int)
  /-- Whether an integral value in positional notation ends in `.0`. -/
  integralFraction : Bool

namespace Layout

def digitsOf (n : Nat) : List Char := (Nat.toDigits 10 n)

/-- Digits with the point after the first `point` of them, padded with zeros where needed. -/
def positionalText (layout : Layout) (digits : List Char) (point : Int) : List Char :=
  if digits.length ≤ point then
    digits ++ List.replicate (point.toNat - digits.length) '0'
      ++ (if layout.integralFraction then ['.', '0'] else [])
  else if 0 < point then
    digits.take point.toNat ++ '.' :: digits.drop point.toNat
  else
    '0' :: '.' :: (List.replicate (-point).toNat '0' ++ digits)

/-- One digit before the point, and the sign of the exponent always written. -/
def scientificText (digits : List Char) (point : Int) : List Char :=
  let exponent := point - 1
  let fraction := digits.drop 1
  digits.take 1 ++ (if fraction.isEmpty then [] else '.' :: fraction)
    ++ 'e' :: (if exponent < 0 then '-' else '+') :: digitsOf exponent.natAbs

/-- The text of a magnitude without its sign. -/
def magnitudeText (layout : Layout) (m : Magnitude64) : List Char :=
  if m.significand = 0 then layout.positionalText ['0'] 1
  else
    let decimal := m.shortest layout.tie
    let digits := digitsOf decimal.digits
    let point := (digits.length : Int) + decimal.exponent
    match layout.positional with
    | none => layout.positionalText digits point
    | some (above, most) =>
      if above < point && point ≤ most then layout.positionalText digits point
      else scientificText digits point

/-- The text of a finite number; a negative zero keeps its sign. -/
def finiteText (layout : Layout) (negative : Bool) (m : Magnitude64) : List Char :=
  (if negative then ['-'] else []) ++ layout.magnitudeText m

end Layout

end Telemetry.Number
