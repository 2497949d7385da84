import Telemetry.Number.Binary64

/-!
# Shortest decimal digits

The decimals that read back as a given number fill an interval around it: up to half the distance to
either neighbour, the ends belonging to it when the significand is even. The shortest digits of the
number are found on the coarsest decimal grid that has a point in the interval. Only the two grid
points next to the number need to be looked at, since a grid with any point inside the interval has
one of those two inside.
-/

namespace Telemetry.Number

/-- Which way a number goes that lies halfway between two decimals of the same length. -/
inductive Tie where
  | even
  | up
deriving DecidableEq, Repr

/-- The decimal `digits * 10 ^ exponent`. -/
structure Decimal where
  digits : Nat
  exponent : Int
deriving DecidableEq, Repr

namespace Shortest

/-- The interval of a magnitude in quarter units: its centre, its ends, and whether the ends
belong to it. -/
structure Interval where
  low : Nat
  centre : Nat
  high : Nat
  closed : Bool

/-- All decimals nearer to the magnitude than to its neighbours. The neighbour below the smallest
significand is half as far away. -/
def interval (m : Magnitude64) : Interval where
  low := 4 * m.units -
    (if m.significand = Nat.pow 2 52 ∧ 0 < m.shift then Nat.pow 2 m.shift
      else 2 * Nat.pow 2 m.shift)
  centre := 4 * m.units
  high := 4 * m.units + 2 * Nat.pow 2 m.shift
  closed := m.significand % 2 = 0

/-- Whether `point / den` lies in the interval scaled by `scale`. -/
def Interval.contains (i : Interval) (scale den point : Nat) : Bool :=
  if i.closed then i.low * scale ≤ point * den && point * den ≤ i.high * scale
  else i.low * scale < point * den && point * den < i.high * scale

/-- The grid point of the interval on the grid of multiples of `10 ^ exponent`, the nearer one if
both neighbours of the centre are inside. -/
def gridPoint? (tie : Tie) (i : Interval) (exponent : Int) : Option Nat :=
  let scale := if exponent < 0 then Nat.pow 10 (-exponent).toNat else 1
  let den := 4 * Magnitude64.unitsPerOne * (if 0 ≤ exponent then Nat.pow 10 exponent.toNat else 1)
  let below := i.centre * scale / den
  let rest := i.centre * scale % den
  match i.contains scale den below, i.contains scale den (below + 1) with
  | true, false => some below
  | false, true => some (below + 1)
  | false, false => none
  | true, true =>
    if 2 * rest < den then some below
    else if den < 2 * rest then some (below + 1)
    else match tie with
      | .up => some (below + 1)
      | .even => some (if below % 2 = 0 then below else below + 1)

/-- The first grid with a point in the interval, going from coarse to fine. -/
def search (tie : Tie) (i : Interval) : Nat → Int → Decimal
  | 0, exponent => ⟨0, exponent⟩
  | steps + 1, exponent =>
    match gridPoint? tie i exponent with
    | some point => ⟨point, exponent⟩
    | none => search tie i steps (exponent - 1)

/-- A grid coarser than every decimal of the interval. -/
def coarsest (m : Magnitude64) : Int :=
  let bits : Int := (m.units.log2 : Int) + 2 - 1074
  if 0 ≤ bits then bits * 4 / 10 + 1 else -((-bits) * 3 / 10) + 1

end Shortest

/-- The shortest decimal that reads back as this magnitude, and of those the nearest to it. -/
def Magnitude64.shortest (tie : Tie) (m : Magnitude64) : Decimal :=
  if m.significand = 0 then ⟨0, 0⟩
  else Shortest.search tie (Shortest.interval m) 800 (Shortest.coarsest m)

end Telemetry.Number
