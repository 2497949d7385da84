import Telemetry.Failure
import Telemetry.Number.Literal

/-!
# Values of metrics

A gauge holds a 64-bit floating-point number and a counter a signed 64-bit integer. A gauge that is
read from text must be finite, since the special values have no place in a document.
-/

namespace Telemetry

open Number

/-- The value of a metric, which fixes its kind. -/
inductive Value where
  | gauge (x : Binary64)
  | counter (n : Int64)
deriving DecidableEq

/-- Shortest digits in positional notation, without a fraction on integral values. -/
def gaugeLayout : Layout where
  tie := .up
  positional := none
  integralFraction := false

def gaugeText : Binary64 → List Char
  | .nan => ['N', 'a', 'N']
  | .infinite false => ['i', 'n', 'f']
  | .infinite true => ['-', 'i', 'n', 'f']
  | .finite negative m => gaugeLayout.finiteText negative m

def integerText (n : Int) : List Char :=
  if n < 0 then '-' :: Layout.digitsOf n.natAbs else Layout.digitsOf n.natAbs

/-- The exact sum of two counters, if it is a signed 64-bit integer. -/
def addExact? (a b : Int64) : Option Int64 :=
  if fitsInt64 (a.toInt + b.toInt) then some (Int64.ofInt (a.toInt + b.toInt)) else none

/-- Refuses a gauge that is not finite. -/
def finiteGauge (x : Binary64) : Except Failure Binary64 :=
  if x.isFinite then .ok x
  else .error (.invalidMetric ("gauge value " ++ String.ofList (gaugeText x) ++ " is not finite"))

def Kind.ofName (s : String) : Except Failure Kind :=
  match Kind.ofName? s with
  | some kind => .ok kind
  | none => .error (.invalidMetric ("unknown metric type " ++ s))

namespace Value

def kind : Value → Kind
  | .gauge _ => .gauge
  | .counter _ => .counter

def text : Value → String
  | .gauge x => String.ofList (gaugeText x)
  | .counter n => String.ofList (integerText n.toInt)

/-- Whether the value is finite; every counter is. -/
def isFinite : Value → Bool
  | .gauge x => x.isFinite
  | .counter _ => true

def read (kind : Kind) (raw : String) : Except Failure Value :=
  match kind with
  | .gauge => match Literal.readFloat raw.toList with
    | .ok x => (finiteGauge x).map .gauge
    | .error e => .error (.invalidMetric ("bad gauge value " ++ raw ++ ": " ++ e.message))
  | .counter => match Literal.readInt int64Max raw.toList with
    | .ok n => .ok (.counter (Int64.ofInt n))
    | .error e => .error (.invalidMetric ("bad counter value " ++ raw ++ ": " ++ e.message))

end Value

end Telemetry
