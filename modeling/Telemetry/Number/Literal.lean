import Telemetry.Number.Binary64

/-!
# Numbers in text

Readers for numbers given as text by people and in request paths. An integer is an optional sign and
ASCII digits; a floating-point number is an optional sign followed by digits with at most one point
and an optional exponent, or the words for infinity and "not a number" in any case. Decimals of any
length are rounded correctly.
-/

namespace Telemetry.Number

inductive LiteralError where
  | emptyInteger
  | invalidDigit
  | tooLarge
  | tooSmall
  | emptyFloat
  | invalidFloat
deriving DecidableEq, Repr

def LiteralError.message : LiteralError → String
  | .emptyInteger => "cannot parse integer from empty string"
  | .invalidDigit => "invalid digit found in string"
  | .tooLarge => "number too large to fit in target type"
  | .tooSmall => "number too small to fit in target type"
  | .emptyFloat => "cannot parse float from empty string"
  | .invalidFloat => "invalid float literal"

def digitValue? (c : Char) : Option Nat := if c.isDigit then some (c.toNat - '0'.toNat) else none

def digitsValue (cs : List Char) : Nat :=
  cs.foldl (fun n c => 10 * n + (c.toNat - '0'.toNat)) 0

namespace Literal

/-- Reads digits onto `acc`, refusing as soon as a number leaves `0 … most`; a character that is no
digit is noticed first. -/
def readDigits (most : Nat) (overflow : LiteralError) : Nat → List Char → Except LiteralError Nat
  | acc, [] => .ok acc
  | acc, c :: cs =>
    match digitValue? c with
    | none => .error .invalidDigit
    | some d => if most < 10 * acc + d then .error overflow else readDigits most overflow (10 * acc + d) cs

/-- A natural number up to `most`; a plus sign is allowed. -/
def readNat (most : Nat) : List Char → Except LiteralError Nat
  | [] => .error .emptyInteger
  | ['+'] => .error .invalidDigit
  | '+' :: cs => readDigits most .tooLarge 0 cs
  | cs => readDigits most .tooLarge 0 cs

/-- An integer from `-(most + 1)` to `most`. -/
def readInt (most : Nat) : List Char → Except LiteralError Int
  | [] => .error .emptyInteger
  | ['+'] => .error .invalidDigit
  | ['-'] => .error .invalidDigit
  | '-' :: cs => (readDigits (most + 1) .tooSmall 0 cs).map fun n => -(n : Int)
  | '+' :: cs => (readDigits most .tooLarge 0 cs).map fun n => (n : Int)
  | cs => (readDigits most .tooLarge 0 cs).map fun n => (n : Int)

/-- The exponent part: nothing, or `e`, an optional sign and at least one digit. -/
def exponentPart? : List Char → Option Int
  | [] => some 0
  | e :: cs =>
    if e = 'e' || e = 'E' then
      let (negative, ds) := match cs with
        | '-' :: ds => (true, ds)
        | '+' :: ds => (false, ds)
        | ds => (false, ds)
      if ds.isEmpty || !ds.all Char.isDigit then none
      else some (if negative then -(digitsValue ds : Int) else digitsValue ds)
    else none

/-- An unsigned decimal with at least one digit, as digits and a power of ten. -/
def decimal? (cs : List Char) : Option (Nat × Int) :=
  let whole := cs.takeWhile Char.isDigit
  let rest := cs.dropWhile Char.isDigit
  let (fraction, rest) := match rest with
    | '.' :: more => (more.takeWhile Char.isDigit, more.dropWhile Char.isDigit)
    | more => ([], more)
  if whole.isEmpty && fraction.isEmpty then none
  else (exponentPart? rest).map fun e =>
    (digitsValue (whole ++ fraction), e - (fraction.length : Int))

/-- A floating-point number, where `round` gives the number of the wanted format nearest to a
decimal. -/
def readFloatWith (round : Bool → Nat → Int → Binary64) (cs : List Char) :
    Except LiteralError Binary64 :=
  if cs.isEmpty then .error .emptyFloat
  else
    let (negative, body) := match cs with
      | '-' :: body => (true, body)
      | '+' :: body => (false, body)
      | body => (false, body)
    match decimal? body with
    | some (digits, exponent) => .ok (round negative digits exponent)
    | none =>
      let word := String.ofList (body.map Char.toLower)
      if word = "nan" then .ok .nan
      else if word = "inf" || word = "infinity" then .ok (.infinite negative)
      else .error .invalidFloat

def readFloat (cs : List Char) : Except LiteralError Binary64 :=
  readFloatWith Binary64.ofDecimal cs

/-- A 32-bit floating-point number, widened without change. -/
def readNarrowFloat (cs : List Char) : Except LiteralError Binary64 :=
  readFloatWith Binary64.ofNarrowDecimal cs

end Literal

def int64Max : Nat := 0x7fffffffffffffff

def uint64Max : Nat := 0xffffffffffffffff

def fitsInt64 (n : Int) : Bool := -0x8000000000000000 ≤ n && n < 0x8000000000000000

end Telemetry.Number
