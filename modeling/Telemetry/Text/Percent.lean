import Telemetry.Text.Utf8

/-!
# Percent encoding

A percent sign and two hexadecimal digits stand for a byte. A percent sign without them stands for
itself. In a list of parameters a plus sign stands for a blank.
-/

namespace Telemetry.Text

def hexValue? (b : UInt8) : Option UInt8 :=
  if 48 ≤ b && b ≤ 57 then some (b - 48)
  else if 97 ≤ b && b ≤ 102 then some (b - 87)
  else if 65 ≤ b && b ≤ 70 then some (b - 55)
  else none

/-- The bytes that percent-encoded bytes stand for. -/
def percentDecode : Bytes → Bytes
  | [] => []
  | b :: c :: d :: rest =>
    if b = 37 then
      match hexValue? c, hexValue? d with
      | some high, some low => (16 * high + low) :: percentDecode rest
      | _, _ => b :: percentDecode (c :: d :: rest)
    else b :: percentDecode (c :: d :: rest)
  | b :: rest => b :: percentDecode rest
termination_by bytes => bytes.length

/-- The text of one name or value in a list of parameters. -/
def parameterText (bytes : Bytes) : String :=
  shown (percentDecode (bytes.map fun b => if b = 43 then 32 else b))

/-- The names and values of a list of parameters. -/
def parameters (bytes : Bytes) : List (String × String) :=
  ((bytes.splitOn 38).filter fun part => !part.isEmpty).map fun part =>
    (parameterText (part.takeWhile (· ≠ 61)), parameterText ((part.dropWhile (· ≠ 61)).drop 1))

end Telemetry.Text
