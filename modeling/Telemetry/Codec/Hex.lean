import Telemetry.Bytes

/-!
# Hexadecimal text

Each byte is written as two lowercase digits. Capital digits are read too.
-/

namespace Telemetry.Hex

def digit (n : UInt8) : Char := Nat.digitChar n.toNat

def encode (bytes : Bytes) : List Char := bytes.flatMap fun b => [digit (b / 16), digit (b % 16)]

def value? (c : Char) : Option UInt8 :=
  if '0' ≤ c && c ≤ '9' then some (c.toNat - 48).toUInt8
  else if 'a' ≤ c && c ≤ 'f' then some (c.toNat - 87).toUInt8
  else if 'A' ≤ c && c ≤ 'F' then some (c.toNat - 55).toUInt8
  else none

def decode? : List Char → Option Bytes
  | [] => some []
  | [_] => none
  | c :: d :: rest =>
    match value? c, value? d with
    | some high, some low => (decode? rest).map fun bytes => (16 * high + low) :: bytes
    | _, _ => none

end Telemetry.Hex
