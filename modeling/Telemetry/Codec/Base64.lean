import Telemetry.Bytes

/-!
# Base64

Three bytes are written as four symbols. The last group is padded, the padding is required when
reading, and the bits that it leaves over must be zero, so that each text has one meaning and each
sequence of bytes one text. A fault names the first offending symbol.
-/

namespace Telemetry.Base64

def symbol (n : Nat) : UInt8 :=
  if n < 26 then (65 + n).toUInt8
  else if n < 52 then (71 + n).toUInt8
  else if n < 62 then (n - 4).toUInt8
  else if n = 62 then 43
  else 47

def value? (b : UInt8) : Option Nat :=
  if 65 ≤ b && b ≤ 90 then some (b.toNat - 65)
  else if 97 ≤ b && b ≤ 122 then some (b.toNat - 71)
  else if 48 ≤ b && b ≤ 57 then some (b.toNat + 4)
  else if b = 43 then some 62
  else if b = 47 then some 63
  else none

def pad : UInt8 := 61

def encode : Bytes → Bytes
  | [] => []
  | [a] => [symbol (a.toNat / 4), symbol (a.toNat % 4 * 16), pad, pad]
  | [a, b] =>
    [symbol (a.toNat / 4), symbol (a.toNat % 4 * 16 + b.toNat / 16), symbol (b.toNat % 16 * 4), pad]
  | a :: b :: c :: rest =>
    symbol (a.toNat / 4) :: symbol (a.toNat % 4 * 16 + b.toNat / 16)
      :: symbol (b.toNat % 16 * 4 + c.toNat / 64) :: symbol (c.toNat % 64) :: encode rest

inductive Fault where
  | symbol (b : UInt8) (offset : Nat)
  | length (n : Nat)
  | lastSymbol (b : UInt8) (offset : Nat)
  | padding
deriving DecidableEq, Repr

def Fault.message : Fault → String
  | .symbol b offset =>
    "Invalid symbol " ++ toString b.toNat ++ ", offset " ++ toString offset ++ "."
  | .length n => "Invalid input length: " ++ toString n
  | .lastSymbol b offset =>
    "Invalid last symbol " ++ toString b.toNat ++ ", offset " ++ toString offset ++ "."
  | .padding => "Invalid padding"

/-- The numbers of symbols, the first of which is at an offset. -/
def values (offset : Nat) : Bytes → Except Fault (List Nat)
  | [] => .ok []
  | b :: rest => match value? b with
    | none => .error (.symbol b offset)
    | some n => (values (offset + 1) rest).map (n :: ·)

def bytesOf (a b c d : Nat) : Bytes :=
  [(a * 4 + b / 16).toUInt8, (b % 16 * 16 + c / 4).toUInt8, (c % 4 * 64 + d).toUInt8]

/-- The bytes of the last group, which starts at an offset and may be padded or cut short. -/
def decodeLast (offset : Nat) (group : Bytes) : Except Fault Bytes :=
  let symbols := group.takeWhile (· ≠ pad)
  let rest := group.drop symbols.length
  match values offset symbols with
  | .error fault => .error fault
  | .ok numbers =>
    if !rest.isEmpty && (symbols.length < 2 || rest.any (· ≠ pad)) then
      .error (.symbol pad (offset + symbols.length))
    else if numbers.length < 2 then .error (.length (offset + numbers.length))
    else if group.length ≠ 4 then .error .padding
    else
      let last := symbols.getLastD 0
      match numbers with
      | [a, b] => if b % 16 = 0 then .ok ((bytesOf a b 0 0).take 1)
        else .error (.lastSymbol last (offset + 1))
      | [a, b, c] => if c % 4 = 0 then .ok ((bytesOf a b c 0).take 2)
        else .error (.lastSymbol last (offset + 2))
      | a :: b :: c :: d :: _ => .ok (bytesOf a b c d)
      | _ => .ok []

/-- The bytes of the groups from an offset on, after those in `acc`, which are in reverse. -/
def decodeGroups (offset : Nat) (acc : Bytes) : Bytes → Except Fault Bytes
  | a :: b :: c :: d :: e :: rest => match values offset [a, b, c, d] with
    | .error fault => .error fault
    | .ok [a, b, c, d] =>
      decodeGroups (offset + 4) ((bytesOf a b c d).reverse ++ acc) (e :: rest)
    | .ok _ => .error (.length offset)
  | group => (decodeLast offset group).map fun bytes => acc.reverse ++ bytes

/-- A symbol that stands alone after full groups and is none is named first. -/
def strayLast? (text : Bytes) : Option Fault :=
  match text.getLast? with
  | some b =>
    if text.length % 4 = 1 && b ≠ pad && (value? b).isNone then
      some (.symbol b (text.length - 1))
    else none
  | none => none

def decode (text : Bytes) : Except Fault Bytes :=
  if text.isEmpty then .ok []
  else match strayLast? text with
    | some fault => .error fault
    | none => decodeGroups 0 [] text

end Telemetry.Base64
