import Telemetry.Text.Quoted
import Telemetry.Number.Layout

/-!
# Addresses of hosts

An address has 32 or 128 bits. A 32-bit address is written as four decimal bytes, a 128-bit one as
eight hexadecimal groups; the first of the longest runs of two or more zero groups is written as two
colons, and the last two groups may be given as four decimal bytes. Only an address that embeds a
32-bit one after the mark for that is written with decimal bytes.
-/

namespace Telemetry.Net

open Telemetry.Number

inductive IpAddress where
  | v4 (bits : BitVec 32)
  | v6 (bits : BitVec 128)
deriving DecidableEq

def digitOf? (base : Nat) (c : Char) : Option Nat :=
  let value :=
    if c.isDigit then some (c.toNat - '0'.toNat)
    else if 'a' ≤ c && c ≤ 'z' then some (c.toNat - 'a'.toNat + 10)
    else if 'A' ≤ c && c ≤ 'Z' then some (c.toNat - 'A'.toNat + 10)
    else none
  value.filter (· < base)

def numberOf (base : Nat) (digits : List Char) : Nat :=
  digits.foldl (fun n c => n * base + (digitOf? base c).getD 0) 0

/-- The digits of a base at the front, and what follows them. -/
def spanDigits (base : Nat) (cs : List Char) : List Char × List Char :=
  cs.span fun c => (digitOf? base c).isSome

/-- What follows a given character at the front. -/
def after? (c : Char) : List Char → Option (List Char)
  | [] => none
  | d :: cs => if d = c then some cs else none

/-- A decimal byte without needless zeros. -/
def readByte (cs : List Char) : Option (Nat × List Char) :=
  let (digits, rest) := spanDigits 10 cs
  let n := numberOf 10 digits
  if digits.isEmpty || 3 < digits.length || 255 < n then none
  else if digits.head? = some '0' && 1 < digits.length then none
  else some (n, rest)

/-- Four decimal bytes with points between them. -/
def readV4 (cs : List Char) : Option (BitVec 32 × List Char) :=
  (readByte cs).bind fun (a, cs) =>
  (after? '.' cs).bind fun cs => (readByte cs).bind fun (b, cs) =>
  (after? '.' cs).bind fun cs => (readByte cs).bind fun (c, cs) =>
  (after? '.' cs).bind fun cs => (readByte cs).map fun (d, cs) =>
  (BitVec.ofNat 32 (((a * 256 + b) * 256 + c) * 256 + d), cs)

def readGroup (cs : List Char) : Option (Nat × List Char) :=
  let (digits, rest) := spanDigits 16 cs
  if digits.isEmpty || 4 < digits.length then none else some (numberOf 16 digits, rest)

/-- What follows the colon in front of a group; the first group has none. -/
def afterColon (first : Bool) (cs : List Char) : Option (List Char) :=
  if first then some cs else after? ':' cs

/-- Up to a number of groups, whether they end in four decimal bytes, and what follows them. -/
def readGroups : Nat → Bool → List Char → List Nat × Bool × List Char
  | 0, _, cs => ([], false, cs)
  | limit + 1, first, cs =>
    match if limit = 0 then none else (afterColon first cs).bind readV4 with
    | some (bits, rest) => ([bits.toNat / 65536, bits.toNat % 65536], true, rest)
    | none => match (afterColon first cs).bind readGroup with
      | none => ([], false, cs)
      | some (group, rest) =>
        let (groups, decimal, rest) := readGroups limit false rest
        (group :: groups, decimal, rest)

def ofGroups (groups : List Nat) : BitVec 128 :=
  BitVec.ofNat 128 (groups.foldl (fun n group => n * 65536 + group) 0)

/-- Eight groups, or fewer with two colons in the place of the zero groups between them. -/
def readV6 (cs : List Char) : Option (BitVec 128 × List Char) :=
  let (head, decimal, rest) := readGroups 8 true cs
  if head.length = 8 then some (ofGroups head, rest)
  else if decimal then none
  else ((after? ':' rest).bind (after? ':')).map fun rest =>
    let (tail, _, rest) := readGroups (7 - head.length) true rest
    (ofGroups (head ++ List.replicate (8 - head.length - tail.length) 0 ++ tail), rest)

namespace IpAddress

def read (cs : List Char) : Option (IpAddress × List Char) :=
  match readV4 cs with
  | some (bits, rest) => some (.v4 bits, rest)
  | none => (readV6 cs).map fun (bits, rest) => (.v6 bits, rest)

def parse? (text : List Char) : Option IpAddress :=
  match read text with
  | some (address, []) => some address
  | _ => none

def syntaxFault : String := "invalid IP address syntax"

def width : IpAddress → Nat
  | .v4 _ => 32
  | .v6 _ => 128

end IpAddress

def v4Text (bits : BitVec 32) : List Char :=
  let byte (shift : Nat) := Layout.digitsOf (bits.toNat >>> shift % 256)
  byte 24 ++ '.' :: byte 16 ++ '.' :: byte 8 ++ '.' :: byte 0

def groupsOf (bits : BitVec 128) : List Nat :=
  [112, 96, 80, 64, 48, 32, 16, 0].map fun shift => bits.toNat >>> shift % 65536

def groupsText : List Nat → List Char
  | [] => []
  | [group] => Text.hexDigits group
  | group :: groups => Text.hexDigits group ++ ':' :: groupsText groups

/-- The place and length of the first of the longest runs of zero groups. -/
def longestZeros (groups : List Nat) : Nat × Nat :=
  (List.range groups.length).foldl
    (fun best start =>
      let length := ((groups.drop start).takeWhile (· = 0)).length
      if best.2 < length then (start, length) else best)
    (0, 0)

def v6Text (bits : BitVec 128) : List Char :=
  let groups := groupsOf bits
  if groups.take 6 = [0, 0, 0, 0, 0, 65535] then
    "::ffff:".toList ++ v4Text (bits.truncate 32)
  else
    let (start, length) := longestZeros groups
    if 1 < length then
      groupsText (groups.take start) ++ ':' :: ':' :: groupsText (groups.drop (start + length))
    else groupsText groups

def IpAddress.text : IpAddress → List Char
  | .v4 bits => v4Text bits
  | .v6 bits => v6Text bits

end Telemetry.Net
