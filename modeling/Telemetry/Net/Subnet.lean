import Telemetry.Net.Address
import Telemetry.Text.Blank
import Telemetry.Failure
import Telemetry.Number.Literal

/-!
# Subnets

A subnet is the set of the addresses of one family whose first bits are given. The bits after these
are zero in the subnet, whatever they are in the text, so that equal subnets hold equal addresses.
-/

namespace Telemetry.Net

open Telemetry.Number

/-- An address without the bits after the first `length` ones. -/
def network {width : Nat} (length : Nat) (bits : BitVec width) : BitVec width :=
  bits >>> (width - length) <<< (width - length)

/-- The addresses of a family that begin with the given bits. -/
inductive Subnet where
  | v4 (bits : BitVec 32) (length : Nat)
  | v6 (bits : BitVec 128) (length : Nat)
deriving DecidableEq

namespace Subnet

def contains (subnet : Subnet) (address : IpAddress) : Bool :=
  match subnet, address with
  | .v4 bits length, .v4 other => network length other = bits
  | .v6 bits length, .v6 other => network length other = bits
  | _, _ => false

/-- Whether a client that gives its address in a header is let in. -/
def allows (subnet : Subnet) (header : Option String) : Bool :=
  match header.bind fun raw => IpAddress.parse? (Text.trimBlanks raw.toList) with
  | some address => subnet.contains address
  | none => false

def ofParts? (address : IpAddress) (length : Nat) : Option Subnet :=
  if address.width < length then none
  else match address with
    | .v4 bits => some (.v4 (network length bits) length)
    | .v6 bits => some (.v6 (network length bits) length)

def readLength (cs : List Char) : Except String Nat :=
  (Literal.readNat 255 (Text.trimBlanks cs)).mapError LiteralError.message

/-- The subnet that an address, and a number of bits unless all are meant, give. -/
def ofText (address : List Char) (length : Option (List Char)) : Except String Subnet :=
  match IpAddress.parse? (Text.trimBlanks address) with
  | none => .error IpAddress.syntaxFault
  | some address => match (length.map readLength).getD (.ok address.width) with
    | .error reason => .error reason
    | .ok length => match ofParts? address length with
      | none => .error "invalid netmask"
      | some subnet => .ok subnet

/-- The subnet that a text writes: an address, and after a slash the number of bits. -/
def parse (text : String) : Except Failure Subnet :=
  let cs := text.toList
  let length := (cs.dropWhile (· ≠ '/'))
  (ofText (cs.takeWhile (· ≠ '/')) (if length.isEmpty then none else some (length.drop 1))).mapError
    fun reason => .configuration ("Invalid trusted subnet " ++ text ++ ": " ++ reason)

def text : Subnet → String
  | .v4 bits length => String.ofList (v4Text bits ++ '/' :: Layout.digitsOf length)
  | .v6 bits length => String.ofList (v6Text bits ++ '/' :: Layout.digitsOf length)

end Subnet

end Telemetry.Net
