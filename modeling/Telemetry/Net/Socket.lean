import Telemetry.Net.Address
import Telemetry.Failure
import Telemetry.Number.Literal

/-!
# Addresses to listen on

An address and a port. The host may be a name, which the surroundings resolve; an empty host in front
of the port stands for all interfaces.
-/

namespace Telemetry.Net

open Telemetry.Number

/-- The address of a port of a host. The scope tells interfaces apart where an address alone does
not. -/
structure SocketAddress where
  host : IpAddress
  scope : Nat
  port : Nat
deriving DecidableEq

namespace SocketAddress

def text (address : SocketAddress) : String :=
  let port := ':' :: Layout.digitsOf address.port
  match address.host with
  | .v4 bits => String.ofList (v4Text bits ++ port)
  | .v6 bits =>
    let scope := if address.scope = 0 then [] else '%' :: Layout.digitsOf address.scope
    String.ofList ('[' :: v6Text bits ++ scope ++ ']' :: port)

def readNumber (most : Nat) (cs : List Char) : Option (Nat × List Char) :=
  let (digits, rest) := spanDigits 10 cs
  let n := numberOf 10 digits
  if digits.isEmpty || most < n then none else some (n, rest)

def portMax : Nat := 65535

def scopeMax : Nat := 0xffffffff

def readPort (cs : List Char) : Option Nat :=
  match (after? ':' cs).bind (readNumber portMax) with
  | some (port, []) => some port
  | _ => none

/-- A 128-bit address in brackets with its scope, and the port. -/
def parseV6? (cs : List Char) : Option SocketAddress :=
  (after? '[' cs).bind fun cs => (readV6 cs).bind fun (bits, cs) =>
    let scope := match (after? '%' cs).bind (readNumber scopeMax) with
      | some (scope, rest) => (scope, rest)
      | none => (0, cs)
    (after? ']' scope.2).bind fun cs => (readPort cs).map fun port => ⟨.v6 bits, scope.1, port⟩

/-- The address that a text writes without any name. -/
def parse? (cs : List Char) : Option SocketAddress :=
  match readV4 cs with
  | some (bits, rest) => (readPort rest).map fun port => ⟨.v4 bits, 0, port⟩
  | none => parseV6? cs

def splitLastColon (cs : List Char) : Option (List Char × List Char) :=
  let reversed := cs.reverse
  match reversed.dropWhile (· ≠ ':') with
  | [] => none
  | _ :: host => some (host.reverse, (reversed.takeWhile (· ≠ ':')).reverse)

def resolve (lookup : String → Except String IpAddress) (cs : List Char) :
    Except String SocketAddress :=
  match parse? cs with
  | some address => .ok address
  | none => match splitLastColon cs with
    | none => .error "invalid socket address"
    | some (host, port) => match Literal.readNat portMax port with
      | .error _ => .error "invalid port value"
      | .ok port => (lookup (String.ofList host)).map fun address => ⟨address, 0, port⟩

def listenOn (lookup : String → Except String IpAddress) (raw : String) :
    Except Failure SocketAddress :=
  let qualified := if raw.toList.head? = some ':' then "0.0.0.0".toList ++ raw.toList else raw.toList
  (resolve lookup qualified).mapError fun reason =>
    .configuration ("Invalid metrics address " ++ raw ++ ": " ++ reason)

end SocketAddress

/-- A part of a numeric host: decimal, octal after a zero, or hexadecimal after `0x`. -/
def readHostPart? (cs : List Char) : Option Nat :=
  let read (base : Nat) (digits : List Char) : Option Nat :=
    if digits.all fun c => (digitOf? base c).isSome then some (numberOf base digits) else none
  match cs with
  | [] => none
  | '0' :: 'x' :: digits => read 16 digits
  | '0' :: 'X' :: digits => read 16 digits
  | '0' :: digits => read 8 digits
  | digits => read 10 digits

/-- The address of numeric parts, all but the last of which are bytes. -/
def ofHostParts? (parts : List Nat) : Option (BitVec 32) :=
  match parts.reverse with
  | [] => none
  | last :: front =>
    if 3 < front.length || front.any (255 < ·) || Nat.pow 256 (4 - front.length) ≤ last then none
    else some (BitVec.ofNat 32 <|
      (front.reverse.foldl (fun n part => n * 256 + part) 0) * Nat.pow 256 (4 - front.length) + last)

/-- A host written with up to four numbers. -/
def numericHost? (host : List Char) : Option (BitVec 32) :=
  ((host.splitOn '.').mapM readHostPart?).bind ofHostParts?

/-- Resolves the hosts that need no name service. -/
def localLookup (host : String) : Except String IpAddress :=
  match IpAddress.parse? host.toList with
  | some address => .ok address
  | none => match numericHost? host.toList with
    | some bits => .ok (.v4 bits)
    | none =>
      if host = "localhost" then .ok (.v4 0x7f000001)
      else .error "failed to lookup address information: Name or service not known"

end Telemetry.Net
