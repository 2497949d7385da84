import Telemetry.Net.Socket
import Telemetry.Text.Percent

/-!
# Locations

A location begins with a scheme and names a host and perhaps a port. The schemes of the web have
ports of their own, allow any number of slashes of either kind in front of the host, and let a host
be written with percent signs and as numbers; for other schemes the host follows two slashes as it
is.
-/

namespace Telemetry.Net

open Telemetry.Number

def webPort? (scheme : List Char) : Option Nat :=
  match String.ofList scheme with
  | "http" => some 80
  | "ws" => some 80
  | "https" => some 443
  | "wss" => some 443
  | "ftp" => some 21
  | _ => none

/-- A location as it is written, without the characters that do not count. -/
def cleaned (text : String) : List Char :=
  let isOuter (c : Char) : Bool := c ≤ ' '
  let inner := ((text.toList.dropWhile isOuter).reverse.dropWhile isOuter).reverse
  inner.filter fun c => c ≠ '\t' && c ≠ '\n' && c ≠ '\r'

/-- The scheme, in small letters, and what follows its colon. -/
def splitScheme? (cs : List Char) : Option (List Char × List Char) :=
  let isPart (c : Char) : Bool := c.isAlphanum || c = '+' || c = '-' || c = '.'
  let (scheme, rest) := cs.span isPart
  match scheme with
  | [] => none
  | c :: _ => if c.isAlpha then (after? ':' rest).map fun rest => (scheme.map Char.toLower, rest)
    else none

def splitPort (cs : List Char) : List Char × Option (List Char) :=
  match cs with
  | '[' :: inner =>
    let (host, rest) := inner.span (· ≠ ']')
    ('[' :: host ++ rest.take 1, after? ':' (rest.drop 1))
  | _ =>
    let (host, rest) := cs.span (· ≠ ':')
    (host, after? ':' rest)

/-- The port that a text names, or the default one if it is empty. -/
def portOf? (default : Option Nat) : Option (List Char) → Option Nat
  | none => default
  | some [] => default
  | some digits => match SocketAddress.readNumber SocketAddress.portMax digits with
    | some (port, []) => some port
    | _ => none

/-- The address of a host, resolved by means of the surroundings. -/
def hostAddress? (lookup : String → Except String IpAddress) (cs : List Char) : Option IpAddress :=
  match cs with
  | [] => none
  | '[' :: inner => match readV6 inner with
    | some (bits, [']']) => some (.v6 bits)
    | _ => none
  | _ => (lookup (String.ofList cs)).toOption

/-- The address and port that a location leads to. -/
def locate? (lookup : String → Except String IpAddress) (text : String) : Option SocketAddress :=
  (splitScheme? (cleaned text)).bind fun (scheme, rest) =>
    let port := webPort? scheme
    let isSlash (c : Char) : Bool := c = '/' || (port.isSome && c = '\\')
    let authority? := if port.isSome then some (rest.dropWhile isSlash)
      else (after? '/' rest).bind (after? '/')
    authority?.bind fun rest =>
      let authority := rest.takeWhile fun c => !isSlash c && c ≠ '?' && c ≠ '#'
      let named := (authority.reverse.takeWhile (· ≠ '@')).reverse
      let (host, portText) := splitPort named
      let plain := if port.isSome then
          (Text.shown (Text.percentDecode (Bytes.ofString (String.ofList host)))).toList.map
            Char.toLower
        else host
      (portOf? port portText).bind fun port =>
        (hostAddress? lookup plain).map fun address => ⟨address, 0, port⟩

/-- The address from which packets to a location would be sent, as far as the routes of the host
tell. -/
def outboundAddress (lookup : String → Except String IpAddress)
    (route : SocketAddress → Option IpAddress) (text : String) : Option IpAddress :=
  (locate? lookup text).bind route

end Telemetry.Net
