import Telemetry.Codec.Base64

/-!
# Labelled text

Binary data as text between two lines that name what it is. The data is in base64, in lines of 64
symbols of which only the last may be shorter. Text before the first line is passed over if it has no
null character.
-/

namespace Telemetry.Pem

def beginMark : Bytes := Bytes.ofAscii "-----BEGIN ".toList

def endMark : Bytes := Bytes.ofAscii "-----END ".toList

def dashes : Bytes := Bytes.ofAscii "-----".toList

/-- What follows given bytes at the front. -/
def after? (front bytes : Bytes) : Option Bytes :=
  if front.isPrefixOf bytes then some (bytes.drop front.length) else none

/-- What stands before given bytes at the end. -/
def before? (back bytes : Bytes) : Option Bytes :=
  if back.isSuffixOf bytes then some (bytes.take (bytes.length - back.length)) else none

/-- What follows the text before the first line. -/
def skipPreamble : Bytes → Option Bytes
  | [] => none
  | b :: rest =>
    if b = 0 then none
    else if b = 10 && beginMark.isPrefixOf rest then some rest
    else skipPreamble rest

def afterLine? (bytes : Bytes) : Option Bytes :=
  match bytes with
  | [] => none
  | b :: rest =>
    if b = 10 then some rest
    else if b = 13 then some (if rest.head? = some 10 then rest.drop 1 else rest)
    else none

def beforeLine? (bytes : Bytes) : Option Bytes :=
  (afterLine? bytes.reverse |>.map fun _ =>
    if bytes.getLast? = some 10 then
      let shorter := bytes.dropLast
      if shorter.getLast? = some 13 then shorter.dropLast else shorter
    else bytes.dropLast)

def lineWidth : Nat := 64

/-- The symbols of all lines. The first argument bounds their number. -/
def joinLines : Nat → Bytes → Option Bytes
  | 0, _ => none
  | fuel + 1, bytes =>
    let rest := bytes.drop lineWidth
    if rest.isEmpty then some bytes
    else (afterLine? rest).bind fun rest =>
      (joinLines fuel rest).map fun more => bytes.take lineWidth ++ more

def decode? (label : String) (text : String) : Option Bytes :=
  let bytes := Bytes.ofString text
  let label := Bytes.ofString label
  (if beginMark.isPrefixOf bytes then some bytes else skipPreamble bytes).bind fun bytes =>
    (after? (beginMark ++ label ++ dashes) bytes).bind fun body =>
    (afterLine? body).bind fun body =>
    (before? (endMark ++ label ++ dashes) ((beforeLine? body).getD body)).bind fun body =>
    (beforeLine? body).bind fun body =>
    (joinLines (body.length + 1) body).bind fun symbols => (Base64.decode symbols).toOption

end Telemetry.Pem
