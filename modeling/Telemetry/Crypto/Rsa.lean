import Telemetry.Crypto.Der
import Telemetry.Crypto.Pem
import Telemetry.Crypto.Sha256
import Telemetry.Disk

/-!
# Encryption of bodies

A body is encrypted under the public key of the server: it is padded with random bytes that are not
zero, raised to the public exponent, and written in base64. The server undoes this with its private
key. Keys are checked for consistency when they are read, and a body that does not fit the key is
refused.
-/

namespace Telemetry.Rsa

/-- The power of a number modulo another one, by repeated squaring. -/
def powMod (base exponent modulus : Nat) : Nat :=
  if h : exponent = 0 then 1 % modulus
  else
    let half := powMod (base * base % modulus) (exponent / 2) modulus
    if exponent % 2 = 1 then half * base % modulus else half
termination_by exponent
decreasing_by omega

structure PublicKey where
  modulus : Nat
  exponent : Nat
deriving DecidableEq, Repr

/-- A private key of two primes. -/
structure PrivateKey where
  publicKey : PublicKey
  exponent : Nat
  first : Nat
  second : Nat
deriving DecidableEq, Repr

def bitsMax : Nat := 4096

def PublicKey.size (key : PublicKey) : Nat := (Nat.log2 key.modulus + 8) / 8

def PublicKey.isValid (key : PublicKey) : Bool :=
  key.modulus < Nat.pow 2 bitsMax && key.exponent < key.modulus && key.modulus % 2 = 1
    && key.exponent % 2 = 1 && 2 ≤ key.exponent && key.exponent < Nat.pow 2 33

/-- Whether a private key undoes its public key. -/
def PrivateKey.isValid (key : PrivateKey) : Bool :=
  let product := key.publicKey.exponent * key.exponent
  key.publicKey.isValid && key.first * key.second = key.publicKey.modulus
    && product % (key.first - 1) = 1 && product % (key.second - 1) = 1

/-- The element that names the algorithm, with no parameters. -/
def algorithm : Bytes :=
  [0x30, 0x0d, 0x06, 0x09, 0x2a, 0x86, 0x48, 0x86, 0xf7, 0x0d, 0x01, 0x01, 0x01, 0x05, 0x00]

def PublicKey.ofBits? (content : Bytes) : Option PublicKey :=
  match content with
  | [] => none
  | unused :: bytes =>
    if unused ≠ 0 then none
    else ((Der.readOnly Der.sequenceTag bytes).bind (Der.readNumbers 2)).bind fun numbers =>
      match numbers with
      | [modulus, exponent] =>
        let key : PublicKey := ⟨modulus, exponent⟩
        if key.isValid then some key else none
      | _ => none

def PublicKey.ofText? (text : String) : Option PublicKey :=
  (Pem.decode? "PUBLIC KEY" text).bind fun bytes =>
    (Der.readOnly Der.sequenceTag bytes).bind fun content =>
    (Pem.after? algorithm content).bind fun rest =>
    (Der.readOnly Der.bitsTag rest).bind PublicKey.ofBits?

def PrivateKey.ofNumbers? : List Nat → Option PrivateKey
  | [0, modulus, exponent, inverse, first, second, _, _, _] =>
    let key : PrivateKey := ⟨⟨modulus, exponent⟩, inverse, first, second⟩
    if key.isValid then some key else none
  | _ => none

def PrivateKey.ofText? (text : String) : Option PrivateKey :=
  (Pem.decode? "RSA PRIVATE KEY" text).bind fun bytes =>
    (Der.readOnly Der.sequenceTag bytes).bind fun content =>
    (Der.readNumbers 9 content).bind PrivateKey.ofNumbers?

/-- Why a key cannot be had: its file cannot be read, or holds no key. -/
inductive KeyFault where
  | file (failure : Failure)
  | malformed
deriving DecidableEq

def KeyFault.failure : KeyFault → Failure
  | .file failure => failure
  | .malformed => .encryption "malformed key"

def loadKey {κ : Type} (read? : String → Option κ) (disk : Disk) (path : String) :
    Except KeyFault κ :=
  match disk.readText path with
  | .error fault => .error (.file (.file path fault.message))
  | .ok text => match read? text with
    | some key => .ok key
    | none => .error .malformed

/-- The bytes of padding that a message needs at least, with the bytes around it. -/
def overhead : Nat := 11

def paddingLength (key : PublicKey) (message : Bytes) : Nat := key.size - 3 - message.length

/-- A message between its padding and the marks around that. -/
def pad (padding message : Bytes) : Bytes := 0 :: 2 :: padding ++ 0 :: message

def unpad (block : Bytes) : Option Bytes :=
  match block with
  | zero :: two :: rest =>
    let padding := rest.takeWhile (· ≠ 0)
    if zero ≠ 0 || two ≠ 2 || padding.length < 8 || padding.length = rest.length then none
    else some (rest.drop (padding.length + 1))
  | _ => none

/-- The text of an encrypted body. `random` gives padding of a length, in which no byte is zero. -/
def encrypt (key : PublicKey) (random : Nat → Bytes) (body : Bytes) : Except Failure Bytes :=
  if key.size < body.length + overhead then .error (.encryption "message too long")
  else
    let block := pad (random (paddingLength key body)) body
    let cipher := powMod (Der.bigEndian block) key.exponent key.modulus
    .ok (Base64.encode (Sha256.bigEndianBytes key.size cipher))

def decryptBlock (key : PrivateKey) (cipher : Bytes) : Option Bytes :=
  let n := Der.bigEndian cipher
  if key.publicKey.modulus ≤ n || key.publicKey.size < overhead then none
  else unpad <| Sha256.bigEndianBytes key.publicKey.size
    (powMod n key.exponent key.publicKey.modulus)

/-- The bytes that may stand between the symbols of a text. -/
def isBlank (b : UInt8) : Bool := b = 32 || b = 9 || b = 10 || b = 12 || b = 13

def decrypt (key : PrivateKey) (text : Bytes) : Except Failure Bytes :=
  match Base64.decode (text.filter fun b => !isBlank b) with
  | .error fault => .error (.encryption fault.message)
  | .ok cipher => match decryptBlock key cipher with
    | none => .error (.encryption "decryption error")
    | some body => .ok body

end Telemetry.Rsa
