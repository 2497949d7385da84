import Telemetry.Codec.Hex
import Telemetry.Crypto.Sha256

/-!
# Signatures

A body is signed by the keyed digest of its bytes, written in hexadecimal digits. A key longer than a
block of the digest is replaced by its digest.
-/

namespace Telemetry.Signature

def blockSize : Nat := 64

/-- The bytes of a key filled up to a block. -/
def keyBlock (key : Bytes) : Bytes :=
  let short := if blockSize < key.length then Sha256.digest key else key
  short ++ List.replicate (blockSize - short.length) 0

def mac (key body : Bytes) : Bytes :=
  let block := keyBlock key
  let inner := Sha256.digest (block.map (· ^^^ 0x36) ++ body)
  Sha256.digest (block.map (· ^^^ 0x5c) ++ inner)

def sign (body : Bytes) (key : String) : String :=
  String.ofList (Hex.encode (mac (Bytes.ofString key) body))

/-- Whether a text is the signature of a body under a key, its digits in either case. -/
def verify (signature : String) (body : Bytes) (key : String) : Bool :=
  Hex.decode? signature.toList == some (mac (Bytes.ofString key) body)

end Telemetry.Signature
