import Telemetry.Codec.Gzip
import Telemetry.Crypto.Rsa
import Telemetry.Crypto.Signature

/-!
# Bodies of requests

A body is decompressed if it says so, its signature is checked if there is a secret, and it is
decrypted if there is a private key, in this order: the signature is that of the decompressed body
before decryption.
-/

namespace Telemetry.Service

/-- What the headers of a request say of its body. -/
structure BodyHeaders where
  encoding : Option String
  signature : Option String

/-- Whether a text is `gzip` in small or capital letters. -/
def isGzip (encoding : String) : Bool := encoding.toList.map Char.toLower == "gzip".toList

def decompressBody (encoding : Option String) (raw : Bytes) : Except Failure Bytes :=
  match encoding with
  | some encoding => if isGzip encoding then Gzip.decompress raw else .ok raw
  | none => .ok raw

def checkSignature (signature : Option String) (body : Bytes) (secret : String) :
    Except Failure Unit :=
  match signature with
  | none => .error (.signature "signature header is missing")
  | some signature =>
    if Signature.verify signature body secret then .ok ()
    else .error (.signature "signature does not match body")

def decodeBody (headers : BodyHeaders) (raw : Bytes) (secret : Option String)
    (key : Option Rsa.PrivateKey) : Except Failure Bytes :=
  match decompressBody headers.encoding raw with
  | .error failure => .error failure
  | .ok body => match secret.elim (.ok ()) (checkSignature headers.signature body) with
    | .error failure => .error failure
    | .ok () => match key with
      | some key => Rsa.decrypt key body
      | none => .ok body

end Telemetry.Service
