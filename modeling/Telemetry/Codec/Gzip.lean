import Telemetry.Codec.Crc32
import Telemetry.Codec.Inflate
import Telemetry.Failure

/-!
# Gzip members

A member is a header, a compressed stream, and the checksum and length of what the stream stands for.
The header may have optional fields, which are passed over, and a checksum of its own. Only the first
member is read, and bytes after it are ignored. A member that is written holds its bytes as stored
blocks.
-/

namespace Telemetry.Gzip

inductive Fault where
  | ends
  | header
  | fieldTooLong
  | incomplete
  | corrupt
  | checksum
deriving DecidableEq, Repr

def Fault.message : Fault → String
  | .ends => "unexpected end of file"
  | .header => "invalid gzip header"
  | .fieldTooLong => "gzip header field too long"
  | .incomplete => "incomplete deflate stream"
  | .corrupt => "corrupt deflate stream"
  | .checksum => "corrupt gzip stream does not have a matching checksum"

def take (n : Nat) (bytes : Bytes) : Except Fault (Bytes × Bytes) :=
  let front := bytes.take n
  if front.length < n then .error .ends else .ok (front, bytes.drop n)

/-- The number that bytes write, the lowest byte first. -/
def littleEndian (bytes : Bytes) : Nat := bytes.foldr (fun b n => b.toNat + 256 * n) 0

def littleEndianBytes : Nat → Nat → Bytes
  | 0, _ => []
  | length + 1, n => (n % 256).toUInt8 :: littleEndianBytes length (n / 256)

def textMax : Nat := 65535

/-- What follows a text that ends in a null byte. -/
def skipText (bytes : Bytes) : Except Fault Bytes :=
  let text := bytes.takeWhile (· ≠ 0)
  if textMax < text.length then .error .fieldTooLong
  else match bytes.drop text.length with
    | [] => .error .ends
    | _ :: rest => .ok rest

/-- Whether a header has the optional part that a bit stands for. -/
def hasPart (flags bit : UInt8) : Bool := flags &&& bit ≠ 0

def skipExtra (flags : UInt8) (bytes : Bytes) : Except Fault Bytes :=
  if hasPart flags 4 then match take 2 bytes with
    | .error fault => .error fault
    | .ok (length, rest) => (take (littleEndian length) rest).map Prod.snd
  else .ok bytes

def skipOptionalText (flags bit : UInt8) (bytes : Bytes) : Except Fault Bytes :=
  if hasPart flags bit then skipText bytes else .ok bytes

/-- What follows the checksum of the header, if there is one; it covers the bytes before it. -/
def checkHeader (flags : UInt8) (whole bytes : Bytes) : Except Fault Bytes :=
  if hasPart flags 2 then match take 2 bytes with
    | .error fault => .error fault
    | .ok (sum, rest) =>
      let header := whole.take (whole.length - bytes.length)
      if littleEndian sum = (Crc32.checksum header).toNat % 65536 then .ok rest
      else .error .checksum
  else .ok bytes

def readHeader (bytes : Bytes) : Except Fault Bytes :=
  match take 10 bytes with
  | .error fault => .error fault
  | .ok (fixed, rest) => match fixed with
    | magic :: magic' :: method :: flags :: _ =>
      if magic ≠ 0x1f || magic' ≠ 0x8b || method ≠ 8 || hasPart flags 0xe0 then .error .header
      else (skipExtra flags rest).bind fun rest =>
        (skipOptionalText flags 8 rest).bind fun rest =>
        (skipOptionalText flags 16 rest).bind fun rest => checkHeader flags bytes rest
    | _ => .error .ends

/-- Checks the bytes that a stream stands for against the end of the member. -/
def checkTrailer (content bytes : Bytes) : Except Fault Unit :=
  match take 8 bytes with
  | .error fault => .error fault
  | .ok (trailer, _) =>
    if littleEndian (trailer.take 4) = (Crc32.checksum content).toNat
        && littleEndian (trailer.drop 4) = content.length % Nat.pow 2 32 then .ok ()
    else .error .checksum

/-- The fault of a member whose stream cannot be read. -/
def Fault.ofStream : Inflate.Fault → Fault
  | .incomplete => .incomplete
  | .corrupt => .corrupt

def read (bytes : Bytes) : Except Fault Bytes :=
  match readHeader bytes with
  | .error fault => .error fault
  | .ok stream => match Inflate.inflate stream with
    | .error fault => .error (.ofStream fault)
    | .ok (content, rest) => (checkTrailer content rest).map fun _ => content

/-- The bytes that a member holds, or the failure. -/
def decompress (bytes : Bytes) : Except Failure Bytes :=
  (read bytes).mapError fun fault => .compression fault.message

def blockMax : Nat := 65535

/-- Stored blocks, the last of which is marked and may be empty. The first argument bounds their
number. -/
def storedBlocks : Nat → Bytes → Bytes
  | 0, _ => []
  | fuel + 1, bytes =>
    let block := bytes.take blockMax
    let rest := bytes.drop blockMax
    let lengths := littleEndianBytes 2 block.length ++ littleEndianBytes 2 (65535 - block.length)
    (if rest.isEmpty then 1 else 0) :: lengths ++ block
      ++ (if rest.isEmpty then [] else storedBlocks fuel rest)

def writtenHeader : Bytes := [0x1f, 0x8b, 8, 0, 0, 0, 0, 0, 0, 255]

def compress (bytes : Bytes) : Bytes :=
  writtenHeader ++ storedBlocks (bytes.length + 1) bytes
    ++ littleEndianBytes 4 (Crc32.checksum bytes).toNat
    ++ littleEndianBytes 4 (bytes.length % Nat.pow 2 32)

end Telemetry.Gzip
