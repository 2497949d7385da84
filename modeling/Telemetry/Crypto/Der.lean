import Telemetry.Bytes

/-!
# Binary elements

An element is a tag, a length and as many bytes. A length below 128 is one byte, and a longer one is
written with the least number of bytes. An unsigned number has no needless zero in front.
-/

namespace Telemetry.Der

/-- The number that bytes write, the highest byte first. -/
def bigEndian (bytes : Bytes) : Nat := bytes.foldl (fun n b => n * 256 + b.toNat) 0

def readLength : Bytes → Option (Nat × Bytes)
  | [] => none
  | b :: rest =>
    if b < 0x80 then some (b.toNat, rest)
    else
      let size := b.toNat - 0x80
      let length := bigEndian (rest.take size)
      if size = 0 || 4 < size || rest.length < size then none
      else if length < 0x80 || length < Nat.pow 256 (size - 1) then none
      else some (length, rest.drop size)

/-- The content of an element with a given tag, and what follows the element. -/
def readElement (tag : UInt8) : Bytes → Option (Bytes × Bytes)
  | [] => none
  | b :: rest =>
    if b ≠ tag then none
    else (readLength rest).bind fun (length, rest) =>
      if rest.length < length then none else some (rest.take length, rest.drop length)

/-- The content of the only element, which has a given tag. -/
def readOnly (tag : UInt8) (bytes : Bytes) : Option Bytes :=
  (readElement tag bytes).bind fun (content, rest) => if rest.isEmpty then some content else none

/-- The tags of the elements that keys are made of. -/
def integerTag : UInt8 := 2
def bitsTag : UInt8 := 3
def sequenceTag : UInt8 := 0x30

def unsigned? (content : Bytes) : Option Nat :=
  match content with
  | [] => none
  | [b] => if b < 0x80 then some b.toNat else none
  | b :: c :: _ =>
    if 0x80 ≤ b || (b = 0 && c < 0x80) then none else some (bigEndian content)

def readUnsigned (bytes : Bytes) : Option (Nat × Bytes) :=
  (readElement integerTag bytes).bind fun (content, rest) =>
    (unsigned? content).map fun n => (n, rest)

def readNumbers : Nat → Bytes → Option (List Nat)
  | 0, bytes => if bytes.isEmpty then some [] else none
  | count + 1, bytes => (readUnsigned bytes).bind fun (n, rest) =>
    (readNumbers count rest).map (n :: ·)

end Telemetry.Der
