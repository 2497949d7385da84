/-!
# Bytes and text

Bodies of requests and contents of files are lists of bytes. Text becomes bytes by its UTF-8
encoding, and bytes are text only when they are valid UTF-8.
-/

namespace Telemetry

abbrev Bytes := List UInt8

namespace Bytes

/-- The UTF-8 encoding of a text. -/
def ofString (s : String) : Bytes := s.toUTF8.data.toList

/-- The text whose UTF-8 encoding these bytes are, if there is one. -/
def toString? (bytes : Bytes) : Option String := String.fromUTF8? ⟨bytes.toArray⟩

/-- The bytes of a text all of whose characters are ASCII. -/
def ofAscii (cs : List Char) : Bytes := cs.map fun c => c.toNat.toUInt8

end Bytes

end Telemetry
