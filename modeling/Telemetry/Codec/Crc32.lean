import Telemetry.Bytes

/-!
# Checksums

The cyclic redundancy check of 32 bits with the reversed polynomial `0xEDB88320`.
-/

namespace Telemetry.Crc32

/-- One division step. -/
def shift (c : UInt32) : UInt32 := if c &&& 1 = 1 then (c >>> 1) ^^^ 0xedb88320 else c >>> 1

def remainder (b : UInt8) : UInt32 :=
  shift (shift (shift (shift (shift (shift (shift (shift b.toUInt32)))))))

def table : Array UInt32 := Array.ofFn fun i : Fin 256 => remainder i.toNat.toUInt8

/-- The checksum register after a byte. -/
def step (c : UInt32) (b : UInt8) : UInt32 :=
  table.getD ((c ^^^ b.toUInt32) &&& 0xff).toNat 0 ^^^ (c >>> 8)

def checksum (bytes : Bytes) : UInt32 := bytes.foldl step 0xffffffff ^^^ 0xffffffff

end Telemetry.Crc32
